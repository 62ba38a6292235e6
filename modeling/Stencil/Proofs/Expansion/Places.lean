import Stencil.Proofs.Condition.Words
import Stencil.Proofs.Scope.Binding

/-!
# The place of an identifier

A word of a condition is an identifier, which names a value by its path. An iteration takes an
identifier that the variable leads to its place in the collection (`Iteration.located`) and leaves
each other word (`resolveFrom_identifier`, `resolveFrom_other`). It reads paths where a condition
reads words, and both begin and end at the same characters but for hyphens: a word goes on behind a
hyphen, and a path does not (`HyphensApart`).
-/

namespace Stencil

open Condition

/-! ## Words and paths -/

theorem isWordPart_of_isPathPart {c : Char} (h : isPathPart c = true) : isWordPart c = true :=
  Bool.or_eq_true_iff.2 (.inl h)

theorem isPathPart_of_isWordPart {c : Char} (h : isWordPart c = true) (hc : c ≠ '-') :
    isPathPart c = true :=
  (Bool.or_eq_true_iff.1 h).resolve_right (by simpa using hc)

theorem Text.isPathPart_of_mem_splitOn {w p : Text} (hw : ∀ c ∈ w, isWordPart c = true)
    (hp : p ∈ Text.splitOn '-' w) : ∀ c ∈ p, isPathPart c = true := fun c hc =>
  isPathPart_of_isWordPart (hw c (Text.mem_of_mem_splitOn hp hc))
    fun e => Text.not_mem_of_mem_splitOn hp (e ▸ hc)

/-- A path begins with a name if it is the name, or a dot follows the name. -/
theorem Context.head?_segments_eq_iff {v p : Text} (hv : '.' ∉ v) :
    (segments p).head? = some v ↔ p = v ∨ ∃ u, p = v ++ '.' :: u := by
  constructor
  · intro h
    obtain ⟨root, rest, hs, -⟩ := exists_segments p
    obtain rfl : root = v := by simpa [hs] using h
    rcases Text.eq_of_splitOn_cons (show Text.splitOn '.' p = _ from hs) with ⟨-, h⟩ | ⟨-, h⟩
    · exact .inl h
    · exact .inr ⟨_, h⟩
  · rintro (rfl | ⟨u, rfl⟩)
    · rw [segments, Text.splitOn_of_not_mem hv]
      rfl
    · rw [segments, Text.splitOn_append, Text.splitOn_of_not_mem hv]
      rfl

theorem Context.startsPath_of_head? {v p : Text} (hv : v.IsIdentifier)
    (h : (segments p).head? = some v) : startsPath p = true := by
  obtain ⟨root, rest, hs, -⟩ := exists_segments p
  obtain rfl : root = v := by simpa [hs] using h
  exact startsPath_of_leads hv hs

/-- The parts of the word between its hyphens do not begin with the variable, unless it is the first
part and goes on behind the variable; nor is the variable a later segment of a part. This is asked
of parts that can begin a path, in words with a hyphen. -/
def HyphensApart (v w : Text) : Prop :=
  '-' ∈ w →
    (∀ p ∈ (Text.splitOn '-' w).head?, startsPath p = true → Context.OnlyLeads v p ∧ p ≠ v) ∧
    ∀ p ∈ (Text.splitOn '-' w).tail, startsPath p = true → v ∉ Context.segments p

instance (v w : Text) : Decidable (HyphensApart v w) :=
  have : Decidable (∀ p ∈ (Text.splitOn '-' w).head?,
      startsPath p = true → Context.OnlyLeads v p ∧ p ≠ v) :=
    (Text.splitOn '-' w).head?.decidableForallMem
  inferInstanceAs (Decidable (_ → _ ∧ _))

namespace Iteration

variable (it : Iteration)

/-- A path with the variable at its beginning replaced by the path of the element. A dot behind the
variable goes, too, if nothing follows on it. -/
def located (w : Text) : Text :=
  if (Context.segments w).head? = some it.header.variableName then
    let rest := w.drop it.header.variableName.length
    it.element ++ if rest = ['.'] then [] else rest
  else w

variable {it}

/-! ## Identifiers -/

theorem located_of_leads {u : Text} (hv : '.' ∉ it.header.variableName) (hu : u ≠ []) :
    it.located (it.header.variableName ++ '.' :: u) = it.element ++ '.' :: u := by
  have hhead := (Context.head?_segments_eq_iff hv).2 (.inr ⟨u, rfl⟩)
  rw [located, if_pos hhead]
  simp [hu]

/-- A path without the variable further behind is resolved to its place. -/
theorem resolved_eq_located (hv : '.' ∉ it.header.variableName) {w : Text}
    (h : it.header.variableName ∉ Context.laterSegments w) : it.resolved w = it.located w := by
  by_cases hlead : (Context.segments w).head? = some it.header.variableName
  · rcases (Context.head?_segments_eq_iff hv).1 hlead with rfl | ⟨u, rfl⟩
    · have hs : Context.segments it.header.variableName = it.header.variableName :: [] :=
        Text.splitOn_of_not_mem hv
      rw [resolved_of_leads hs (by simp), located, if_pos hlead]
      simp
    · by_cases hu : u = []
      · subst hu
        rw [located, if_pos hlead]
        simp [resolved, resolve?, Text.splitOn_append, Text.splitOn_of_not_mem hv, Text.join,
          element]
      · have hs : Context.segments (it.header.variableName ++ '.' :: u) =
            it.header.variableName :: Text.splitOn '.' u := by
          rw [Context.segments, Text.splitOn_append, Text.splitOn_of_not_mem hv]
          rfl
        have hjoin : Text.join ['.'] (Text.splitOn '.' u) = u := Text.join_splitOn u
        have hne : Text.splitOn '.' u ≠ [[]] := fun e => hu (by
          rw [← hjoin, e]
          rfl)
        rw [resolved_of_leads hs hne, if_neg (Text.splitOn_ne_nil '.' u), hjoin,
          located_of_leads hv hu]
  · rw [located, if_neg hlead, resolved_eq_self fun hm => ?_]
    obtain ⟨root, rest, hs, hl⟩ := Context.exists_segments w
    rw [hs] at hm hlead
    rcases List.mem_cons.1 hm with rfl | hm
    · exact hlead rfl
    · exact h (by rw [hl]; exact hm)

theorem stretched_eq_located (hv : it.header.variableName.IsIdentifier) {p : Text}
    (h : startsPath p = true → it.header.variableName ∉ Context.laterSegments p) :
    it.stretched p = it.located p := by
  unfold stretched
  split
  · next hs => exact resolved_eq_located hv.dotless (h hs)
  · next hs => rw [located, if_neg fun hlead => hs (Context.startsPath_of_head? hv hlead)]

theorem hyphen_not_mem_variable (hv : it.header.variableName.IsIdentifier) :
    '-' ∉ it.header.variableName := fun hm =>
  absurd ((LoopHeader.isPath_iff.1 hv.isPath).2 _ hm) (by decide)

/-- What stands behind a hyphen stays behind the place of a path. -/
theorem located_append_hyphen (hv : it.header.variableName.IsIdentifier) {p : Text}
    (h : startsPath p = true → Context.OnlyLeads it.header.variableName p ∧
      p ≠ it.header.variableName) (r : Text) :
    it.located (p ++ '-' :: r) = it.located p ++ '-' :: r := by
  have hhyphen := hyphen_not_mem_variable hv
  by_cases hlead : (Context.segments p).head? = some it.header.variableName
  · obtain ⟨honly, hne⟩ := h (Context.startsPath_of_head? hv hlead)
    rcases (Context.head?_segments_eq_iff hv.dotless).1 hlead with rfl | ⟨u, rfl⟩
    · exact absurd rfl hne
    · have hu : u ≠ [] := fun e => honly.not_dotted (by rw [e])
      rw [located_of_leads hv.dotless hu, List.append_assoc, List.cons_append,
        located_of_leads hv.dotless (by simp), List.append_assoc]
      rfl
  · have hlead' : (Context.segments (p ++ '-' :: r)).head? ≠ some it.header.variableName := by
      rw [Ne, Context.head?_segments_eq_iff hv.dotless]
      rintro (heq | ⟨u, heq⟩)
      · exact hhyphen (by rw [← heq]; simp)
      · -- the hyphen stands behind the variable and its dot
        rcases List.append_eq_append_iff.1 heq with ⟨x, hx, hr⟩ | ⟨x, hx, hr⟩
        · cases x with
          | nil => exact absurd (List.cons.inj hr).1 (by decide)
          | cons d x =>
            obtain ⟨rfl, -⟩ := List.cons.inj hr
            exact hhyphen (by rw [hx]; simp)
        · cases x with
          | nil => exact absurd (List.cons.inj hr).1 (by decide)
          | cons d x =>
            obtain ⟨rfl, -⟩ := List.cons.inj hr
            exact hlead ((Context.head?_segments_eq_iff hv.dotless).2 (.inr ⟨x, hx⟩))
    rw [located, if_neg hlead', located, if_neg hlead]

theorem located_ne_nil {w : Text} (hw : w ≠ []) : it.located w ≠ [] := by
  unfold located
  split
  · simp [element]
  · exact hw

theorem located_isWordPart (hc : ∀ c ∈ it.header.collection, isPathPart c = true)
    (hk : ∀ c ∈ it.key, isWordPart c = true) {w : Text}
    (hw : ∀ c ∈ w, isWordPart c = true) : ∀ c ∈ it.located w, isWordPart c = true := by
  unfold located
  split
  · intro c hm
    rcases List.mem_append.1 hm with hm | hm
    · rcases List.mem_append.1 hm with hm | hm
      · exact isWordPart_of_isPathPart (hc c hm)
      · rcases List.mem_cons.1 hm with rfl | hm
        · decide
        · exact hk c hm
    · split at hm
      · cases hm
      · exact hw c (List.mem_of_mem_drop hm)
  · exact hw

/-- The place of an identifier is an identifier, unless the collection is a number. -/
theorem classify_located (hc : ∀ c ∈ it.header.collection, isPathPart c = true)
    (hne : it.header.collection ≠ []) (hd : Numeral.isDigits it.header.collection = false)
    {w : Text} (hw : classify w = .identifier w) :
    classify (it.located w) = .identifier (it.located w) := by
  unfold located
  split
  · simp only [element, List.append_assoc, List.cons_append]
    exact classify_path hc hne (.inl hd)
  · exact hw

/-! ## Reading a word -/

/-- A word is resolved between its hyphens. -/
theorem resolveFrom_join {ps : List Text} {t : Text} {c : Char} (hne : ps ≠ [])
    (hps : ∀ p ∈ ps, ∀ x ∈ p, isPathPart x = true) (hc : isPathPart c = false) :
    it.resolveFrom (.plain false) (Text.join ['-'] ps ++ c :: t) =
      Text.join ['-'] (ps.map it.stretched) ++ it.resolveFrom (.plain false) (c :: t) := by
  induction ps with
  | nil => exact absurd rfl hne
  | cons p ps ih =>
    have hp : ∀ x ∈ p, isPathPart x = true := hps p (List.mem_cons_self ..)
    by_cases hnil : ps = []
    · subst hnil
      exact resolveFrom_stretch hp hc
    · have hhyphen : ∀ u, it.resolveFrom (.plain false) ('-' :: u) =
          '-' :: it.resolveFrom (.plain false) u := fun u =>
        resolveFrom_separators (s := ['-']) (fun c hc => by
          rw [List.mem_singleton.1 hc]
          exact ⟨by decide, by decide⟩) u
      rw [List.map_cons, Text.join_cons hnil, Text.join_cons (by simpa using hnil),
        List.append_assoc, List.cons_append, resolveFrom_stretch hp (by decide), hhyphen,
        ih hnil fun q hq => hps q (List.mem_cons_of_mem p hq), List.append_assoc]
      rfl

theorem resolveFrom_parts {w t : Text} {c : Char} (hw : ∀ x ∈ w, isWordPart x = true)
    (hc : isWordPart c = false) :
    it.resolveFrom (.plain false) (w ++ c :: t) =
      Text.join ['-'] ((Text.splitOn '-' w).map it.stretched) ++
        it.resolveFrom (.plain false) (c :: t) := by
  have hpath : isPathPart c = false := Bool.eq_false_iff.2 fun h => by
    rw [isWordPart_of_isPathPart h] at hc
    cases hc
  rw [← resolveFrom_join (Text.splitOn_ne_nil '-' w)
    (fun p => Text.isPathPart_of_mem_splitOn hw) hpath, Text.join_splitOn]

/-- **An identifier** is taken to its place. -/
theorem resolveFrom_identifier (hv : it.header.variableName.IsIdentifier) {w t : Text} {c : Char}
    (hw : ∀ x ∈ w, isWordPart x = true) (hl : it.header.variableName ∉ Context.laterSegments w)
    (hapart : HyphensApart it.header.variableName w) (hc : isWordPart c = false) :
    it.resolveFrom (.plain false) (w ++ c :: t) =
      it.located w ++ it.resolveFrom (.plain false) (c :: t) := by
  rw [resolveFrom_parts hw hc]
  congr 1
  by_cases hm : '-' ∈ w
  · obtain ⟨hfirst, hbehind⟩ := hapart hm
    obtain ⟨p, ps, hsplit⟩ := List.exists_cons_of_ne_nil (Text.splitOn_ne_nil '-' w)
    rw [hsplit] at hfirst hbehind ⊢
    have hself : ps.map it.stretched = ps :=
      (List.map_congr_left fun q hq => stretched_eq_self (hbehind q hq)).trans (List.map_id' ps)
    have hp := hfirst p rfl
    rcases Text.eq_of_splitOn_cons hsplit with ⟨-, rfl⟩ | ⟨hne, hw'⟩
    · exact absurd hm (Text.not_mem_of_mem_splitOn (by rw [hsplit]; simp))
    · have hplace := stretched_eq_located hv fun hs => (hp hs).1.not_later
      rw [List.map_cons, hself, Text.join_cons hne, hplace, hw', located_append_hyphen hv hp]
  · rw [Text.splitOn_of_not_mem hm]
    exact stretched_eq_located hv fun _ => hl

/-- **A word that is no identifier** stays. -/
theorem resolveFrom_other
    (hv : classify it.header.variableName = .identifier it.header.variableName) {w t : Text}
    {c : Char} (hw : ∀ x ∈ w, isWordPart x = true) (hother : ∀ q, classify w ≠ .identifier q)
    (hc : isWordPart c = false) :
    it.resolveFrom (.plain false) (w ++ c :: t) = w ++ it.resolveFrom (.plain false) (c :: t) := by
  have hself : ∀ p ∈ Text.splitOn '-' w, it.stretched p = p := fun p hp =>
    stretched_eq_self fun hs hm => by
      obtain ⟨hdot, hp'⟩ := not_identifier_of_mem_splitOn hother hp hs
      rw [Context.segments, Text.splitOn_of_not_mem hdot, List.mem_singleton] at hm
      exact hp' _ (hm ▸ hv)
  rw [resolveFrom_parts hw hc, List.map_congr_left hself, List.map_id', Text.join_splitOn]

end Iteration

end Stencil
