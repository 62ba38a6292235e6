import Stencil.Context
import Stencil.Proofs.Expansion.Renaming
import Stencil.Proofs.Text.Split

/-!
# Resolving the paths of a tag

A tag holds paths, outside its quotes; an iteration resolves each of them. As long as the variable
is not a later segment of a path, which is where the text of an element would be spliced in, what
becomes of the tag is a renaming of words (`renames_resolveTag`): a path that begins with the
variable becomes one into the collection, and any other stays. The paths of the resolved tag are
resolved paths of the tag (`exists_of_mem_paths_resolveTag`), so that what is known of their
later segments stays known.
-/

namespace Stencil

/-! ## The paths of a tag -/

/-- The paths read in the rest of a tag. -/
def Tag.pathsFrom : Iteration.Reading → Text → List Text
  | .plain _, [] => []
  | .quoted _, [] => []
  | .path reversed, [] => [reversed.reverse]
  | .quoted quote, c :: cs =>
    pathsFrom (if c = quote then .plain (isPathPart c) else .quoted quote) cs
  | .plain joined, c :: cs =>
    if c == '"' || c == '\'' then pathsFrom (.quoted c) cs
    else if isPathStart c && !joined then pathsFrom (.path [c]) cs
    else pathsFrom (.plain (isPathPart c)) cs
  | .path reversed, c :: cs =>
    if isPathPart c then pathsFrom (.path (c :: reversed)) cs
    else if c == '"' || c == '\'' then reversed.reverse :: pathsFrom (.quoted c) cs
    else reversed.reverse :: pathsFrom (.plain false) cs

theorem LoopHeader.isPath_iff {w : Text} :
    isPath w = true ↔ w ≠ [] ∧ ∀ c ∈ w, isPathPart c = true := by
  simp [isPath]

/-- The paths of a tag. -/
def Tag.paths (tag : Tag) : List Text := Tag.pathsFrom (.plain false) tag.source

/-- The segments of a path after the first one. -/
def Context.laterSegments (path : Text) : List Text := (Context.segments path).tail

namespace Iteration

variable (it : Iteration)

/-- The path of the current element. -/
def element : Text := it.header.collection ++ '.' :: it.key

/-- The iteration resolves paths into a collection by a key that is one segment, and its variable
begins no tag. -/
structure IsProper : Prop where
  variable_not_keyword : it.header.variableName ∉ tagKeywords
  collection_isPathPart : ∀ c ∈ it.header.collection, isPathPart c = true
  key_isPathPart : ∀ c ∈ it.key, isPathPart c = true
  key_dotless : '.' ∉ it.key

/-! ## What a path becomes -/

theorem replaceFirst?_eq_none {name replacement : Text} {segments : List Text}
    (h : name ∉ segments) : replaceFirst? name replacement segments = none := by
  induction segments with
  | nil => rfl
  | cons s rest ih =>
    have hs : s ≠ name := fun e => h (by simp [e])
    have hrest : name ∉ rest := fun hm => h (by simp [hm])
    simp [replaceFirst?, hs, ih hrest]

variable {it}

/-- A path that begins with the variable becomes one into the collection. -/
theorem resolved_of_head {path : Text} {rest : List Text}
    (h : Text.splitOn '.' path = it.header.variableName :: rest) :
    it.resolved path = it.element ∨
      it.resolved path = it.element ++ '.' :: Text.join ['.'] rest ∧ rest ≠ [] := by
  unfold resolved resolve?
  simp only [h]
  rw [if_pos trivial]
  by_cases he : (Text.join ['.'] rest).isEmpty
  · exact .inl (by simp [he, element])
  · refine .inr ⟨by simp [he, element], ?_⟩
    rintro rfl
    exact he rfl

/-- A path that does not splice in the element either stays or becomes a path into the
collection. -/
theorem resolved_cases {path : Text}
    (h : it.header.variableName ∉ Context.laterSegments path) :
    it.resolved path = path ∨
      ∃ rest, Text.splitOn '.' path = it.header.variableName :: rest ∧
        (it.resolved path = it.element ∨
          it.resolved path = it.element ++ '.' :: Text.join ['.'] rest ∧ rest ≠ []) := by
  obtain ⟨first, rest, hsplit⟩ :=
    List.exists_cons_of_ne_nil (Text.splitOn_ne_nil '.' path)
  by_cases hv : first = it.header.variableName
  · exact .inr ⟨rest, hv ▸ hsplit, resolved_of_head (hv ▸ hsplit)⟩
  · left
    have hrest : it.header.variableName ∉ rest := by
      simpa [Context.laterSegments, Context.segments, hsplit] using h
    unfold resolved resolve?
    simp only [hsplit]
    rw [if_neg hv, replaceFirst?_eq_none hrest]
    rfl

theorem splitOn_element (hit : it.IsProper) :
    Text.splitOn '.' it.element = Text.splitOn '.' it.header.collection ++ [it.key] := by
  rw [element, Text.splitOn_append, Text.splitOn_of_not_mem hit.key_dotless]

theorem dot_mem_element : '.' ∈ it.element := by simp [element]

theorem element_isPathPart (hc : ∀ c ∈ it.header.collection, isPathPart c = true)
    (hk : ∀ c ∈ it.key, isPathPart c = true) : ∀ c ∈ it.element, isPathPart c = true := by
  intro c hm
  rcases List.mem_append.1 hm with hm | hm
  · exact hc c hm
  · rcases List.mem_cons.1 hm with rfl | hm
    · decide
    · exact hk c hm

theorem resolved_isPathPart_of_head (hc : ∀ c ∈ it.header.collection, isPathPart c = true)
    (hk : ∀ c ∈ it.key, isPathPart c = true) {path : Text} {rest : List Text}
    (h : Text.splitOn '.' path = it.header.variableName :: rest)
    (hpart : ∀ c ∈ path, isPathPart c = true) : ∀ c ∈ it.resolved path, isPathPart c = true := by
  rcases resolved_of_head h with hres | ⟨hres, hrest⟩ <;> rw [hres]
  · exact element_isPathPart hc hk
  · intro c hm
    rcases List.mem_append.1 hm with hm | hm
    · exact element_isPathPart hc hk c hm
    · rcases Text.eq_of_splitOn_cons h with ⟨rfl, -⟩ | ⟨-, hp⟩
      · exact absurd rfl hrest
      · exact hpart c (by rw [hp]; exact List.mem_append_right _ hm)

/-- The relation between a word of a line and the word that takes its place. -/
def Resolves (it : Iteration) (w w' : Text) : Prop :=
  w' = it.resolved w ∧ '.' ∈ w' ∧ (Text.splitOn '.' w).head? = some it.header.variableName

theorem isWord_of_dot {w : Text} (hw : ∀ c ∈ w, isPathPart c = true) (hd : '.' ∈ w) :
    IsWord w where
  ne_nil := List.ne_nil_of_mem hd
  isPathPart := hw
  not_keyword h := dot_not_mem_keyword (isKeyword_of_mem h) hd

/-- **A path stays, or a word takes the place of a word.** -/
theorem resolves_or_eq (hit : it.IsProper) {path : Text} (hne : path ≠ [])
    (hpart : ∀ c ∈ path, isPathPart c = true)
    (h : it.header.variableName ∉ Context.laterSegments path) :
    it.resolved path = path ∨
      (Resolves it path (it.resolved path) ∧ IsWord path ∧ IsWord (it.resolved path)) := by
  rcases resolved_cases h with heq | ⟨rest, hsplit, hres⟩
  · exact .inl heq
  right
  have hword : IsWord path := by
    refine ⟨hne, hpart, fun hk => hit.variable_not_keyword ?_⟩
    have := Text.splitOn_of_not_mem (dot_not_mem_keyword (isKeyword_of_mem hk))
    rw [this] at hsplit
    obtain rfl := (List.cons.inj hsplit).1
    exact hk
  have hdot : '.' ∈ it.resolved path := by
    rcases hres with hres | ⟨hres, -⟩ <;> rw [hres]
    · exact dot_mem_element
    · exact List.mem_append_left _ dot_mem_element
  have hpart' : ∀ c ∈ it.resolved path, isPathPart c = true :=
    resolved_isPathPart_of_head hit.collection_isPathPart hit.key_isPathPart hsplit hpart
  exact ⟨⟨rfl, hdot, by rw [hsplit]; rfl⟩, hword, isWord_of_dot hpart' hdot⟩

/-- The later segments of a resolved path come from the path, from the collection or from the
key. -/
theorem mem_laterSegments_resolved (hit : it.IsProper) {path s : Text}
    (h : it.header.variableName ∉ Context.laterSegments path)
    (hs : s ∈ Context.laterSegments (it.resolved path)) :
    s ∈ Context.laterSegments path ∨
      s ∈ Context.laterSegments it.header.collection ∧ it.resolved path ≠ path ∨ s = it.key := by
  by_cases heq : it.resolved path = path
  · rw [heq] at hs
    exact .inl hs
  rcases resolved_cases h with heq' | ⟨rest, hsplit, hres⟩
  · exact absurd heq' heq
  have hin : s ∈ Context.laterSegments it.header.collection ∨ s = it.key ∨ s ∈ rest := by
    obtain ⟨c, cs, hc⟩ :=
      List.exists_cons_of_ne_nil (Text.splitOn_ne_nil '.' it.header.collection)
    unfold Context.laterSegments Context.segments at hs ⊢
    rcases hres with hres | ⟨hres, hrest⟩ <;> rw [hres] at hs
    · rw [splitOn_element hit, hc] at hs
      rw [hc]
      have hs : s ∈ cs ∨ s = it.key := by simpa using hs
      exact hs.imp_right .inl
    · have hdotless : ∀ w ∈ rest, '.' ∉ w := fun w hw =>
        Text.not_mem_of_mem_splitOn (t := path) (by rw [hsplit]; simp [hw])
      rw [Text.splitOn_append, splitOn_element hit, Text.splitOn_join hrest hdotless, hc] at hs
      rw [hc]
      simpa [or_assoc] using hs
  rcases hin with hin | hin | hin
  · exact .inr (.inl ⟨hin, heq⟩)
  · exact .inr (.inr hin)
  · exact .inl (by simpa [Context.laterSegments, Context.segments, hsplit] using hin)

/-! ## Reading a tag -/

theorem isPathPart_of_quote {c : Char} (h : (c == '"' || c == '\'') = true) :
    isPathPart c = false := by
  rcases Bool.or_eq_true_iff.1 h with h | h <;> rw [eq_of_beq h] <;> decide

theorem not_quote_of_isPathPart {c : Char} (h : isPathPart c = true) :
    ¬ (c == '"' || c == '\'') = true :=
  fun hq => absurd h (by simp [isPathPart_of_quote hq])

theorem not_isPathStart {c : Char} (h : isPathPart c = false) (joined : Bool) :
    ¬ (isPathStart c && !joined) = true := fun hs =>
  absurd (isPathPart_of_isPathStart (Bool.and_eq_true_iff.1 hs).1) (by simp [h])

/-- Whether the reader is inside a path at the character, or one begins with it. -/
def Reading.takes : Reading → Char → Bool
  | .plain joined, c => isPathStart c && !joined
  | .quoted _, _ => false
  | .path _, _ => true

/-- Where the reader stands behind a character that is in no path. -/
def Reading.behind : Reading → Char → Reading
  | .quoted quote, c => if c = quote then .plain (isPathPart c) else .quoted quote
  | .plain _, c | .path _, c =>
    if c == '"' || c == '\'' then .quoted c else .plain (isPathPart c)

theorem Reading.takes_plain {c : Char} (h : isPathPart c = false) (joined : Bool) :
    (Reading.plain joined).takes c = false :=
  Bool.eq_false_iff.2 (not_isPathStart h joined)

theorem Reading.joined_of_behind {mode : Reading} {c : Char} {joined : Bool}
    (h : mode.behind c = .plain joined) : joined = isPathPart c := by
  unfold Reading.behind at h
  split at h <;> split at h <;> cases h <;> rfl

theorem Reading.behind_ne_path {mode : Reading} {c : Char} {reversed : Text} :
    mode.behind c ≠ .path reversed := by
  unfold Reading.behind
  split <;> split <;> exact Reading.noConfusion

theorem pathsFrom_pass {mode : Reading} {c : Char} (h : mode.takes c = false) (cs : Text) :
    Tag.pathsFrom mode (c :: cs) = Tag.pathsFrom (mode.behind c) cs := by
  cases mode with
  | plain joined =>
    rw [Tag.pathsFrom, Reading.behind]
    split
    · rfl
    · rw [if_neg (by simpa [Reading.takes] using h)]
  | quoted quote => rfl
  | path reversed => cases h

theorem resolveFrom_pass {mode : Reading} {c : Char} (h : mode.takes c = false) (cs : Text) :
    it.resolveFrom mode (c :: cs) = c :: it.resolveFrom (mode.behind c) cs := by
  cases mode with
  | plain joined =>
    rw [resolveFrom, Reading.behind]
    split
    · rfl
    · rw [if_neg (by simpa [Reading.takes] using h)]
  | quoted quote => rfl
  | path reversed => cases h

theorem pathsFrom_start {joined : Bool} {c : Char} (h : (Reading.plain joined).takes c = true)
    (cs : Text) : Tag.pathsFrom (.plain joined) (c :: cs) = Tag.pathsFrom (.path [c]) cs := by
  have hc := isPathPart_of_isPathStart (Bool.and_eq_true_iff.1 h).1
  rw [Tag.pathsFrom, if_neg (not_quote_of_isPathPart hc)]
  exact if_pos h

theorem resolveFrom_start {joined : Bool} {c : Char} (h : (Reading.plain joined).takes c = true)
    (cs : Text) : it.resolveFrom (.plain joined) (c :: cs) = it.resolveFrom (.path [c]) cs := by
  have hc := isPathPart_of_isPathStart (Bool.and_eq_true_iff.1 h).1
  rw [resolveFrom, if_neg (not_quote_of_isPathPart hc)]
  exact if_pos h

theorem pathsFrom_part {c : Char} (h : isPathPart c = true) (reversed cs : Text) :
    Tag.pathsFrom (.path reversed) (c :: cs) = Tag.pathsFrom (.path (c :: reversed)) cs := by
  rw [Tag.pathsFrom, if_pos h]

theorem resolveFrom_part {c : Char} (h : isPathPart c = true) (reversed cs : Text) :
    it.resolveFrom (.path reversed) (c :: cs) = it.resolveFrom (.path (c :: reversed)) cs := by
  rw [resolveFrom, if_pos h]

/-- A path ends before a character that is no part of one. -/
theorem pathsFrom_end {c : Char} (h : isPathPart c = false) (reversed cs : Text) :
    Tag.pathsFrom (.path reversed) (c :: cs) =
      reversed.reverse :: Tag.pathsFrom (.plain false) (c :: cs) := by
  rw [Tag.pathsFrom, Tag.pathsFrom, if_neg (by simp [h]), if_neg (not_isPathStart h false), h]
  split <;> rfl

theorem resolveFrom_end {c : Char} (h : isPathPart c = false) (reversed cs : Text) :
    it.resolveFrom (.path reversed) (c :: cs) =
      it.resolved reversed.reverse ++ it.resolveFrom (.plain false) (c :: cs) := by
  rw [resolveFrom, resolveFrom, if_neg (by simp [h]), if_neg (not_isPathStart h false), h]
  split <;> rfl

/-! ## What a tag becomes -/

/-- A text that does not end inside a word. -/
def EndsOutside (t : Text) : Prop := ∀ c ∈ t.getLast?, isPathPart c = false

theorem EndsOutside.tail {c : Char} {cs : Text} (h : EndsOutside (c :: cs)) : EndsOutside cs := by
  intro d hd
  cases cs with
  | nil => cases hd
  | cons e es => exact h d (by simpa using hd)

theorem EndsOutside.ne_nil {c : Char} {cs : Text} (h : EndsOutside (c :: cs))
    (hc : isPathPart c = true) : cs ≠ [] := by
  rintro rfl
  exact absurd (h c (by simp)) (by simp [hc])

/-- **Resolving a tag** takes its characters one by one and its paths as a whole: a relation between
texts that holds step by step holds of the tag and what it becomes. The reader is outside quotes,
inside quotes or inside a path. -/
theorem resolveFrom_induction {R : Reading → Bool → Text → Text → Prop} {P : Text → Prop}
    (nil : ∀ mode joined, Tag.pathsFrom mode [] = [] → R mode joined [] [])
    (char : ∀ mode joined c t t', mode.takes c = false → R (mode.behind c) (isPathPart c) t t' →
      R mode joined (c :: t) (c :: t'))
    (path : ∀ w c t t', w ≠ [] → (∀ x ∈ w, isPathPart x = true) →
      (∀ x ∈ w.head?, isPathStart x = true) → isPathPart c = false → P w →
      (∀ joined, R (.plain false) joined (c :: t) (c :: t')) →
      R (.plain false) false (w ++ c :: t) (it.resolved w ++ c :: t'))
    (cs : Text) :
    (∀ joined, EndsOutside cs → (∀ p ∈ Tag.pathsFrom (.plain joined) cs, P p) →
      R (.plain joined) joined cs (it.resolveFrom (.plain joined) cs)) ∧
    (∀ quote joined, EndsOutside cs → (∀ p ∈ Tag.pathsFrom (.quoted quote) cs, P p) →
      R (.quoted quote) joined cs (it.resolveFrom (.quoted quote) cs)) ∧
    (∀ reversed, EndsOutside cs → cs ≠ [] → reversed ≠ [] →
      (∀ c ∈ reversed, isPathPart c = true) →
      (∀ c ∈ reversed.getLast?, isPathStart c = true) →
      (∀ p ∈ Tag.pathsFrom (.path reversed) cs, P p) →
      R (.plain false) false (reversed.reverse ++ cs) (it.resolveFrom (.path reversed) cs)) := by
  induction cs with
  | nil => exact ⟨fun _ _ _ => nil _ _ rfl, fun _ _ _ _ => nil _ _ rfl, fun _ _ h => absurd rfl h⟩
  | cons c cs ih =>
    obtain ⟨ihp, ihq, ihw⟩ := ih
    -- a character outside paths leads outside paths
    have pass : ∀ mode joined, EndsOutside (c :: cs) → mode.takes c = false →
        (∀ p ∈ Tag.pathsFrom mode (c :: cs), P p) →
        R mode joined (c :: cs) (c :: it.resolveFrom (mode.behind c) cs) := by
      intro mode joined he ht hv
      rw [pathsFrom_pass ht] at hv
      refine char _ _ _ _ _ ht ?_
      cases hmode : mode.behind c with
      | plain joined' =>
        obtain rfl : joined' = isPathPart c := Reading.joined_of_behind hmode
        exact ihp _ he.tail (hmode ▸ hv)
      | quoted quote => exact ihq quote _ he.tail (hmode ▸ hv)
      | path reversed => exact absurd hmode Reading.behind_ne_path
    refine ⟨?_, ?_, ?_⟩
    · intro joined he hv
      cases ht : (Reading.plain joined).takes c with
      | false =>
        rw [resolveFrom_pass ht]
        exact pass _ _ he ht hv
      | true =>
        obtain ⟨hstart, hjoined⟩ := Bool.and_eq_true_iff.1 ht
        obtain rfl : joined = false := by simpa using hjoined
        have hc : isPathPart c = true := isPathPart_of_isPathStart hstart
        rw [pathsFrom_start ht] at hv
        rw [resolveFrom_start ht]
        simpa using ihw [c] he.tail (he.ne_nil hc) (by simp) (by simpa using hc)
          (by simpa using hstart) hv
    · intro quote joined he hv
      exact pass _ _ he rfl hv
    · intro reversed he _ hne hpart hstart hv
      cases hc : isPathPart c with
      | true =>
        have hpartc : ∀ x ∈ c :: reversed, isPathPart x = true := by
          intro x hx
          rcases List.mem_cons.1 hx with rfl | hx
          · exact hc
          · exact hpart x hx
        have hlast : (c :: reversed).getLast? = reversed.getLast? := by
          obtain ⟨d, ds, rfl⟩ := List.exists_cons_of_ne_nil hne
          rfl
        rw [pathsFrom_part hc] at hv
        rw [resolveFrom_part hc]
        simpa using ihw (c :: reversed) he.tail (he.ne_nil hc) (by simp) hpartc
          (by rwa [hlast]) hv
      | false =>
        have ht := Reading.takes_plain hc false
        rw [pathsFrom_end hc] at hv
        rw [resolveFrom_end hc, resolveFrom_pass ht]
        exact path _ _ _ _ (by simpa using hne) (by simpa using hpart) (by simpa using hstart) hc
          (hv _ (by simp)) fun joined => pass _ joined he ht fun p hp => hv p (by simp [hp])

theorem renames_resolved (hit : it.IsProper) {path : Text} (hne : path ≠ [])
    (hpart : ∀ c ∈ path, isPathPart c = true)
    (h : it.header.variableName ∉ Context.laterSegments path) {c : Char} {t t' : Text}
    (hc : isPathPart c = false) (ht : ∀ joined, Renames (Resolves it) joined (c :: t) (c :: t')) :
    Renames (Resolves it) false (path ++ c :: t) (it.resolved path ++ c :: t') := by
  rcases resolves_or_eq hit hne hpart h with heq | ⟨hq, hw, hw'⟩
  · rw [heq]
    exact (Renames.refl _ _ path).append ht
  · exact .word hq hw hw' hc (ht false)

/-- **A tag changes in words only**, if the variable is no later segment of its paths. -/
theorem renames_resolveTag (hit : it.IsProper) (tag : Tag) (he : EndsOutside tag.source)
    (h : ∀ p ∈ tag.paths, it.header.variableName ∉ Context.laterSegments p) :
    Renames (Resolves it) false tag.source (it.resolveTag tag.source) :=
  (resolveFrom_induction (R := fun _ => Renames (Resolves it)) (fun _ _ _ => .nil)
    (fun _ _ _ _ _ _ ht => .char ht)
    (fun _ _ _ _ hne hpart _ hc hp ht => renames_resolved hit hne hpart hp hc ht)
    tag.source).1 false he h

/-! ## The paths of a resolved tag -/

/-- The character neither belongs to a path nor is a quote. -/
def Separates (c : Char) : Prop := isPathPart c = false ∧ ¬ (c == '"' || c == '\'') = true

instance : DecidablePred Separates := fun _ => inferInstanceAs (Decidable (_ ∧ _))

theorem separates_of_isBlank {b : Text} (hb : b.all isBlank) : ∀ c ∈ b, Separates c := by
  intro c hc
  obtain ⟨hp, -, -, -, -, -, hd, hs⟩ := blank_separates (List.all_eq_true.1 hb c hc)
  exact ⟨hp, by simp [hd, hs]⟩

theorem separates_append {s t : Text} (hs : ∀ c ∈ s, Separates c) (ht : ∀ c ∈ t, Separates c) :
    ∀ c ∈ s ++ t, Separates c := fun c hc =>
  (List.mem_append.1 hc).elim (hs c) (ht c)

theorem pathsFrom_separators {s : Text} (hs : ∀ c ∈ s, Separates c) (t : Text) :
    Tag.pathsFrom (.plain false) (s ++ t) = Tag.pathsFrom (.plain false) t := by
  induction s with
  | nil => rfl
  | cons c s ih =>
    obtain ⟨hc, hq⟩ := hs c (by simp)
    rw [List.cons_append, Tag.pathsFrom, if_neg hq, if_neg (not_isPathStart hc false), hc,
      ih fun d hd => hs d (List.mem_cons_of_mem c hd)]

theorem resolveFrom_separators {s : Text} (hs : ∀ c ∈ s, Separates c) (t : Text) :
    it.resolveFrom (.plain false) (s ++ t) = s ++ it.resolveFrom (.plain false) t := by
  induction s with
  | nil => rfl
  | cons c s ih =>
    obtain ⟨hc, hq⟩ := hs c (by simp)
    rw [List.cons_append, resolveFrom, if_neg hq, if_neg (not_isPathStart hc false), hc,
      ih fun d hd => hs d (List.mem_cons_of_mem c hd)]
    rfl

/-- Behind a word, it does not matter whether the word is a path. -/
theorem pathsFrom_plain_eq {t : Text} {c : Char} (hc : isPathPart c = false) (joined : Bool) :
    Tag.pathsFrom (.plain joined) (c :: t) = Tag.pathsFrom (.plain false) (c :: t) := by
  rw [Tag.pathsFrom, Tag.pathsFrom, if_neg (not_isPathStart hc joined),
    if_neg (not_isPathStart hc false)]

theorem resolveFrom_plain_eq {t : Text} {c : Char} (hc : isPathPart c = false) (joined : Bool) :
    it.resolveFrom (.plain joined) (c :: t) = it.resolveFrom (.plain false) (c :: t) := by
  rw [resolveFrom, resolveFrom, if_neg (not_isPathStart hc joined),
    if_neg (not_isPathStart hc false)]

theorem pathsFrom_path {w t : Text} {c : Char} (hw : ∀ x ∈ w, isPathPart x = true)
    (hc : isPathPart c = false) (reversed : Text) :
    Tag.pathsFrom (.path reversed) (w ++ c :: t) =
      (reversed.reverse ++ w) :: Tag.pathsFrom (.plain false) (c :: t) := by
  induction w generalizing reversed with
  | nil =>
    rw [List.nil_append, pathsFrom_end hc, List.append_nil]
  | cons y w ih =>
    rw [List.cons_append, pathsFrom_part (hw y (by simp)), ih fun x hx => hw x (by simp [hx])]
    simp

theorem pathsFrom_joined {w t : Text} {c : Char} (hw : ∀ x ∈ w, isPathPart x = true)
    (hc : isPathPart c = false) :
    Tag.pathsFrom (.plain true) (w ++ c :: t) = Tag.pathsFrom (.plain false) (c :: t) := by
  induction w with
  | nil => exact pathsFrom_plain_eq hc true
  | cons y w ih =>
    have hy := hw y (by simp)
    have hstep : Tag.pathsFrom (.plain true) (y :: (w ++ c :: t)) =
        Tag.pathsFrom (.plain true) (w ++ c :: t) := by
      rw [Tag.pathsFrom, if_neg (not_quote_of_isPathPart hy), if_neg (by simp), hy]
    rw [List.cons_append, hstep, ih fun x hx => hw x (by simp [hx])]

theorem resolveFrom_path {w t : Text} {c : Char} (hw : ∀ x ∈ w, isPathPart x = true)
    (hc : isPathPart c = false) (reversed : Text) :
    it.resolveFrom (.path reversed) (w ++ c :: t) =
      it.resolved (reversed.reverse ++ w) ++ it.resolveFrom (.plain false) (c :: t) := by
  induction w generalizing reversed with
  | nil =>
    rw [List.nil_append, resolveFrom_end hc, List.append_nil]
  | cons y w ih =>
    rw [List.cons_append, resolveFrom_part (hw y (by simp)), ih fun x hx => hw x (by simp [hx])]
    simp

theorem resolveFrom_joined {w t : Text} {c : Char} (hw : ∀ x ∈ w, isPathPart x = true)
    (hc : isPathPart c = false) :
    it.resolveFrom (.plain true) (w ++ c :: t) = w ++ it.resolveFrom (.plain false) (c :: t) := by
  induction w with
  | nil =>
    rw [List.nil_append, resolveFrom, resolveFrom, if_neg (not_isPathStart hc true),
      if_neg (not_isPathStart hc false)]
    rfl
  | cons y w ih =>
    have hy := hw y (by simp)
    rw [List.cons_append, resolveFrom, if_neg (not_quote_of_isPathPart hy), if_neg (by simp), hy,
      ih fun x hx => hw x (by simp [hx])]
    rfl

variable (it) in
/-- What becomes of a stretch of characters of paths: what it becomes as a path, if it can begin
one. -/
def stretched (w : Text) : Text := if startsPath w then it.resolved w else w

/-- **A stretch of characters of paths** is read at once. -/
theorem resolveFrom_stretch {w t : Text} {c : Char} (hw : ∀ x ∈ w, isPathPart x = true)
    (hc : isPathPart c = false) :
    it.resolveFrom (.plain false) (w ++ c :: t) =
      it.stretched w ++ it.resolveFrom (.plain false) (c :: t) := by
  cases w with
  | nil => rfl
  | cons y w =>
    have hy := hw y (by simp)
    have hw' : ∀ x ∈ w, isPathPart x = true := fun x hx => hw x (List.mem_cons_of_mem y hx)
    have hstarts : startsPath (y :: w) = isPathStart y := rfl
    rw [List.cons_append, resolveFrom, if_neg (not_quote_of_isPathPart hy), stretched,
      hstarts]
    by_cases hs : isPathStart y = true
    · rw [if_pos (by simp [hs]), if_pos hs, resolveFrom_path hw' hc]
      rfl
    · rw [if_neg (by simp [hs]), if_neg hs, hy, resolveFrom_joined hw' hc]
      rfl

/-- A word is read as a path or not at all. -/
theorem mem_pathsFrom_word {w t : Text} {c : Char} (hw : ∀ x ∈ w, isPathPart x = true)
    (hc : isPathPart c = false) {p : Text}
    (hp : p ∈ Tag.pathsFrom (.plain false) (w ++ c :: t)) :
    p = w ∨ p ∈ Tag.pathsFrom (.plain false) (c :: t) := by
  cases w with
  | nil => exact .inr hp
  | cons y w =>
    have hw' : ∀ x ∈ w, isPathPart x = true := fun x hx => hw x (by simp [hx])
    rw [List.cons_append, Tag.pathsFrom, if_neg (not_quote_of_isPathPart (hw y (by simp)))] at hp
    split at hp
    · rw [pathsFrom_path hw' hc] at hp
      simpa using hp
    · rw [hw y (by simp), pathsFrom_joined hw' hc] at hp
      exact .inr hp

theorem resolved_isPathPart (hit : it.IsProper) {path : Text} (hne : path ≠ [])
    (hpart : ∀ c ∈ path, isPathPart c = true)
    (h : it.header.variableName ∉ Context.laterSegments path) :
    ∀ c ∈ it.resolved path, isPathPart c = true := by
  rcases resolves_or_eq hit hne hpart h with heq | ⟨-, -, hw⟩
  · rw [heq]
    exact hpart
  · exact hw.isPathPart

theorem exists_of_mem_pathsFrom_resolved (hit : it.IsProper) {w t t' : Text} {c : Char}
    (hne : w ≠ []) (hw : ∀ x ∈ w, isPathPart x = true)
    (hstart : ∀ x ∈ w.head?, isPathStart x = true)
    (hc : isPathPart c = false) (hl : it.header.variableName ∉ Context.laterSegments w)
    (ht : ∀ p ∈ Tag.pathsFrom (.plain false) (c :: t'),
      ∃ q ∈ Tag.pathsFrom (.plain false) (c :: t), p = it.resolved q) :
    ∀ p ∈ Tag.pathsFrom (.plain false) (it.resolved w ++ c :: t'),
      ∃ q ∈ Tag.pathsFrom (.plain false) (w ++ c :: t), p = it.resolved q := by
  intro p hp
  have hpaths : Tag.pathsFrom (.plain false) (w ++ c :: t) =
      w :: Tag.pathsFrom (.plain false) (c :: t) := by
    obtain ⟨d, w, rfl⟩ := List.exists_cons_of_ne_nil hne
    have hd : (Reading.plain false).takes d = true := by simpa [Reading.takes] using hstart
    rw [List.cons_append, pathsFrom_start hd,
      pathsFrom_path (fun x hx => hw x (List.mem_cons_of_mem d hx)) hc]
    rfl
  rw [hpaths]
  rcases mem_pathsFrom_word (resolved_isPathPart hit hne hw hl) hc hp with rfl | hp
  · exact ⟨w, by simp, rfl⟩
  · obtain ⟨q, hq, rfl⟩ := ht p hp
    exact ⟨q, by simp [hq], rfl⟩

/-- **The paths of a resolved tag** are resolved paths of the tag. -/
theorem exists_of_mem_paths_resolveTag (hit : it.IsProper) {cs : Text} (he : EndsOutside cs)
    (hv : ∀ p ∈ Tag.pathsFrom (.plain false) cs,
      it.header.variableName ∉ Context.laterSegments p) :
    ∀ p ∈ Tag.pathsFrom (.plain false) (it.resolveTag cs),
      ∃ q ∈ Tag.pathsFrom (.plain false) cs, p = it.resolved q :=
  (resolveFrom_induction
    (R := fun mode _ t t' => ∀ p ∈ Tag.pathsFrom mode t',
      ∃ q ∈ Tag.pathsFrom mode t, p = it.resolved q)
    (fun mode _ hnil p hp => absurd hp (by simp [hnil]))
    (fun mode _ c t t' hpass ht => by rwa [pathsFrom_pass hpass, pathsFrom_pass hpass])
    (fun _ _ _ _ hne hw hstart hc hl ht =>
      exists_of_mem_pathsFrom_resolved hit hne hw hstart hc hl (ht false))
    cs).1 false he hv

/-! ## Tags that stay -/

theorem resolved_eq_self {path : Text} (h : it.header.variableName ∉ Context.segments path) :
    it.resolved path = path := by
  rcases resolved_cases fun hm => h (List.mem_of_mem_tail hm) with heq | ⟨rest, hsplit, -⟩
  · exact heq
  · exact absurd (by simp [Context.segments, hsplit]) h

theorem stretched_eq_self {w : Text}
    (h : startsPath w = true → it.header.variableName ∉ Context.segments w) :
    it.stretched w = w := by
  unfold stretched
  split
  · next hs => exact resolved_eq_self (h hs)
  · rfl

/-- What has been read of a path that is still being read. -/
def Reading.pending : Reading → Text
  | .path reversed => reversed.reverse
  | _ => []

theorem Reading.pending_behind (mode : Reading) (c : Char) : (mode.behind c).pending = [] := by
  cases h : mode.behind c with
  | path reversed => exact absurd h behind_ne_path
  | _ => rfl

theorem resolveFrom_eq_self {cs : Text} {mode : Reading}
    (h : ∀ p ∈ Tag.pathsFrom mode cs, it.resolved p = p) :
    it.resolveFrom mode cs = mode.pending ++ cs := by
  induction cs generalizing mode with
  | nil =>
    cases mode with
    | path reversed => simpa [resolveFrom, Reading.pending] using h _ (by simp [Tag.pathsFrom])
    | _ => rfl
  | cons c cs ih =>
    have pass : ∀ {mode : Reading}, mode.takes c = false →
        (∀ p ∈ Tag.pathsFrom mode (c :: cs), it.resolved p = p) →
        it.resolveFrom mode (c :: cs) = c :: cs := by
      intro mode ht h
      rw [pathsFrom_pass ht] at h
      rw [resolveFrom_pass ht, ih h, Reading.pending_behind, List.nil_append]
    cases mode with
    | plain joined =>
      cases ht : (Reading.plain joined).takes c with
      | false => exact pass ht h
      | true =>
        rw [pathsFrom_start ht] at h
        rw [resolveFrom_start ht, ih h]
        rfl
    | quoted quote => exact pass rfl h
    | path reversed =>
      cases hc : isPathPart c with
      | true =>
        rw [pathsFrom_part hc] at h
        rw [resolveFrom_part hc, ih h]
        simp [Reading.pending]
      | false =>
        rw [pathsFrom_end hc] at h
        rw [resolveFrom_end hc, h _ (by simp), pass (Reading.takes_plain hc false)
          fun p hp => h p (by simp [hp])]
        rfl

/-- **A tag stays** if the variable is no segment of its paths. -/
theorem resolveTag_eq_self {tag : Tag}
    (h : ∀ p ∈ tag.paths, it.header.variableName ∉ Context.segments p) :
    it.resolveTag tag.source = tag.source :=
  resolveFrom_eq_self fun p hp => resolved_eq_self (h p hp)

end Iteration

end Stencil
