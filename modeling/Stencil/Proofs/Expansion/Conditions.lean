import Stencil.Proofs.Condition.Spelling
import Stencil.Proofs.Expansion.Places
import Stencil.Proofs.Expansion.Spans
import Stencil.Proofs.Tag.Argument

/-!
# Conditions in a body

An iteration resolves the paths of a condition without cutting it into tokens. The condition of the
copy nevertheless has the tokens of the condition, each identifier that the variable leads taken to
its place in the collection (`expand_condition_tokens`). What becomes of a condition is said token
by token (`Iteration.Copied`), along the cutting of the condition.
-/

namespace Stencil

open Tag Condition

namespace Iteration

variable (it : Iteration)

/-- What a line inside `depth` loops within the body shows for the interpolation of the number. -/
def numberedAt (depth : Nat) (t : Text) : Text := if depth = 0 then it.numbered t else t

/-- What becomes of a token in a line inside `depth` loops within the body: an identifier that the
variable leads becomes a path into the collection, and a quoted text shows the number of the
iteration. -/
def retoken (depth : Nat) : Token → Token
  | .identifier w => .identifier (it.located w)
  | .literal (.str s) => .literal (.str (it.numberedAt depth s))
  | token => token

variable {it}

/-! ## Numbering -/

section Numbering

variable (depth : Nat)

@[simp] theorem numberedAt_nil : it.numberedAt depth [] = [] := by
  unfold numberedAt
  split <;> rfl

theorem numberedAt_append_of_not_mem {s : Text} (hs : '{' ∉ s) (t : Text) :
    it.numberedAt depth (s ++ t) = s ++ it.numberedAt depth t := by
  unfold numberedAt
  split
  · induction s with
    | nil => rfl
    | cons c s ih =>
      have hc : c ≠ '{' := fun e => hs (by simp [e])
      rw [List.cons_append, numbered_cons_of_ne hc, ih fun h => hs (List.mem_cons_of_mem c h)]
      rfl
  · rfl

theorem numberedAt_append_cons {d : Char} (hblank : isBlank d = false)
    (hd : d ∉ "\x7bindex\x7d".toList) (s t : Text) :
    it.numberedAt depth (s ++ d :: t) = it.numberedAt depth s ++ d :: it.numberedAt depth t := by
  unfold numberedAt
  split
  · exact numbered_append_cons hblank hd s t
  · rfl

/-- What holds no digit has been there before. -/
theorem infix_of_numberedAt {s t : Text} (hs : ∀ c ∈ s, c.isDigit = false) (hne : s ≠ [])
    (h : s <:+: it.numberedAt depth t) : s <:+: t := by
  unfold numberedAt at h
  split at h
  · obtain ⟨a, u, h⟩ := h
    rw [List.append_assoc] at h
    obtain ⟨a, u, rfl, -⟩ := infix_of_numbered hs hne h.symm
    exact ⟨a, u, List.append_assoc ..⟩
  · exact h

theorem mem_of_mem_numberedAt {c : Char} (hc : c.isDigit = false) {t : Text}
    (h : c ∈ it.numberedAt depth t) : c ∈ t := by
  obtain ⟨a, u, h⟩ := List.append_of_mem h
  have hi : [c] <:+: t := infix_of_numberedAt depth (by simpa using hc) (by simp)
    ⟨a, u, by rw [h]; simp⟩
  exact hi.subset (by simp)

end Numbering

/-! ## Copying a condition -/

/-- The rest of a tag as a line inside `depth` loops within the body has it, read from outside
quotes and paths on. -/
def copyFrom (it : Iteration) (depth : Nat) (t : Text) : Text :=
  it.numberedAt depth (it.resolveFrom (.plain false) t)

section Copy

variable {depth : Nat}

theorem copyFrom_separators {s : Text} (hs : ∀ c ∈ s, Separates c) (hb : '{' ∉ s) (t : Text) :
    it.copyFrom depth (s ++ t) = s ++ it.copyFrom depth t := by
  rw [copyFrom, resolveFrom_separators hs, numberedAt_append_of_not_mem depth hb]
  rfl

theorem resolveFrom_quote {q : Char} {s : Text} (hs : q ∉ s) (t : Text) :
    it.resolveFrom (.quoted q) (s ++ q :: t) =
      s ++ q :: it.resolveFrom (.plain (isPathPart q)) t := by
  induction s with
  | nil =>
    rw [List.nil_append, resolveFrom, if_pos rfl]
    rfl
  | cons c s ih =>
    have hc : c ≠ q := fun e => hs (by simp [e])
    rw [List.cons_append, resolveFrom, if_neg hc, ih fun h => hs (List.mem_cons_of_mem c h)]
    rfl

theorem copyFrom_quoted {q : Char} {s : Text} (hq : isQuote q = true) (hs : q ∉ s) (t : Text) :
    it.copyFrom depth (q :: (s ++ q :: t)) =
      q :: (it.numberedAt depth s ++ q :: it.copyFrom depth t) := by
  have hpath : isPathPart q = false := isPathPart_of_quote hq
  have hbrace : q ∉ "\x7bindex\x7d".toList ∧ '{' ∉ [q] := by
    rcases isQuote_iff.1 hq with rfl | rfl <;> decide
  have hopen : ∀ u, it.numberedAt depth ([q] ++ u) = [q] ++ it.numberedAt depth u :=
    numberedAt_append_of_not_mem depth hbrace.2
  have hquote : (q == '"' || q == '\'') = true := hq
  rw [copyFrom, resolveFrom, if_pos hquote, resolveFrom_quote hs, hpath, ← List.singleton_append,
    hopen, numberedAt_append_cons depth (isBlank_of_isQuote hq) hbrace.1]
  rfl

end Copy

/-- What becomes of a condition `t` that is cut into the tokens: `t'` is cut into what becomes of
the tokens, it is read in the copy of a tag wherever no word goes on behind `t`, and it neither ends
its line nor the tag if `t` does not. What `t'` begins with matters to the token before it. -/
structure Copied (it : Iteration) (depth : Nat) (t t' : Text) (tokens : List Token) : Prop where
  cuts : Cuts t' (tokens.map (it.retoken depth))
  reads : ∀ c z, isWordPart c = false →
    it.copyFrom depth (t ++ c :: z) = t' ++ it.copyFrom depth (c :: z)
  ne_nil : t ≠ [] → t' ≠ []
  head : ∀ c ∈ t'.head?, c ∈ t.head? ∨ isWordPart c = true ∧ ∃ d ∈ t.head?, isWordPart d = true
  newline : '\n' ∈ t' → '\n' ∈ t
  closes : stop false <:+: t' ++ [stopHead false] → stop false <:+: t ++ [stopHead false]

namespace Copied

variable {depth : Nat} {t t' s : Text} {ts : List Token}

theorem nil : it.Copied depth [] [] [] where
  cuts := .nil
  reads _ _ _ := rfl
  ne_nil h := h
  head _ h := .inl h
  newline := id
  closes := id

/-- What becomes of a condition becomes of it behind another part, too. -/
theorem append (os : List Token) (h : it.Copied depth t t' ts) {w w' : Text} (hne : w ≠ [])
    (hne' : w' ≠ [])
    (hcuts : Cuts (w' ++ t') (os.map (it.retoken depth) ++ ts.map (it.retoken depth)))
    (hreads : ∀ c z, isWordPart c = false →
      it.copyFrom depth (w ++ (t ++ c :: z)) = w' ++ it.copyFrom depth (t ++ c :: z))
    (hhead : ∀ c ∈ w'.head?, c ∈ w.head? ∨ isWordPart c = true ∧ ∃ d ∈ w.head?, isWordPart d = true)
    (hnewline : '\n' ∈ w' → '\n' ∈ w)
    (hstop : stop false <:+: w' ++ (t' ++ [stopHead false]) →
      stop false <:+: t' ++ [stopHead false] ∨ stop false <:+: w ++ (t ++ [stopHead false])) :
    it.Copied depth (w ++ t) (w' ++ t') (os ++ ts) where
  cuts := by rwa [List.map_append]
  reads c z hc := by
    rw [List.append_assoc, hreads c z hc, h.reads c z hc, List.append_assoc]
  ne_nil _ := by simp [hne']
  head c hc := by
    obtain ⟨x, w, rfl⟩ := List.exists_cons_of_ne_nil hne
    obtain ⟨y, w', rfl⟩ := List.exists_cons_of_ne_nil hne'
    exact hhead c hc
  newline hm := by
    rcases List.mem_append.1 hm with hm | hm
    · exact List.mem_append_left _ (hnewline hm)
    · exact List.mem_append_right _ (h.newline hm)
  closes hi := by
    rw [List.append_assoc] at hi ⊢
    rcases hstop hi with hi | hi
    · exact (h.closes hi).trans ⟨w, [], by simp⟩
    · exact hi

theorem head_of (h : it.Copied depth t t' ts) {p : Char → Bool}
    (hp : ∀ c, isWordPart c = true → p c = false) (ht : ∀ c ∈ t.head?, p c = false) :
    ∀ c ∈ t'.head?, p c = false := fun c hc =>
  (h.head c hc).elim (ht c) fun hword => hp c hword.1

theorem head_word (h : it.Copied depth t t' ts) (ht : ∀ c ∈ t.head?, isWordPart c = false) :
    ∀ c ∈ t'.head?, isWordPart c = false := by
  intro c hc
  rcases h.head c hc with hc | ⟨-, d, hd, hword⟩
  · exact ht c hc
  · rw [ht d hd] at hword
    cases hword

/-- Characters that neither stand in paths nor delimit tags or quotes stay. -/
theorem separators (os : List Token) (h : it.Copied depth t t' ts) (hne : s ≠ [])
    (hs : ∀ c ∈ s, Separates c ∧ c ≠ '{' ∧ c ≠ '%')
    (hcuts : Cuts (s ++ t') (os.map (it.retoken depth) ++ ts.map (it.retoken depth))) :
    it.Copied depth (s ++ t) (s ++ t') (os ++ ts) :=
  h.append os hne hne hcuts
    (fun _ _ _ => copyFrom_separators (fun c hc => (hs c hc).1) (fun hm => (hs _ hm).2.1 rfl) _)
    (fun _ hc => .inl hc) id
    fun hi => .inl ((stop_infix_append_of_not_mem fun hm => (hs _ hm).2.2 rfl).1 hi)

/-- A word becomes a word. -/
theorem word (h : it.Copied depth t t' ts) {w w' : Text} (hne : w ≠ []) (hne' : w' ≠ [])
    (hw : ∀ c ∈ w, isWordPart c = true) (hw' : ∀ c ∈ w', isWordPart c = true)
    (hend : ∀ c ∈ t.head?, isWordPart c = false)
    (hclass : classify w' = it.retoken depth (classify w))
    (hreads : ∀ c z, isWordPart c = false → it.resolveFrom (.plain false) (w ++ c :: z) =
      w' ++ it.resolveFrom (.plain false) (c :: z)) :
    it.Copied depth (w ++ t) (w' ++ t') (classify w :: ts) := by
  have hfree : ∀ {d : Char}, isWordPart d = false → d ∉ w' := fun hd hm => by
    rw [hw' _ hm] at hd
    cases hd
  refine h.append [classify w] hne hne' ?_ (fun c z hc => ?_) (fun c hm => .inr ⟨?_, ?_⟩)
    (fun hm => absurd hm (hfree (by decide)))
    fun hi => .inl ((stop_infix_append_of_not_mem (hfree (by decide))).1 hi)
  · rw [List.map_singleton, ← hclass]
    exact .word hne' hw' (h.head_word hend) h.cuts
  · obtain ⟨d, u, hu, hd⟩ : ∃ d u, t ++ c :: z = d :: u ∧ isWordPart d = false := by
      cases t with
      | nil => exact ⟨c, z, rfl, hc⟩
      | cons d u => exact ⟨d, u ++ c :: z, rfl, hend d rfl⟩
    rw [hu, copyFrom, hreads d u hd, numberedAt_append_of_not_mem depth (hfree (by decide))]
    rfl
  · exact hw' c (List.mem_of_mem_head? hm)
  · obtain ⟨d, w, rfl⟩ := List.exists_cons_of_ne_nil hne
    exact ⟨d, rfl, hw d (List.mem_cons_self ..)⟩

/-- A quoted text stays but for the number. -/
theorem quoted (h : it.Copied depth t t' ts) {q : Char} (hq : isQuote q = true) (hs : q ∉ s) :
    it.Copied depth (q :: (s ++ q :: t)) (q :: (it.numberedAt depth s ++ q :: t'))
      (.literal (.str s) :: ts) := by
  obtain ⟨hdigit, hindex, hp⟩ : q.isDigit = false ∧ q ∉ "\x7bindex\x7d".toList ∧ q ≠ '%' := by
    rcases isQuote_iff.1 hq with rfl | rfl <;> decide
  have hs' : q ∉ it.numberedAt depth s := fun hm => hs (mem_of_mem_numberedAt depth hdigit hm)
  have hquotes : ∀ a u : Text, q :: (a ++ q :: u) = (q :: (a ++ [q])) ++ u := fun a u => by simp
  rw [hquotes s t, hquotes (it.numberedAt depth s) t']
  refine h.append [.literal (.str s)] (List.cons_ne_nil _ _) (List.cons_ne_nil _ _) ?_
    (fun c z _ => ?_) (fun c hc => .inl hc) (fun hm => ?_) fun hi => ?_
  · rw [← hquotes]
    exact .quoted hq hs' h.cuts
  · rw [← hquotes, ← hquotes]
    exact copyFrom_quoted hq hs _
  · simp only [List.mem_cons, List.mem_append, List.not_mem_nil, or_false] at hm ⊢
    exact hm.imp_right (Or.imp_left (mem_of_mem_numberedAt depth (by decide)))
  · have hskip : ∀ u, stop false <:+: q :: u ↔ stop false <:+: u := fun _ =>
      stop_infix_append_of_not_mem (s := [q]) fun hm => hp (List.mem_singleton.1 hm).symm
    rw [← hquotes, hskip, stop_infix_append_cons, hskip] at hi
    refine hi.symm.imp_right fun hi => ?_
    -- the quote stays behind what becomes of the text
    have hconcat : it.numberedAt depth (s ++ [q]) = it.numberedAt depth s ++ [q] := by
      rw [numberedAt_append_cons depth (isBlank_of_isQuote hq) hindex, numberedAt_nil]
    rw [← hconcat] at hi
    exact (infix_of_numberedAt depth (by decide) (stop_ne_nil false) hi).trans
      ⟨[q], t ++ [stopHead false], by simp⟩

end Copied

theorem operator_separates {c : Char} (h : isOperatorPart c = true) :
    Separates c ∧ c ≠ '{' ∧ c ≠ '%' := by
  have key : ∀ d ∈ ['<', '>', '!', '=', '|', '&'], Separates d ∧ d ≠ '{' ∧ d ≠ '%' := by decide
  exact key c (isOperatorPart_iff.1 h)

/-- The tokens of a run of operator characters are operators. -/
theorem retoken_operators {depth : Nat} {w : Text} {os : List Token} (h : operators w = .ok os) :
    os.map (it.retoken depth) = os := by
  have hop : ∀ token ∈ os, ∃ o, token = .op o := by
    have hnot : ∀ n, ∀ token ∈ List.replicate n (Token.op .not), ∃ o, token = .op o :=
      fun _ _ hm => ⟨_, List.eq_of_mem_replicate hm⟩
    unfold operators at h
    split at h
    · next o _ =>
      obtain rfl := Except.ok.inj h
      simp
    · simp only at h
      split at h
      · cases h
      split at h
      · obtain rfl := Except.ok.inj h
        exact hnot _
      split at h
      · next o _ =>
        obtain rfl := Except.ok.inj h
        simp
      · cases h
  exact (List.map_congr_left fun token hm => by
    obtain ⟨o, rfl⟩ := hop token hm
    rfl).trans (List.map_id' os)

theorem retoken_classify {depth : Nat} {w : Text} (h : ∀ q, classify w ≠ .identifier q) :
    it.retoken depth (classify w) = classify w := by
  unfold retoken
  split
  · next hq => exact absurd hq (h _)
  · next hs => exact absurd hs (classify_ne_str w _)
  · rfl

/-- **What becomes of a condition** that is cut into tokens. -/
theorem exists_copied (hc : ∀ c ∈ it.header.collection, isPathPart c = true)
    (hne : it.header.collection ≠ []) (hd : Numeral.isDigits it.header.collection = false)
    (hk : ∀ c ∈ it.key, isWordPart c = true) (hv : it.header.variableName.IsIdentifier)
    (hclass : classify it.header.variableName = .identifier it.header.variableName)
    (depth : Nat) {t : Text} {ts : List Token} (h : Cuts t ts)
    (hids : ∀ w, .identifier w ∈ ts → it.header.variableName ∉ Context.laterSegments w ∧
      HyphensApart it.header.variableName w) : ∃ t', it.Copied depth t t' ts := by
  induction h with
  | nil => exact ⟨[], .nil⟩
  | @blank c t ts hblank _ ih =>
    obtain ⟨t', h⟩ := ih hids
    obtain ⟨-, -, -, hbrace, -, hp, -, -⟩ := blank_separates hblank
    exact ⟨_, h.separators (s := [c]) [] (by simp)
      (by simpa using ⟨separates_of_isBlank (b := [c]) (by simpa using hblank) c (by simp), hbrace,
        hp⟩) (.blank hblank h.cuts)⟩
  | quoted hq hs _ ih =>
    obtain ⟨t', h⟩ := ih fun w hw => hids w (List.mem_cons_of_mem _ hw)
    exact ⟨_, h.quoted hq hs⟩
  | opening _ ih =>
    obtain ⟨t', h⟩ := ih fun w hw => hids w (List.mem_cons_of_mem _ hw)
    exact ⟨_, h.separators (s := ['(']) [.opening] (by simp) (by decide) (.opening h.cuts)⟩
  | closing _ ih =>
    obtain ⟨t', h⟩ := ih fun w hw => hids w (List.mem_cons_of_mem _ hw)
    exact ⟨_, h.separators (s := [')']) [.closing] (by simp) (by decide) (.closing h.cuts)⟩
  | run hne hw hend ho _ ih =>
    obtain ⟨t', h⟩ := ih fun w hw => hids w (List.mem_append_right _ hw)
    refine ⟨_, h.separators _ hne (fun c hc => operator_separates (hw c hc)) ?_⟩
    rw [retoken_operators ho]
    exact .run hne hw (h.head_of (fun c hc => (isWordPart_separates hc).2.2.2.2) hend) ho h.cuts
  | @word w t ts hwne hw hend _ ih =>
    obtain ⟨t', h⟩ := ih fun w hw => hids w (List.mem_cons_of_mem _ hw)
    by_cases hid : ∃ q, classify w = .identifier q
    · obtain ⟨q, hq⟩ := hid
      obtain rfl := (classify_eq_identifier_iff.1 hq).1
      obtain ⟨hlater, hapart⟩ := hids q (by rw [hq]; exact List.mem_cons_self ..)
      exact ⟨_, h.word hwne (located_ne_nil hwne) hw (located_isWordPart hc hk hw) hend
        (by rw [classify_located hc hne hd hq, hq]; rfl)
        fun c z => resolveFrom_identifier hv hw hlater hapart⟩
    · have hother : ∀ q, classify w ≠ .identifier q := fun q hq => hid ⟨q, hq⟩
      exact ⟨_, h.word hwne hwne hw hw hend (retoken_classify hother).symm
        fun c z => resolveFrom_other hclass hw hother⟩

/-! ## The tag of a condition -/

section Tag

variable {depth : Nat}

theorem copyFrom_concat (t : Text) :
    it.copyFrom depth (t ++ ['%']) = it.copyFrom depth t ++ ['%'] := by
  rw [copyFrom, (read_concat it (by decide) _ _).1,
    numberedAt_append_cons depth (by decide) (by decide), numberedAt_nil]
  rfl

theorem expandText_enclose {inner : Text} (hn : '\n' ∉ inner)
    (hfirst : ¬ stop false <:+: inner ++ [stopHead false]) :
    it.expandText depth (enclose false inner) = enclose false (it.copyFrom depth inner) := by
  have hspan : Pattern.span (enclose false inner ++ []) = some ⟨enclose false inner, []⟩ :=
    Pattern.span_eq_some_iff.2 ⟨false, inner, [], rfl, rfl, hn, hfirst⟩
  have htext : it.resolveText (enclose false inner) =
      enclose false (it.resolveFrom (.plain false) inner) := by
    have h := Pattern.replace_tag Pattern.anchored_span (f := fun tag => it.resolveTag tag.source)
      ⟨enclose false inner, []⟩ hspan
    rw [List.append_nil, Pattern.replace_nil, List.append_nil] at h
    exact h.trans (resolveTag_enclose false inner)
  rw [expandText, htext, numbered_enclose_false, copyFrom, numberedAt]
  split <;> rfl

/-- What stands before a condition in its tag stays. -/
theorem copyFrom_head {kw b : Text} {c : Char} (hkw : IsKeyword kw)
    (hv : it.header.variableName ≠ kw) (hb : b.all isBlank) (hc : isBlank c = true) (u : Text) :
    it.copyFrom depth (b ++ (kw ++ [c]) ++ u) = b ++ (kw ++ [c]) ++ it.copyFrom depth u := by
  have hblank : ∀ {e : Text} u, e.all isBlank →
      it.copyFrom depth (e ++ u) = e ++ it.copyFrom depth u := fun u he =>
    copyFrom_separators (separates_of_isBlank he)
      (fun hm => (blank_separates (List.all_eq_true.1 he _ hm)).2.2.2.1 rfl) u
  have hpath : ∀ d ∈ kw, isPathPart d = true := fun d hd => (isLower_separates (hkw.2 d hd)).2.1
  have hself : it.stretched kw = kw := stretched_eq_self fun _ hm => by
    rw [Context.segments, Text.splitOn_of_not_mem (dot_not_mem_keyword hkw),
      List.mem_singleton] at hm
    exact hv hm
  have hword : it.copyFrom depth (kw ++ c :: u) = kw ++ it.copyFrom depth (c :: u) := by
    rw [copyFrom, resolveFrom_stretch hpath (blank_separates hc).1, hself,
      numberedAt_append_of_not_mem depth fun hm => absurd (hpath _ hm) (by decide)]
    rfl
  have hlast : it.copyFrom depth (c :: u) = c :: it.copyFrom depth u :=
    hblank (e := [c]) u (by simpa using hc)
  have hsplit : ∀ u, b ++ (kw ++ [c]) ++ u = b ++ (kw ++ c :: u) := fun u => by simp
  rw [hsplit, hsplit, hblank _ hb, hword, hlast]

namespace Copied

variable {y y' s : Text} {ts : List Token} (h : it.Copied depth y y' ts)
include h

/-- A condition at the end of a text is copied, too. -/
theorem text (hs : ∀ u, it.copyFrom depth (s ++ u) = s ++ it.copyFrom depth u) :
    it.copyFrom depth (s ++ y) = s ++ y' := by
  have hend : it.copyFrom depth ['%'] = ['%'] :=
    (copyFrom_concat []).trans (by rw [copyFrom, resolveFrom, numberedAt_nil]; rfl)
  have hconcat : it.copyFrom depth (s ++ y) ++ ['%'] = s ++ y' ++ ['%'] := by
    rw [← copyFrom_concat, List.append_assoc, hs, h.reads '%' [] (by decide), hend,
      List.append_assoc]
  exact List.append_cancel_right hconcat

theorem not_newline (hn : '\n' ∉ s ++ y) : '\n' ∉ s ++ y' := by
  simp only [List.mem_append, not_or] at hn ⊢
  exact ⟨hn.1, fun hm => hn.2 (h.newline hm)⟩

theorem not_stop (hs : '%' ∉ s) (hfirst : ¬ stop false <:+: s ++ y ++ [stopHead false]) :
    ¬ stop false <:+: s ++ y' ++ [stopHead false] := by
  rw [List.append_assoc, stop_infix_append_of_not_mem hs] at hfirst ⊢
  exact fun hi => hfirst (h.closes hi)

end Copied

end Tag

/-- **A condition in a body keeps its tokens.** On a line that holds the tag of a condition and
nothing else, the copy holds the tag of a condition, too, and its tokens are those of the condition,
one for one: an identifier that the variable leads is taken to its place in the collection, a quoted
text shows the number of the iteration, and everything else is unchanged. The variable is an
identifier in a condition, and no segment of a path but the first. -/
theorem expand_condition_tokens {argument : Text}
    (hh : LoopHeader.ofArgument? argument = some it.header)
    (hv : it.header.variableName.IsIdentifier)
    (hclass : classify it.header.variableName = .identifier it.header.variableName)
    (hif : it.header.variableName ≠ "if".toList)
    (hd : Numeral.isDigits it.header.collection = false)
    (hk : ∀ c ∈ it.key, isWordPart c = true) (before : List Line) {line : Line}
    (after : List Line) (hr : line.rendered = false)
    (hspan : Pattern.span line.text = some ⟨line.text, []⟩) {tag : Tag}
    (htag : Directive.condition.pattern line.text = some tag) {ts : List Token}
    (hts : tokens tag.argument = .ok ts)
    (hids : ∀ w, .identifier w ∈ ts → it.header.variableName ∉ Context.laterSegments w ∧
      HyphensApart it.header.variableName w) :
    ∃ line' tag', (it.expand (before ++ line :: after))[before.length]? = some line' ∧
      Pattern.span line'.text = some ⟨line'.text, []⟩ ∧
      Directive.condition.pattern line'.text = some tag' ∧
      tokens tag'.argument = .ok (ts.map (it.retoken (depthOf before line))) := by
  obtain ⟨hne, hc⟩ := LoopHeader.isPath_iff.1 (LoopHeader.ofArgument?_eq_some_iff.1 hh).2.2
  have hkw : IsKeyword "if".toList := by decide
  obtain ⟨inner, htext, hn, hfirst⟩ := Pattern.exists_inner_of_keyword hkw hspan htag
  rw [htext] at htag
  obtain ⟨b, c, y, rfl, hb, hblank, hy, rfl⟩ :=
    (Pattern.keyword_enclose_eq_some_iff hkw hn hfirst).1 htag
  have hcuts : Cuts y ts :=
    (cuts_trim_iff.1 (tokens_eq_ok_iff.1 hts)).of_blanks (b := [c]) (by simpa using hblank)
  obtain ⟨y', h⟩ := exists_copied hc hne hd hk hv hclass (depthOf before line) hcuts hids
  have hsplit : ∀ u, b ++ ("if".toList ++ c :: u) = b ++ ("if".toList ++ [c]) ++ u :=
    fun u => by simp
  have hpercent : '%' ∉ b ++ ("if".toList ++ [c]) := by
    have hfree : ∀ {e : Text}, e.all isBlank → '%' ∉ e := fun he hm =>
      absurd (List.all_eq_true.1 he _ hm) (by decide)
    have := hfree (e := [c]) (by simpa using hblank)
    simp_all
  rw [hsplit] at hn hfirst htext
  have hcopy := h.text (copyFrom_head hkw hif hb hblank)
  have hn' := h.not_newline hn
  have hfirst' := h.not_stop hpercent hfirst
  obtain ⟨line', hline, htext'⟩ : ∃ line',
      (it.expand (before ++ line :: after))[before.length]? = some line' ∧
        line'.text = enclose false (b ++ ("if".toList ++ [c]) ++ y') :=
    ⟨_, getElem?_expandFrom it 0 before line after, by
      rw [text_expandLine hr, htext, expandText_enclose hn hfirst]
      exact congrArg (enclose false) hcopy⟩
  refine ⟨line', ⟨line'.text, Text.trim (c :: y')⟩, hline, ?_, ?_, ?_⟩
  · rw [htext']
    exact Pattern.span_eq_some_iff.2
      ⟨false, _, [], rfl, (List.append_nil _).symm, hn', hfirst'⟩
  · rw [htext']
    exact (Pattern.keyword_enclose_eq_some_iff hkw hn' hfirst').2
      ⟨b, c, y', (hsplit y').symm, hb, hblank, h.ne_nil hy, rfl⟩
  · exact tokens_eq_ok_iff.2 (cuts_trim_iff.2 (.blank hblank h.cuts))

/-- Identifiers with hyphens, names that hold the name of the variable, and a number in quotes. -/
theorem expand_condition_tokens_similar :
    let it : Iteration := ⟨⟨"item".toList, "items".toList⟩, "0".toList, [], 2⟩
    let line : Line :=
      { text := "\x7b% if item.size-x >= -1 and itemize || ".toList ++
          "( ! '\x7b\x7b index \x7d\x7d' == x-item2 ) %\x7d".toList }
    ∃ line' tag', (it.expand [line])[0]? = some line' ∧
      Pattern.span line'.text = some ⟨line'.text, []⟩ ∧
      Directive.condition.pattern line'.text = some tag' ∧
      tokens tag'.argument = .ok
        [.identifier "items.0.size-x".toList, .op (.compare .ge), .literal (.int (-1)), .op .and,
          .identifier "itemize".toList, .op .or, .opening, .op .not, .literal (.str "3".toList),
          .op (.compare .eq), .identifier "x-item2".toList, .closing] := by
  intro it line
  let argument : Text :=
    "item.size-x >= -1 and itemize || ( ! '\x7b\x7b index \x7d\x7d' == x-item2 )".toList
  let ts : List Token :=
    [.identifier "item.size-x".toList, .op (.compare .ge), .literal (.int (-1)), .op .and,
      .identifier "itemize".toList, .op .or, .opening, .op .not,
      .literal (.str "\x7b\x7b index \x7d\x7d".toList), .op (.compare .eq),
      .identifier "x-item2".toList, .closing]
  have hword : ∀ w : String, w.toList ≠ [] ∧ (∀ c ∈ w.toList, isWordPart c = true) →
      Token.Written (classify w.toList) w.toList := fun w h => .word _ h.1 h.2
  have hwritten : List.Forall₂ Token.Written ts
      ["item.size-x".toList, ">=".toList, "-1".toList, "and".toList, "itemize".toList,
        "||".toList, ['('], ['!'], "'\x7b\x7b index \x7d\x7d'".toList, "==".toList,
        "x-item2".toList, [')']] :=
    .cons (hword "item.size-x" (by decide)) <| .cons (.symbol _ _ rfl) <|
    .cons (hword "-1" (by decide)) <| .cons (hword "and" (by decide)) <|
    .cons (hword "itemize" (by decide)) <| .cons (.symbol _ _ rfl) <| .cons .opening <|
    .cons (.symbol _ _ rfl) <|
    .cons (.quoted '\'' "\x7b\x7b index \x7d\x7d".toList rfl (by decide)) <|
    .cons (.symbol _ _ rfl) <| .cons (hword "x-item2" (by decide)) <| .cons .closing .nil
  have hids : ∀ w, .identifier w ∈ ts → it.header.variableName ∉ Context.laterSegments w ∧
      HyphensApart it.header.variableName w := by
    intro w hw
    simp only [ts, List.mem_cons, Token.identifier.injEq, reduceCtorEq, List.not_mem_nil, or_false,
      false_or] at hw
    rcases hw with rfl | rfl | rfl <;> decide
  have hheader : LoopHeader.ofArgument? "item in items".toList = some it.header := by
    decide +kernel
  have hspan : Pattern.span line.text = some ⟨line.text, []⟩ := by decide +kernel
  have htag : Directive.condition.pattern line.text = some ⟨line.text, argument⟩ := by
    decide +kernel
  have hdepth : depthOf [] line = 0 := by decide +kernel
  have hplaces : it.located "item.size-x".toList = "items.0.size-x".toList ∧
      it.located "itemize".toList = "itemize".toList ∧
      it.located "x-item2".toList = "x-item2".toList ∧
      it.numberedAt 0 "\x7b\x7b index \x7d\x7d".toList = "3".toList := by decide +kernel
  obtain ⟨line', tag', hline, hspan', htag', htokens⟩ :=
    expand_condition_tokens hheader (by decide) rfl (by decide) (by decide) (by decide) [] [] rfl
      hspan htag (tokens_join hwritten) hids
  refine ⟨line', tag', hline, hspan', htag', htokens.trans ?_⟩
  rw [hdepth]
  simp only [ts, List.map_cons, List.map_nil, retoken, hplaces]

/-- **A condition can lose its tokens**: a hyphen sets off the variable, the number shows in quotes,
an element of a collection that is a number is a number, and a word that begins with a digit stays;
where the variable is called like the tag, no condition is left. -/
theorem expand_breaks_condition_tokens :
    ([(⟨⟨"item".toList, "items".toList⟩, "0".toList, [], 0⟩, "item-count".toList),
      (⟨⟨"item".toList, "items".toList⟩, "0".toList, [], 0⟩, "'\x7b\x7b index \x7d\x7d'".toList),
      (⟨⟨"item".toList, "1".toList⟩, "0".toList, [], 0⟩, "item".toList),
      (⟨⟨"2x".toList, "xs".toList⟩, "0".toList, [], 0⟩, "2x".toList),
      (⟨⟨"if".toList, "xs".toList⟩, "0".toList, [], 0⟩, "if".toList)] :
      List (Iteration × Text)).Forall fun case => ∃ ts, tokens case.2 = .ok ts ∧
        ¬ ∃ line' ∈ case.1.expand [{ text := enclose false (" if ".toList ++ case.2 ++ [' ']) }],
          ∃ tag' ∈ Directive.condition.pattern line'.text,
            tokens tag'.argument = .ok (ts.map fun
              | .identifier w => .identifier (case.1.located w)
              | token => token) := by
  have hword : ∀ w : Text, w ≠ [] ∧ (∀ c ∈ w, isWordPart c = true) → tokens w = .ok [classify w] :=
    fun w h => tokens_eq_ok_iff.2 (by simpa using Cuts.word h.1 h.2 (by simp) .nil)
  have hquoted : ∀ s : Text, '\'' ∉ s → tokens ('\'' :: (s ++ ['\''])) = .ok [.literal (.str s)] :=
    fun s h => tokens_eq_ok_iff.2 (.quoted rfl h .nil)
  -- one token is read in the condition, and one in the copy
  have hcase : ∀ {it : Iteration} {t t' : Text} {token token' : Token} {f : Token → Token},
      tokens t = .ok [token] → tokens t' = .ok [token'] → token' ≠ f token →
      (∀ line' ∈ it.expand [{ text := enclose false (" if ".toList ++ t ++ [' ']) }],
        ∀ tag' ∈ Directive.condition.pattern line'.text, tag'.argument = t') →
      ∃ ts, tokens t = .ok ts ∧
        ¬ ∃ line' ∈ it.expand [{ text := enclose false (" if ".toList ++ t ++ [' ']) }],
          ∃ tag' ∈ Directive.condition.pattern line'.text,
            tokens tag'.argument = .ok (ts.map f) := by
    intro it t t' token token' f ht ht' hne hcopy
    refine ⟨_, ht, ?_⟩
    rintro ⟨line', hline, tag', htag, h⟩
    rw [hcopy line' hline tag' htag, ht'] at h
    exact hne (List.cons.inj (Except.ok.inj h)).1
  refine ⟨?_, ?_, ?_, ?_, ?_⟩
  · have ht : tokens "item-count".toList = .ok [.identifier "item-count".toList] :=
      hword _ (by decide)
    have ht' : tokens "items.0-count".toList = .ok [.identifier "items.0-count".toList] :=
      hword _ (by decide)
    exact hcase ht ht' (fun h => absurd (Token.identifier.inj h) (by decide)) (by decide +kernel)
  · refine hcase (hquoted "\x7b\x7b index \x7d\x7d".toList (by decide))
      (hquoted "1".toList (by decide)) (fun h => ?_) (by decide +kernel)
    exact absurd (Value.str.inj (Token.literal.inj h)) (by decide)
  · have ht : tokens "item".toList = .ok [.identifier "item".toList] := hword _ (by decide)
    refine hcase ht (hword "1.0".toList (by decide)) (fun h => ?_) (by decide +kernel)
    have hfloat : (Numeral.float? "1.0".toList).isSome = true := rfl
    rw [(classify_eq_identifier_iff.1 h).2.2.2] at hfloat
    cases hfloat
  · have ht : tokens "2x".toList = .ok [.identifier "2x".toList] := hword _ (by decide)
    exact hcase ht ht (fun h => absurd (Token.identifier.inj h) (by decide)) (by decide +kernel)
  · have ht : tokens "if".toList = .ok [.identifier "if".toList] := hword _ (by decide)
    exact hcase ht ht (fun h => absurd (Token.identifier.inj h) (by decide)) (by decide +kernel)

end Iteration

end Stencil
