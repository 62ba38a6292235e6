import Stencil.Tag.Directive

/-!
# Scanning, fragment by fragment

Every pattern of the library is anchored: the tag it reports is a nonempty start of the text. For an
anchored pattern a scan is a walk that either passes one character on or steps over one whole tag
(`scan_induction`), and a tag occurs in a text exactly when the pattern holds at one of its suffixes
(`occursIn_iff`). What a scan is used for, replacing and collecting and cutting, follows the same
two steps.
-/

namespace Stencil

/-! ## What the readers of tags consume -/

namespace Text

theorem startsWith_iff {head t : Text} : startsWith head t = true ↔ ∃ rest, t = head ++ rest := by
  unfold startsWith
  constructor
  · intro h
    obtain ⟨rest, hr⟩ := Option.isSome_iff_exists.1 h
    exact ⟨rest, (append_of_after? hr).symm⟩
  · rintro ⟨rest, rfl⟩
    rw [after?_append]
    rfl

theorem after?_eq_some_iff {head t rest : Text} : after? head t = some rest ↔ t = head ++ rest := by
  constructor
  · intro h
    exact (append_of_after? h).symm
  · rintro rfl
    exact after?_append head rest

theorem trimStart_of_head {t : Text} (h : ∀ c ∈ t.head?, Stencil.isBlank c = false) :
    trimStart t = t := by
  cases t with
  | nil => rfl
  | cons c cs =>
    have hc := h c (by simp)
    simp [trimStart, hc]

theorem indent_append {b t : Text} (hb : b.all Stencil.isBlank)
    (ht : ∀ c ∈ t.head?, Stencil.isBlank c = false) : indent (b ++ t) = b := by
  have hall : ∀ c ∈ b, Stencil.isBlank c = true := by simpa using hb
  unfold indent
  rw [List.takeWhile_append_of_pos hall]
  cases t with
  | nil => simp
  | cons c cs =>
    have hc := ht c (by simp)
    simp [hc]

theorem trimStart_append {b t : Text} (hb : b.all Stencil.isBlank)
    (ht : ∀ c ∈ t.head?, Stencil.isBlank c = false) : trimStart (b ++ t) = t := by
  have hall : ∀ c ∈ b, Stencil.isBlank c = true := by simpa using hb
  have h : trimStart (b ++ t) = trimStart t := List.dropWhile_append_of_pos hall
  rw [h, trimStart_of_head ht]

theorem all_indent (t : Text) : (indent t).all Stencil.isBlank = true := by
  unfold indent
  exact List.all_takeWhile

theorem head_trimStart (t : Text) : ∀ c ∈ (trimStart t).head?, Stencil.isBlank c = false := by
  intro c hc
  induction t with
  | nil => simp [trimStart] at hc
  | cons d ds ih =>
    by_cases hd : Stencil.isBlank d
    · exact ih (by simpa [trimStart, hd] using hc)
    · simp only [trimStart, hd, List.dropWhile_cons] at hc
      simp at hc
      subst hc
      simpa using hd

theorem exists_append_trimEnd (t : Text) :
    ∃ e, t = trimEnd t ++ e ∧ e.all Stencil.isBlank = true := by
  refine ⟨(indent t.reverse).reverse, ?_, by simpa using all_indent t.reverse⟩
  have h := congrArg List.reverse (indent_append_trimStart t.reverse)
  rw [List.reverse_append, List.reverse_reverse] at h
  exact h.symm

/-- A text is what is left of it once trimmed, between blanks. -/
theorem exists_append_trim (t : Text) : ∃ b e, t = b ++ (trim t ++ e) ∧
    b.all Stencil.isBlank = true ∧ e.all Stencil.isBlank = true := by
  obtain ⟨e, he, hblank⟩ := exists_append_trimEnd (trimStart t)
  refine ⟨indent t, e, ?_, all_indent t, hblank⟩
  have hsplit := indent_append_trimStart t
  rw [he] at hsplit
  exact hsplit.symm

theorem head_trim (t : Text) : ∀ c ∈ (trim t).head?, Stencil.isBlank c = false := by
  intro c hc
  obtain ⟨e, he, -⟩ := exists_append_trimEnd (trimStart t)
  obtain ⟨u, hu⟩ := List.head?_eq_some_iff.1 hc
  refine head_trimStart t c ?_
  rw [he, show trimEnd (trimStart t) = c :: u from hu]
  rfl

theorem getLast_trim (t : Text) : ∀ c ∈ (trim t).getLast?, Stencil.isBlank c = false := by
  intro c hc
  rw [trim, trimEnd, List.getLast?_reverse] at hc
  exact head_trimStart _ c hc

theorem trim_of_all {t : Text} (h : t.all Stencil.isBlank) : trim t = [] := by
  obtain ⟨b, e, ht, -, -⟩ := exists_append_trim t
  cases hs : trim t with
  | nil => rfl
  | cons c s =>
    have hc : Stencil.isBlank c = false := head_trim t c (by rw [hs]; rfl)
    rw [hs] at ht
    rw [List.all_eq_true.1 h c (by rw [ht]; simp)] at hc
    cases hc

theorem trim_append {b w e : Text} (hb : b.all Stencil.isBlank) (he : e.all Stencil.isBlank)
    (hne : w ≠ []) (hhead : ∀ c ∈ w.head?, Stencil.isBlank c = false)
    (hlast : ∀ c ∈ w.getLast?, Stencil.isBlank c = false) : trim (b ++ (w ++ e)) = w := by
  have hstart : trimStart (b ++ (w ++ e)) = w ++ e := by
    obtain ⟨c, w, rfl⟩ := List.exists_cons_of_ne_nil hne
    exact trimStart_append hb hhead
  have hend : trimStart (w ++ e).reverse = w.reverse := by
    rw [List.reverse_append]
    exact trimStart_append (by simpa using he) (by simpa using hlast)
  rw [trim, hstart, trimEnd, hend, List.reverse_reverse]

end Text

namespace Tag

theorem blanksThen?_eq_some_iff {delimiter t tail : Text} :
    blanksThen? delimiter t = some tail ↔
      tail = Text.indent t ++ delimiter ∧ ∃ rest, t = tail ++ rest := by
  unfold blanksThen?
  constructor
  · intro h
    split at h
    · next hs =>
      obtain ⟨rest, hr⟩ := Text.startsWith_iff.1 hs
      have ht : tail = Text.indent t ++ delimiter := (Option.some.inj h).symm
      refine ⟨ht, rest, ?_⟩
      rw [ht, List.append_assoc, ← hr, Text.indent_append_trimStart]
    · cases h
  · rintro ⟨rfl, rest, ht⟩
    have hd : Text.trimStart t = delimiter ++ rest := by
      apply List.append_cancel_left
      rw [Text.indent_append_trimStart, ← List.append_assoc]
      exact ht
    rw [if_pos (Text.startsWith_iff.2 ⟨rest, hd⟩)]

theorem argument?_start {delimiter t argument tail : Text}
    (h : argument? delimiter t = some (argument, tail)) :
    argument ≠ [] ∧ ∃ rest, t = argument ++ tail ++ rest := by
  induction t generalizing argument with
  | nil => cases h
  | cons c cs ih =>
    unfold argument? at h
    split at h
    · cases h
    · split at h
      · next hb =>
        obtain ⟨rfl, rfl⟩ : [c] = argument ∧ _ = tail := by simpa using h
        obtain ⟨-, rest, hr⟩ := blanksThen?_eq_some_iff.1 hb
        exact ⟨by simp, rest, by simpa using hr⟩
      · obtain ⟨⟨argument', tail'⟩, ha, he⟩ := Option.map_eq_some_iff.1 h
        obtain ⟨rfl, rfl⟩ : c :: argument' = argument ∧ tail' = tail := by simpa using he
        obtain ⟨-, rest, hr⟩ := ih ha
        exact ⟨by simp, rest, by simp [hr]⟩

theorem upTo?_start {delimiter t x : Text} (h : upTo? delimiter t = some x) :
    ∃ rest, t = x ++ rest := by
  induction t generalizing x with
  | nil => cases h
  | cons c cs ih =>
    unfold upTo? at h
    split at h
    · next hs =>
      obtain ⟨rest, hr⟩ := Text.startsWith_iff.1 hs
      obtain rfl : delimiter = x := by simpa using h
      exact ⟨rest, hr⟩
    · split at h
      · cases h
      · obtain ⟨y, hy, rfl⟩ := Option.map_eq_some_iff.1 h
        obtain ⟨rest, hr⟩ := ih hy
        exact ⟨rest, by simp [hr]⟩

theorem keyword?_start {keyword t head rest : Text} (h : keyword? keyword t = some (head, rest)) :
    t = head ++ rest ∧ ∃ b, b.all isBlank ∧ head = opening ++ b ++ keyword := by
  unfold keyword? at h
  simp only [Option.bind_eq_bind, Option.bind_eq_some_iff, Option.pure_def, Option.some.injEq,
    Prod.mk.injEq] at h
  obtain ⟨inner, hi, rest', hr, rfl, rfl⟩ := h
  have hi' := Text.after?_eq_some_iff.1 hi
  have hr' := Text.after?_eq_some_iff.1 hr
  refine ⟨?_, Text.indent inner, Text.all_indent inner, rfl⟩
  rw [hi', List.append_assoc, List.append_assoc, ← hr', Text.indent_append_trimStart]

theorem withArgument?_start {head delimiter t : Text} {blanks : Nat} {tag : Tag}
    (h : withArgument? head delimiter blanks t = some tag) :
    ∃ x rest, tag.source = head ++ x ∧ t = x ++ rest := by
  unfold withArgument? at h
  simp only at h
  split at h
  · cases h
  · split at h
    · next argument tail ha =>
      obtain rfl := Option.some.inj h
      obtain ⟨-, rest, hr⟩ := argument?_start ha
      refine ⟨Text.indent t ++ argument ++ tail, rest, by simp, ?_⟩
      rw [List.append_assoc, List.append_assoc, ← List.append_assoc argument, ← hr,
        Text.indent_append_trimStart]
    · split at h
      · next hs =>
        obtain rfl := Option.some.inj h
        obtain ⟨rest, hr⟩ := Text.startsWith_iff.1 (Bool.and_eq_true_iff.1 hs).1
        refine ⟨Text.indent t ++ delimiter, rest, by simp, ?_⟩
        rw [List.append_assoc, ← hr, Text.indent_append_trimStart]
      · cases h

end Tag

namespace Pattern

/-! ## Anchored patterns -/

/-- The tag that the pattern reports is a nonempty start of the text. -/
def Anchored (p : Pattern) : Prop :=
  ∀ ⦃t tag⦄, p t = some tag → tag.source ≠ [] ∧ ∃ rest, t = tag.source ++ rest

theorem anchored_keyword (kw : Text) : Anchored (keyword kw) := by
  intro t tag h
  unfold keyword at h
  simp only [Option.bind_eq_bind, Option.bind_eq_some_iff] at h
  obtain ⟨⟨head, rest⟩, hk, hw⟩ := h
  obtain ⟨rfl, b, -, rfl⟩ := Tag.keyword?_start hk
  obtain ⟨x, rest', hs, rfl⟩ := Tag.withArgument?_start hw
  exact ⟨by simp [hs, Tag.opening], rest', by simp [hs]⟩

theorem anchored_interpolation : Anchored interpolation := by
  intro t tag h
  unfold interpolation at h
  simp only [Option.bind_eq_bind, Option.bind_eq_some_iff] at h
  obtain ⟨rest, ha, hw⟩ := h
  obtain rfl := Text.after?_eq_some_iff.1 ha
  obtain ⟨x, rest', hs, rfl⟩ := Tag.withArgument?_start hw
  exact ⟨by simp [hs, Tag.openingBraces], rest', by simp [hs]⟩

theorem anchored_bare (kw : Text) : Anchored (bare kw) := by
  intro t tag h
  unfold bare at h
  simp only [Option.bind_eq_bind, Option.bind_eq_some_iff, Option.pure_def,
    Option.some.injEq] at h
  obtain ⟨⟨head, rest⟩, hk, tail, ht, rfl⟩ := h
  obtain ⟨rfl, b, -, rfl⟩ := Tag.keyword?_start hk
  obtain ⟨-, rest', rfl⟩ := Tag.blanksThen?_eq_some_iff.1 ht
  exact ⟨by simp [Tag.opening], rest', by simp⟩

theorem anchored_labelled (kw : Text) : Anchored (labelled kw) := by
  intro t tag h
  unfold labelled at h
  simp only [Option.bind_eq_bind, Option.bind_eq_some_iff] at h
  obtain ⟨⟨head, rest⟩, hk, h⟩ := h
  obtain ⟨rfl, b, -, rfl⟩ := Tag.keyword?_start hk
  split at h
  · simp only [Option.bind_eq_some_iff, Option.pure_def, Option.some.injEq] at h
    obtain ⟨tail, ht, rfl⟩ := h
    obtain ⟨-, rest', rfl⟩ := Tag.blanksThen?_eq_some_iff.1 ht
    exact ⟨by simp [Tag.opening], rest', by simp⟩
  · simp only [Option.bind_eq_some_iff, Option.pure_def, Option.some.injEq] at h
    obtain ⟨tail, ht, rfl⟩ := h
    obtain ⟨-, rest', hr⟩ := Tag.blanksThen?_eq_some_iff.1 ht
    refine ⟨by simp [Tag.opening], rest', ?_⟩
    conv => lhs; rw [← Text.indent_append_trimStart rest, ← List.takeWhile_append_dropWhile
      (p := fun c => isWordChar c || c == '-') (l := Text.trimStart rest), hr]
    simp

theorem structuralWord?_start {t word rest : Text} (h : structuralWord? t = some (word, rest)) :
    t = word ++ rest := by
  have key : ∀ ending t', (["block".toList, "for".toList, "if".toList].findSome? fun w => do
      let rest ← Text.after? w t'
      if (rest.head?.map isWordChar).getD false then none else some (ending ++ w, rest)) =
        some (word, rest) → ending ++ t' = word ++ rest := by
    intro ending t' h
    obtain ⟨w, -, hw⟩ := List.exists_of_findSome?_eq_some h
    simp only [Option.bind_eq_bind, Option.bind_eq_some_iff] at hw
    obtain ⟨r, hr, hw⟩ := hw
    split at hw
    · cases hw
    · obtain ⟨rfl, rfl⟩ : ending ++ w = word ∧ r = rest := by simpa using hw
      rw [Text.after?_eq_some_iff.1 hr, List.append_assoc]
  unfold structuralWord? at h
  split at h
  next ending t' he =>
  split at he
  · next r ha =>
    obtain ⟨rfl, rfl⟩ : "end".toList = ending ∧ r = t' := by simpa using he
    rw [Text.after?_eq_some_iff.1 ha]
    exact key _ _ h
  · obtain ⟨rfl, rfl⟩ : [] = ending ∧ t = t' := by simpa using he
    simpa using key _ _ h

theorem anchored_structural : Anchored structural := by
  intro t tag h
  unfold structural at h
  simp only [Option.bind_eq_bind, Option.bind_eq_some_iff, Option.pure_def,
    Option.some.injEq] at h
  obtain ⟨inner, hi, ⟨word, rest⟩, hw, tail, ht, rfl⟩ := h
  obtain rfl := Text.after?_eq_some_iff.1 hi
  obtain ⟨rest', rfl⟩ := Tag.upTo?_start ht
  refine ⟨by simp [Tag.opening], rest', ?_⟩
  conv => lhs; rw [← Text.indent_append_trimStart inner, structuralWord?_start hw]
  simp

theorem anchored_span : Anchored span := by
  intro t tag h
  unfold span at h
  split at h
  · next rest ha =>
    obtain ⟨tail, ht, rfl⟩ := Option.map_eq_some_iff.1 h
    obtain rfl := Text.after?_eq_some_iff.1 ha
    obtain ⟨rest', rfl⟩ := Tag.upTo?_start ht
    exact ⟨by simp [Tag.openingBraces], rest', by simp⟩
  · simp only [Option.bind_eq_bind, Option.bind_eq_some_iff, Option.pure_def,
      Option.some.injEq] at h
    obtain ⟨rest, ha, tail, ht, rfl⟩ := h
    obtain rfl := Text.after?_eq_some_iff.1 ha
    obtain ⟨rest', rfl⟩ := Tag.upTo?_start ht
    exact ⟨by simp [Tag.opening], rest', by simp⟩

theorem anchored_index : Anchored index := by
  intro t tag h
  unfold index at h
  simp only [Option.bind_eq_bind, Option.bind_eq_some_iff, Option.pure_def,
    Option.some.injEq] at h
  obtain ⟨inner, hi, rest, hr, tail, ht, rfl⟩ := h
  obtain rfl := Text.after?_eq_some_iff.1 hi
  obtain ⟨-, rest', rfl⟩ := Tag.blanksThen?_eq_some_iff.1 ht
  refine ⟨by simp [Tag.openingBraces], rest', ?_⟩
  conv => lhs; rw [← Text.indent_append_trimStart inner, Text.after?_eq_some_iff.1 hr]
  simp

theorem anchored_directive (d : Directive) : Anchored d.pattern := by
  cases d with
  | interpolation => exact anchored_interpolation
  | _ => exact anchored_keyword _

/-! ## The two steps of a scan -/

section Steps

variable {p : Pattern}

theorem scanFrom_eq_scan_drop (p : Pattern) (skip : Nat) (t : Text) :
    scanFrom p skip t = scan p (t.drop skip) := by
  induction t generalizing skip with
  | nil => cases skip <;> simp [scanFrom, scan]
  | cons c cs ih =>
    cases skip with
    | zero => rfl
    | succ skip => simpa [scanFrom] using ih skip

@[simp] theorem scan_nil (p : Pattern) : scan p [] = [] := rfl

theorem scan_char {c : Char} {cs : Text} (h : p (c :: cs) = none) :
    scan p (c :: cs) = .char c :: scan p cs := by
  simp [scan, scanFrom, h]

theorem scan_tag (hp : Anchored p) {tag : Tag} {rest : Text}
    (h : p (tag.source ++ rest) = some tag) :
    scan p (tag.source ++ rest) = .tag tag :: scan p rest := by
  obtain ⟨c, s, hs⟩ := List.exists_cons_of_ne_nil (hp h).1
  rw [hs, List.cons_append] at h ⊢
  simp only [scan, scanFrom, h]
  rw [scanFrom_eq_scan_drop, hs]
  simp [scan]

/-- **A scan passes a character on or steps over a tag.** -/
theorem scan_induction (hp : Anchored p) {motive : Text → Prop} (nil : motive [])
    (char : ∀ c cs, p (c :: cs) = none → motive cs → motive (c :: cs))
    (tag : ∀ tag rest, p (tag.source ++ rest) = some tag → motive rest →
      motive (tag.source ++ rest)) (t : Text) : motive t := by
  induction hn : t.length using Nat.strongRecOn generalizing t with
  | _ n ih =>
    subst hn
    cases t with
    | nil => exact nil
    | cons c cs =>
      cases h : p (c :: cs) with
      | none => exact char c cs h (ih cs.length (by simp) cs rfl)
      | some found =>
        obtain ⟨hne, rest, hr⟩ := hp h
        rw [hr] at h ⊢
        refine tag found rest h (ih rest.length ?_ rest rfl)
        have := List.length_pos_iff.2 hne
        rw [hr, List.length_append]
        omega

theorem flatMap_source_scan (hp : Anchored p) (t : Text) :
    (scan p t).flatMap Fragment.source = t := by
  induction t using scan_induction hp with
  | nil => rfl
  | char c cs h ih => simp [scan_char h, ih, Fragment.source]
  | tag tag rest h ih => simp [scan_tag hp h, ih, Fragment.source]

theorem occursIn_char {c : Char} {cs : Text} (h : p (c :: cs) = none) :
    occursIn p (c :: cs) = occursIn p cs := by
  simp [occursIn, scan_char h, Fragment.tag?]

theorem occursIn_tag (hp : Anchored p) {t : Text} {tag : Tag} (h : p t = some tag) :
    occursIn p t = true := by
  obtain ⟨-, rest, rfl⟩ := hp h
  simp [occursIn, scan_tag hp h, Fragment.tag?]

/-- **A tag occurs where the pattern holds at a suffix.** -/
theorem occursIn_iff (hp : Anchored p) {t : Text} :
    occursIn p t = true ↔ ∃ a b, t = a ++ b ∧ (p b).isSome := by
  constructor
  · intro h
    induction t using scan_induction hp with
    | nil => simp [occursIn] at h
    | char c cs hn ih =>
      rw [occursIn_char hn] at h
      obtain ⟨a, b, rfl, hb⟩ := ih h
      exact ⟨c :: a, b, rfl, hb⟩
    | tag tag rest hs _ => exact ⟨[], _, rfl, by simp [hs]⟩
  · rintro ⟨a, b, ht, hb⟩
    induction a generalizing t with
    | nil =>
      obtain ⟨tag, hs⟩ := Option.isSome_iff_exists.1 hb
      rw [ht]
      exact occursIn_tag hp hs
    | cons c a ih =>
      cases hs : p t with
      | some tag => exact occursIn_tag hp hs
      | none =>
        rw [ht, List.cons_append] at hs ⊢
        rw [occursIn_char hs]
        exact ih rfl

theorem replace_char {f : Tag → Text} {c : Char} {cs : Text} (h : p (c :: cs) = none) :
    replace p f (c :: cs) = c :: replace p f cs := by
  simp [replace, scan_char h]

theorem replace_tag (hp : Anchored p) {f : Tag → Text} (tag : Tag) {rest : Text}
    (h : p (tag.source ++ rest) = some tag) :
    replace p f (tag.source ++ rest) = f tag ++ replace p f rest := by
  simp [replace, scan_tag hp h]

@[simp] theorem replace_nil (p : Pattern) (f : Tag → Text) : replace p f [] = [] := rfl

theorem replace_of_not_occursIn (hp : Anchored p) {f : Tag → Text} {t : Text}
    (h : occursIn p t = false) : replace p f t = t := by
  induction t using scan_induction hp with
  | nil => rfl
  | char c cs hn ih =>
    rw [occursIn_char hn] at h
    rw [replace_char hn, ih h]
  | tag tag rest hs _ => rw [occursIn_tag hp hs] at h; cases h

theorem isSome_find? (p : Pattern) (t : Text) : (find? p t).isSome = occursIn p t := by
  unfold find? occursIn
  induction scan p t with
  | nil => rfl
  | cons f rest ih =>
    cases f with
    | char c => exact ih
    | tag t => rfl

theorem map_fst_cut (fs : List Fragment) : (cut fs).2.map Prod.fst = fs.filterMap Fragment.tag? := by
  induction fs with
  | nil => rfl
  | cons f fs ih =>
    cases f with
    | char c => exact ih
    | tag t => exact congrArg (t :: ·) ih

/-- A text that is cut at some tag holds one. -/
theorem occursIn_of_cut {p : Pattern} {t before gap : Text} {tag : Tag} {rest : List (Tag × Text)}
    (h : cut (scan p t) = (before, (tag, gap) :: rest)) : p.occursIn t = true := by
  have hmem : tag ∈ (scan p t).filterMap Fragment.tag? := by
    rw [← map_fst_cut, h]
    exact List.mem_cons_self
  obtain ⟨f, hf, htag⟩ := List.mem_filterMap.1 hmem
  exact List.any_eq_true.2 ⟨f, hf, by rw [htag]; rfl⟩

end Steps

end Pattern

namespace Directive

theorem brace_mem_of_occursIn {d : Directive} {t : Text} (h : d.occursIn t = true) :
    '{' ∈ t := by
  obtain ⟨a, b, rfl, hs⟩ := (Pattern.occursIn_iff (Pattern.anchored_directive d)).1 h
  obtain ⟨tag, htag⟩ := Option.isSome_iff_exists.1 hs
  refine List.mem_append_right _ ?_
  cases d with
  | interpolation =>
    obtain ⟨rest, hrest, -⟩ := Option.bind_eq_some_iff.1 htag
    rw [Text.after?_eq_some_iff.1 hrest]
    simp [Tag.openingBraces]
  | _ =>
    obtain ⟨x, hx, -⟩ := Option.bind_eq_some_iff.1 htag
    obtain ⟨rfl, c, -, hc⟩ := Tag.keyword?_start hx
    rw [hc]
    simp [Tag.opening]

/-- No tag occurs in a blank text. -/
theorem occursIn_of_isBlank {t : Text} (h : Text.isBlank t = true) (d : Directive) :
    d.occursIn t = false := by
  cases ho : d.occursIn t with
  | false => rfl
  | true => exact absurd (List.all_eq_true.1 h _ (brace_mem_of_occursIn ho)) (by decide)

end Directive

end Stencil
