import Stencil.Interpolation
import Stencil.Proofs.Scope.Passage

/-!
# Lines with interpolations

A line with interpolations is a text without opening braces, and then bodies between double braces,
each with the text up to the next one (`Braced`). The tags of the line are the ones that are written
there, unless closing braces stand behind a body of nothing but blanks: its tag reaches on to them
(`tags_line_iff`). Otherwise the texts between the bodies stay as they are, and each body gives way
to what the context has for it (`interpolate_line`).
-/

namespace Stencil

open Tag

namespace Text

/-- Blanks around a text do not count once it is trimmed. -/
theorem trim_blanks {b e : Text} (hb : b.all Stencil.isBlank) (he : e.all Stencil.isBlank)
    (t : Text) : trim (b ++ (t ++ e)) = trim t := by
  obtain ⟨i, j, ht, hi, hj⟩ := exists_append_trim t
  have hhead := head_trim t
  have hlast := getLast_trim t
  generalize trim t = w at ht hhead hlast ⊢
  subst ht
  by_cases hw : w = []
  · subst hw
    exact trim_of_all (by simp [hb, he, hi, hj])
  · have hassoc : b ++ (i ++ (w ++ j) ++ e) = b ++ i ++ (w ++ (j ++ e)) := by simp
    rw [hassoc]
    exact trim_append (by simp [hb, hi]) (by simp [hj, he]) hw hhead hlast

theorem splitOnce?_append {sep : Char} {s : Text} (h : sep ∉ s) (t : Text) :
    splitOnce? sep (s ++ sep :: t) = some (s, t) := by
  induction s with
  | nil => simp [splitOnce?]
  | cons c cs ih =>
    have hc : c ≠ sep := fun e => h (by simp [e])
    rw [List.cons_append, splitOnce?, if_neg hc, ih fun hm => h (List.mem_cons_of_mem c hm)]
    rfl

theorem upTo?_eq_some_iff {tail t u : Text} : upTo? tail t = some u ↔ t = u ++ tail := by
  rw [upTo?, Option.map_eq_some_iff]
  constructor
  · rintro ⟨r, hr, rfl⟩
    rw [← List.reverse_reverse t, after?_eq_some_iff.1 hr, List.reverse_append,
      List.reverse_reverse]
  · rintro rfl
    exact ⟨u.reverse, by rw [List.reverse_append, after?_append], List.reverse_reverse u⟩

end Text

/-! ## What a body says -/

/-- Whether the character is a quote. -/
def IsQuote (c : Char) : Prop := c = '"' ∨ c = '\''

/-- A text without the pair of quotes around it, if it stands between two equal ones. -/
inductive Unquoted : Text → Text → Prop
  | quoted {quote : Char} {inner : Text} (h : IsQuote quote) :
      Unquoted (quote :: (inner ++ [quote])) inner
  | plain {t : Text} (h : ∀ quote inner, IsQuote quote → t ≠ quote :: (inner ++ [quote])) :
      Unquoted t t

/-- The path that a body names, and its default, which stands behind the first equals sign. -/
inductive Names : (body path : Text) → (default? : Option Text) → Prop
  | path {path : Text} (h : '=' ∉ path) : Names path path none
  | default {path default : Text} (h : '=' ∉ path) :
      Names (path ++ '=' :: default) path (some default)

/-- Whether there is no value at the path other than the null one. -/
def Context.Lacks (context : Context) (path : Text) : Prop :=
  ∀ value, context.get? path = some value → value.isNull = true

/-- What is shown in the place of a body. -/
inductive Context.Shows (context : Context) (body : Text) : Text → Prop
  | value {path : Text} {default? : Option Text} {value : Value} (names : Names body path default?)
      (get : context.get? path.trim = some value) (present : value.isNull = false) :
      Shows context body value.display
  | default {path default t : Text} (names : Names body path (some default))
      (absent : context.Lacks path.trim) (unquoted : Unquoted default.trim t) :
      Shows context body t
  | unknown {path : Text} (names : Names body path none) (absent : context.Lacks path.trim) :
      Shows context body unknownKey

theorem Unquoted.unquote_eq {t u : Text} (h : Unquoted t.trim u) : unquote t = u := by
  have hinner : ∀ (quote : Char) (inner : Text),
      (Text.after? [quote] t.trim).bind (Text.upTo? [quote]) = some inner ↔
        t.trim = quote :: (inner ++ [quote]) := by
    intro quote inner
    rw [Option.bind_eq_some_iff]
    constructor
    · rintro ⟨rest, ha, hu⟩
      rw [Text.after?_eq_some_iff.1 ha, Text.upTo?_eq_some_iff.1 hu]
      rfl
    · intro ht
      exact ⟨inner ++ [quote], Text.after?_eq_some_iff.2 ht, Text.upTo?_eq_some_iff.2 rfl⟩
  generalize ht : t.trim = w at h hinner
  simp only [unquote, ht]
  cases h with
  | @quoted quote inner hq =>
    rcases hq with rfl | rfl
    · rw [(hinner '"' u).2 rfl]
    · have hnone : (Text.after? ['"'] ('\'' :: (u ++ ['\'']))).bind (Text.upTo? ['"']) = none := rfl
      rw [hnone, (hinner '\'' u).2 rfl]
      rfl
  | plain hplain =>
    have hnone : ∀ quote, IsQuote quote →
        (Text.after? [quote] u).bind (Text.upTo? [quote]) = none := fun quote hq =>
      Option.eq_none_iff_forall_ne_some.2 fun inner hi =>
        hplain quote inner hq ((hinner quote inner).1 hi)
    rw [hnone _ (.inl rfl), hnone _ (.inr rfl)]
    rfl

theorem unquoted_unquote (t : Text) : Unquoted t.trim (unquote t) := by
  by_cases h : ∃ quote inner, IsQuote quote ∧ t.trim = quote :: (inner ++ [quote])
  · obtain ⟨quote, inner, hq, ht⟩ := h
    have hu : Unquoted t.trim inner := ht ▸ .quoted hq
    rw [hu.unquote_eq]
    exact hu
  · have hu : Unquoted t.trim t.trim := .plain fun quote inner hq ht => h ⟨quote, inner, hq, ht⟩
    rw [hu.unquote_eq]
    exact hu

theorem exists_names (body : Text) : ∃ path default?, Names body path default? := by
  by_cases h : '=' ∈ body
  · obtain ⟨path, default, rfl, hp⟩ := List.eq_append_cons_of_mem h
    exact ⟨path, some default, .default hp⟩
  · exact ⟨body, none, .path h⟩

theorem Names.ofArgument_eq {body path : Text} {default? : Option Text}
    (h : Names body path default?) :
    Interpolation.ofArgument body = ⟨path.trim, default?.map unquote⟩ := by
  cases h with
  | path h => rw [Interpolation.ofArgument, splitOnce?_of_not_mem h]; rfl
  | default h => rw [Interpolation.ofArgument, Text.splitOnce?_append h]; rfl

theorem unquote_blanks {e : Text} (he : e.all isBlank) (t : Text) :
    unquote (t ++ e) = unquote t := by
  unfold unquote
  rw [show Text.trim (t ++ e) = t.trim from Text.trim_blanks (b := []) rfl he t]

/-- Blanks around a body do not change its path and its default. -/
theorem ofArgument_trim (body : Text) :
    Interpolation.ofArgument body.trim = Interpolation.ofArgument body := by
  obtain ⟨b, e, hbody, hb, he⟩ := Text.exists_append_trim body
  generalize body.trim = w at hbody
  subst hbody
  have hblank : '=' ∉ b := fun h => absurd (List.all_eq_true.1 hb _ h) (by decide)
  obtain ⟨path, default?, hs⟩ := exists_names w
  rw [hs.ofArgument_eq]
  cases hs with
  | path h =>
    have hout : '=' ∉ b ++ (w ++ e) := by
      have hend : '=' ∉ e := fun h => absurd (List.all_eq_true.1 he _ h) (by decide)
      simp [hblank, h, hend]
    rw [(Names.path hout).ofArgument_eq, Text.trim_blanks hb he]
  | @default path default h =>
    have hassoc : b ++ (path ++ '=' :: default ++ e) = (b ++ path) ++ '=' :: (default ++ e) := by
      simp
    have hpath : '=' ∉ b ++ path := by simp [hblank, h]
    have htrim : Text.trim (b ++ path) = path.trim := by
      simpa using Text.trim_blanks (e := []) hb rfl path
    rw [hassoc, (Names.default hpath).ofArgument_eq, htrim, Option.map_some, Option.map_some,
      unquote_blanks he]

theorem Context.present?_eq_none_iff {context : Context} {path : Text} :
    context.present? path = none ↔ context.Lacks path := by
  simp [Context.present?, Context.Lacks, Option.filter_eq_none_iff]

theorem Context.present?_of_get {context : Context} {path : Text} {value : Value}
    (get : context.get? path = some value) (present : value.isNull = false) :
    context.present? path = some value :=
  Option.filter_eq_some_iff.2 ⟨get, by simp [present]⟩

/-- **What is shown in the place of a body** is what the interpolation evaluates to. -/
theorem Context.shows_iff {context : Context} {body t : Text} :
    context.Shows body t ↔ t = context.evaluate body.trim := by
  obtain ⟨path, default?, hs⟩ := exists_names body
  rw [Context.evaluate, ofArgument_trim]
  constructor
  · intro h
    cases h with
    | value names get present =>
      rw [names.ofArgument_eq, Context.present?_of_get get present]
    | default names absent unquoted =>
      rw [names.ofArgument_eq]
      simp [Context.present?_eq_none_iff.2 absent, unquoted.unquote_eq]
    | unknown names absent =>
      rw [names.ofArgument_eq]
      simp [Context.present?_eq_none_iff.2 absent]
  · rintro rfl
    rw [hs.ofArgument_eq]
    cases hp : context.present? path.trim with
    | some value =>
      obtain ⟨hget, hnull⟩ := Option.filter_eq_some_iff.1 hp
      exact .value hs hget (by simpa using hnull)
    | none =>
      have habsent := Context.present?_eq_none_iff.1 hp
      cases default? with
      | none => exact .unknown hs habsent
      | some default => exact .default hs habsent (unquoted_unquote default)

/-! ## The tags of a line -/

/-- An interpolation as it is written on a line, and the text up to the next one. -/
structure Braced where
  /-- What stands between the braces. -/
  body : Text
  /-- The text behind it, up to the next interpolation. -/
  gap : Text
  body_ne_nil : body ≠ []
  body_brace : '}' ∉ body
  body_newline : '\n' ∉ body
  gap_brace : '{' ∉ gap
  gap_newline : '\n' ∉ gap

namespace Braced

/-- What stands on the line for it. -/
def source (b : Braced) : Text := enclose true b.body ++ b.gap

/-- The tag that is written there. -/
def tag (b : Braced) : Tag := ⟨enclose true b.body, b.body.trim⟩

/-- The line on which interpolations stand behind a text. -/
def line (before : Text) (bs : List Braced) : Text := before ++ bs.flatMap source

/-- The line with the given texts in the places of the tags. -/
def filled (before : Text) (bs : List Braced) (shown : List Text) : Text :=
  before ++ (List.zipWith (fun t b => t ++ b.gap) shown bs).flatten

/-- Whether no blank body has closing braces behind it, the last brace of its own tag counted. So
only the last body of a line can be blank. -/
def Ends : List Braced → Prop
  | [] => True
  | b :: bs =>
    (Text.isBlank b.body = true → ¬ closingBraces <:+: '}' :: line b.gap bs) ∧ Ends bs

instance decidableEnds : (bs : List Braced) → Decidable (Ends bs)
  | [] => inferInstanceAs (Decidable True)
  | _ :: bs =>
    have := decidableEnds bs
    inferInstanceAs (Decidable ((_ → ¬ _) ∧ _))

theorem newline_not_mem (b : Braced) : '\n' ∉ b.source := by
  simp [source, enclose, start, stop, openingBraces, closingBraces, b.body_newline, b.gap_newline]

theorem newline_not_mem_line {before : Text} (h : '\n' ∉ before) (bs : List Braced) :
    '\n' ∉ line before bs := by
  simp only [line, List.mem_append, List.mem_flatMap, not_or, not_exists, not_and]
  exact ⟨h, fun b _ => b.newline_not_mem⟩

theorem line_cons (before : Text) (b : Braced) (bs : List Braced) :
    line before (b :: bs) = before ++ (b.tag.source ++ line b.gap bs) := by
  simp [line, source, tag]

/-- Behind a blank body an interpolation ends at once if no closing braces follow. -/
theorem interpolation_blank_iff {body : Text} (hblank : Text.isBlank body = true) (hne : body ≠ [])
    (hn : '\n' ∉ body) {rest : Text} (hrest : '\n' ∉ rest) :
    Pattern.interpolation (enclose true body ++ rest) = some ⟨enclose true body, []⟩ ↔
      ¬ closingBraces <:+: '}' :: rest := by
  have hsplit : enclose true body ++ rest = openingBraces ++ (body ++ (closingBraces ++ rest)) := by
    simp [enclose, start, stop]
  have hhead : ∀ c ∈ (closingBraces ++ rest).head?, isBlank c = false := closingBraces_head
  have hany : ∃ c ∈ body, c ≠ '\n' := by
    obtain ⟨c, hc⟩ := List.exists_mem_of_ne_nil body hne
    exact ⟨c, hc, fun e => hn (e ▸ hc)⟩
  have harg : (argument? closingBraces (closingBraces ++ rest)).isSome ↔
      closingBraces <:+: '}' :: rest := by
    rw [isSome_argument?_iff closingBraces_ne_nil closingBraces_head]
    constructor
    · rintro ⟨x, r, hx, hx'⟩
      obtain ⟨c, x, rfl⟩ := List.exists_cons_of_ne_nil hx'.ne_nil
      exact ⟨x, r, by simpa using (List.cons.inj hx).2.symm⟩
    · rintro ⟨x, r, hx⟩
      refine ⟨'}' :: x, r, by rw [List.cons_append, ← List.append_assoc, hx]; rfl, ?_⟩
      refine isArgument_of_newline_not_mem (by simp) fun h => ?_
      have hm : '\n' ∈ '}' :: rest := by
        rw [← hx]
        simp [show '\n' ∈ x by simpa using h]
      exact hrest (by simpa using hm)
  rw [← harg, hsplit, Pattern.interpolation]
  simp only [Text.after?_append, Option.bind_eq_bind, Option.bind_some, withArgument?,
    Text.indent_append hblank hhead, Text.trimStart_append hblank hhead, Nat.not_lt_zero, if_false]
  cases ha : argument? closingBraces (closingBraces ++ rest) with
  | none =>
    have hstarts : Text.startsWith closingBraces (closingBraces ++ rest) = true :=
      Text.startsWith_iff.2 ⟨rest, rfl⟩
    simpa [hstarts, enclose, start, stop] using hany
  | some found =>
    -- the tag that is found has an argument, and reaches further
    obtain ⟨argument, tail⟩ := found
    simp [(argument?_start ha).1]

/-- **An interpolation ends at its own braces** if its body is not blank or no closing braces
follow. -/
theorem interpolation_iff (b : Braced) {rest : Text} (hrest : '\n' ∉ rest) :
    Pattern.interpolation (b.tag.source ++ rest) = some b.tag ↔
      (Text.isBlank b.body = true → ¬ closingBraces <:+: '}' :: rest) := by
  by_cases hblank : Text.isBlank b.body = true
  · rw [tag, Text.trim_of_all hblank,
      interpolation_blank_iff hblank b.body_ne_nil b.body_newline hrest]
    simp [hblank]
  · refine iff_of_true ?_ fun h => absurd h hblank
    obtain ⟨i, e, hsplit, hi, he⟩ := Text.exists_append_trim b.body
    have hbrace : '}' ∉ b.body.trim := fun h => b.body_brace (by rw [hsplit]; simp [h])
    have hnewline : '\n' ∉ b.body.trim := fun h => b.body_newline (by rw [hsplit]; simp [h])
    have hne : b.body.trim ≠ [] := by
      intro h
      rw [h] at hsplit
      exact hblank (by rw [Text.isBlank, hsplit]; simp [hi, he])
    have h := interpolation_trimmed hi hne (Text.head_trim _) hnewline
      (fun c hc => ⟨Text.getLast_trim _ c hc, fun hc' =>
        hbrace (hc' ▸ List.mem_of_mem_getLast? hc)⟩)
      (fun h => hbrace (h.subset (by decide))) he rest
    rwa [← hsplit] at h

/-- A tag begins where one is written, though it may reach further. -/
theorem exists_interpolation (b : Braced) {rest : Text} (hrest : '\n' ∉ rest) :
    ∃ tag, Pattern.interpolation (b.tag.source ++ rest) = some tag := by
  refine Option.isSome_iff_exists.1 ((Pattern.isSome_interpolation_iff ?_).2 ?_)
  · simp [tag, enclose, start, stop, openingBraces, closingBraces, b.body_newline, hrest]
  · obtain ⟨c, body, hbody⟩ := List.exists_cons_of_ne_nil b.body_ne_nil
    exact ⟨c, body ++ (closingBraces ++ rest), by simp [tag, hbody, enclose, start, stop],
      body, rest, by simp⟩

theorem interpolation_eq_none {c : Char} (hc : c ≠ '{') (cs : Text) :
    Pattern.interpolation (c :: cs) = none := by
  simp [Pattern.interpolation, openingBraces, Text.after?, Ne.symm hc]

theorem tags_before {before : Text} (h : '{' ∉ before) (rest : Text) :
    Pattern.interpolation.tags (before ++ rest) = Pattern.interpolation.tags rest := by
  induction before with
  | nil => rfl
  | cons c cs ih =>
    have hc : c ≠ '{' := fun e => h (by simp [e])
    rw [List.cons_append, Pattern.tags_char (interpolation_eq_none hc _),
      ih fun hm => h (List.mem_cons_of_mem c hm)]

theorem replace_before {before : Text} (h : '{' ∉ before) (f : Tag → Text) (rest : Text) :
    Pattern.interpolation.replace f (before ++ rest) =
      before ++ Pattern.interpolation.replace f rest := by
  induction before with
  | nil => rfl
  | cons c cs ih =>
    have hc : c ≠ '{' := fun e => h (by simp [e])
    rw [List.cons_append, Pattern.replace_char (interpolation_eq_none hc _),
      ih fun hm => h (List.mem_cons_of_mem c hm)]
    rfl

/-- **The tags of a line** are the ones that are written there, unless closing braces follow on a
blank body. -/
theorem tags_line_iff {before : Text} (hb : '{' ∉ before) (bs : List Braced) :
    Pattern.interpolation.tags (line before bs) = bs.map tag ↔ Ends bs := by
  induction bs generalizing before with
  | nil =>
    refine iff_of_true ?_ trivial
    rw [line, tags_before hb]
    rfl
  | cons b bs ih =>
    have hrest := newline_not_mem_line b.gap_newline bs
    rw [line_cons, tags_before hb, List.map_cons, Ends, ← b.interpolation_iff hrest]
    obtain ⟨found, hf⟩ := b.exists_interpolation hrest
    by_cases heq : found = b.tag
    · rw [heq] at hf
      rw [Pattern.tags_tag Pattern.anchored_interpolation b.tag hf, List.cons_inj_right,
        ih b.gap_brace]
      simp [hf]
    · refine iff_of_false (fun h => heq ?_) fun h => heq ?_
      · obtain ⟨-, rest, hr⟩ := Pattern.anchored_interpolation hf
        rw [hr] at h hf
        rw [Pattern.tags_tag Pattern.anchored_interpolation found hf] at h
        exact (List.cons.inj h).1
      · exact Option.some.inj (hf.symm.trans h.1)

/-- Where the tags are those that are written, each is replaced and all else stays. -/
theorem replace_line {before : Text} (hb : '{' ∉ before) {bs : List Braced} (h : Ends bs)
    (f : Tag → Text) :
    Pattern.interpolation.replace f (line before bs) =
      filled before bs (bs.map fun b => f b.tag) := by
  induction bs generalizing before with
  | nil =>
    rw [line, replace_before hb]
    rfl
  | cons b bs ih =>
    have hf := (b.interpolation_iff (newline_not_mem_line b.gap_newline bs)).2 h.1
    rw [line_cons, replace_before hb,
      Pattern.replace_tag Pattern.anchored_interpolation b.tag hf, ih b.gap_brace h.2]
    simp [filled]

end Braced

/-! ## Lines shown -/

namespace Context

open Braced

theorem interpolate_line {before : Text} (hb : '{' ∉ before) {bs : List Braced} (h : Ends bs)
    (context : Context) :
    ∃ shown, List.Forall₂ (fun b t => context.Shows b.body t) bs shown ∧
      context.interpolate (line before bs) = filled before bs shown := by
  refine ⟨bs.map fun b => context.evaluate b.tag.argument, ?_, ?_⟩
  · rw [List.forall₂_map_right_iff, List.forall₂_same]
    exact fun b _ => shows_iff.2 rfl
  · rw [interpolate, replace_line hb h]

theorem interpolate_enclose {context : Context} {body t : Text} (hblank : Text.isBlank body ≠ true)
    (hbrace : '}' ∉ body) (hnewline : '\n' ∉ body) (h : context.Shows body t) :
    context.interpolate (enclose true body) = t := by
  let b : Braced :=
    { body, gap := []
      body_ne_nil := by rintro rfl; exact hblank rfl
      body_brace := hbrace
      body_newline := hnewline
      gap_brace := by simp
      gap_newline := by simp }
  have hends : Ends [b] := ⟨fun hb => absurd hb hblank, trivial⟩
  obtain ⟨shown, hshown, hline⟩ := interpolate_line (List.not_mem_nil : '{' ∉ []) hends context
  obtain ⟨u, rfl⟩ := List.length_eq_one_iff.1 hshown.length_eq.symm
  have hu : context.Shows body u := (List.forall₂_cons.1 hshown).1
  rw [shows_iff.1 h, ← shows_iff.1 hu]
  simpa [line, filled, Braced.source, b] using hline

/-- A default between double quotes is shown as it stands between them. -/
theorem interpolate_quoted {context : Context} {path text : Text} (hpath : '=' ∉ path)
    (hbrace : '}' ∉ path ∧ '}' ∉ text) (hnewline : '\n' ∉ path ∧ '\n' ∉ text)
    (habsent : context.Lacks path.trim) :
    context.interpolate (enclose true (' ' :: path ++ " = \"".toList ++ text ++ "\" ".toList)) =
      text := by
  have hbody : ' ' :: path ++ " = \"".toList ++ text ++ "\" ".toList =
      ([' '] ++ (path ++ [' '])) ++ '=' :: ([' '] ++ ('"' :: (text ++ ['"']) ++ [' '])) := by simp
  have htrim : Text.trim ([' '] ++ (path ++ [' '])) = path.trim :=
    Text.trim_blanks (by decide) (by decide) path
  have hquote : isBlank '"' = false := by decide
  have hquoted : Text.trim ([' '] ++ ('"' :: (text ++ ['"']) ++ [' '])) = '"' :: (text ++ ['"']) :=
    Text.trim_append (by decide) (by decide) (by simp) (by simpa using hquote)
      (by simpa [List.getLast?_cons] using hquote)
  rw [hbody]
  refine interpolate_enclose (fun hblank => ?_) (by simp [hbrace]) (by simp [hnewline]) ?_
  · exact absurd (List.all_eq_true.1 hblank '=' (by simp)) (by decide)
  · refine .default (.default (by simp [hpath])) (by rwa [htrim]) ?_
    rw [hquoted]
    exact .quoted (.inl rfl)

/-- **Interpolation replaces the tags of a line, once.** The tags are those that are written on the
line, unless closing braces follow on a blank body. Each of them gives way to what the context has
for its body, which is not scanned again: the value at its path, or the default without the quotes
around it, or a remark. All else on the line stays. -/
theorem interpolate_written (context : Context) :
    (∀ (before : Text) (bs : List Braced), '{' ∉ before →
      (Pattern.interpolation.tags (line before bs) = bs.map tag ↔ Ends bs) ∧
      (Ends bs → ∃ shown, List.Forall₂ (fun b t => context.Shows b.body t) bs shown ∧
        context.interpolate (line before bs) = filled before bs shown)) ∧
    ∀ path text : Text, '=' ∉ path → '}' ∉ path ∧ '}' ∉ text → '\n' ∉ path ∧ '\n' ∉ text →
      context.Lacks path.trim →
      context.interpolate (enclose true (' ' :: path ++ " = \"".toList ++ text ++ "\" ".toList)) =
        text :=
  ⟨fun _ bs hb => ⟨tags_line_iff hb bs, fun h => interpolate_line hb h context⟩,
    fun _ _ => interpolate_quoted⟩

/-- A value with a tag in it, a default and a blank body side by side; and a blank body that reaches
over the tag behind it. -/
theorem interpolate_written_adjacent :
    (⟨[("name".toList, .str "\x7b\x7bn\x7d\x7d".toList)]⟩ : Context).interpolate
        "Hi \x7b\x7b name \x7d\x7d\x7b\x7bn = 'a b'\x7d\x7d \x7b\x7b \x7d\x7d!".toList =
      "Hi \x7b\x7bn\x7d\x7da b Unknown key!".toList ∧
    Pattern.interpolation.tags "\x7b\x7b \x7d\x7d and \x7b\x7b name \x7d\x7d".toList ≠
      [⟨"\x7b\x7b \x7d\x7d".toList, []⟩, ⟨"\x7b\x7b name \x7d\x7d".toList, "name".toList⟩] := by
  let context : Context := ⟨[("name".toList, .str "\x7b\x7bn\x7d\x7d".toList)]⟩
  let name : Braced := ⟨" name ".toList, [], by decide, by decide, by decide, by decide, by decide⟩
  let n : Braced :=
    ⟨"n = 'a b'".toList, [' '], by decide, by decide, by decide, by decide, by decide⟩
  let last : Braced := ⟨[' '], ['!'], by decide, by decide, by decide, by decide, by decide⟩
  let swallowing : Braced :=
    ⟨[' '], " and ".toList, by decide, by decide, by decide, by decide, by decide⟩
  obtain ⟨shown, hshown, h⟩ :=
    ((interpolate_written context).1 "Hi ".toList [name, n, last] (by decide)).2 (by decide)
  have hswallowed : ¬ Ends [swallowing, name] := by decide
  obtain ⟨u, us, hu, hus, rfl⟩ := List.forall₂_cons_left_iff.1 hshown
  obtain ⟨v, vs, hv, hvs, rfl⟩ := List.forall₂_cons_left_iff.1 hus
  obtain ⟨w, ws, hw, hws, rfl⟩ := List.forall₂_cons_left_iff.1 hvs
  obtain rfl := List.forall₂_nil_left_iff.1 hws
  obtain rfl := shows_iff.1 hu
  obtain rfl := shows_iff.1 hv
  obtain rfl := shows_iff.1 hw
  refine ⟨h, fun htags => hswallowed ?_⟩
  exact ((interpolate_written context).1 [] [swallowing, name] (by decide)).1.1 htags

end Context

end Stencil
