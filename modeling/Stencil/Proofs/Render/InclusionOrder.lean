import Stencil.Proofs.Inheritance.Refill
import Stencil.Proofs.Render.Handling
import Stencil.Proofs.Tag.Argument

/-!
# The order of inclusions

Several inclusions on one line are made from right to left: a line with several tags does what lines
with one tag each do, the last tag first, and only then are the pages put in their places
(`outcome_includeLine_eq`). So it is the rightmost of several failing inclusions that a render fails
with, and where several of them fill one slot, the leftmost has the last word (`Render.Includes`,
`Includes.refills`).
-/

namespace Stencil

/-- The line that holds nothing but a tag. -/
def Tag.line (tag : Tag) : Line := { text := tag.source }

/-- The text with pages in the places of its inclusions. -/
def Text.including (t : Text) (pages : List Text) : Text :=
  (Pattern.cut (Directive.includes.pattern.scan t)).1 ++
    (List.zipWith (fun page entry => page ++ entry.2) pages
      (Pattern.cut (Directive.includes.pattern.scan t)).2).flatten

/-- From one session to the other, a layer changes by the content that fills a slot of it. -/
def Session.Fills (layer name content : Text) (before after : Session) : Prop :=
  ∃ l ∈ before.layers.get? layer, ∃ slot ∈ l.slot? name,
    after.layers.get? layer = some (l.fillSlot slot content)

instance (layer name content : Text) (before after : Session) :
    Decidable (Session.Fills layer name content before after) := by
  unfold Session.Fills
  infer_instance

namespace Render

variable {engine : Engine} {walker : Walker} {chain : Chain}

/-! ## Lines with one tag and lines with several -/

theorem isKeyword_include : IsKeyword "include".toList := by decide

/-- A line with one tag is replaced by the page. -/
theorem outcome_includeLine_line {t : Text} {tag : Tag}
    (h : Directive.includes.pattern t = some tag) (session : Session) :
    outcome (includeLine engine walker chain tag.line) session =
      (outcome (included engine walker chain (unquote tag.argument)) session).map fun p =>
        (tag.line.edit p.1, p.2) := by
  have hsource : Directive.includes.pattern (tag.source ++ []) = some tag := by
    rw [List.append_nil]
    exact Pattern.keyword_source isKeyword_include h
  have hcut : Pattern.cut (Directive.includes.pattern.scan tag.line.text) = ([], [(tag, [])]) := by
    have hscan := Pattern.scan_tag (Pattern.anchored_directive .includes) hsource
    rw [List.append_nil] at hscan
    rw [Tag.line, hscan]
    rfl
  rw [outcome_includeLine, hcut]
  simp only [splice]
  rw [outcome_bind]
  simp only [outcome_pure, Except.bind]
  rw [outcome_bind]
  cases outcome (included engine walker chain (unquote tag.argument)) session <;>
    simp [Except.bind, Except.map]

theorem outcome_mapM_concat {α β : Type} (f : α → Render β) (xs : List α) (x : α)
    (session : Session) :
    outcome ((xs ++ [x]).mapM f) session =
      (outcome (xs.mapM f) session).bind fun p =>
        (outcome (f x) p.2).map fun q => (p.1 ++ [q.1], q.2) := by
  rw [List.mapM_append, outcome_bind]
  cases outcome (xs.mapM f) session with
  | error e => rfl
  | ok p =>
    simp only [Except.bind, List.mapM_cons, List.mapM_nil, bind_assoc, pure_bind]
    rw [outcome_bind]
    cases outcome (f x) p.2 <;> rfl

/-- The inclusions of a line are those of lines with one tag each, the last tag first. -/
theorem outcome_splice_eq {tags : List (Tag × Text)}
    (h : ∀ tag ∈ tags.map Prod.fst, ∃ t, Directive.includes.pattern t = some tag)
    (session : Session) :
    outcome (splice engine walker chain tags) session =
      (outcome ((tags.map Prod.fst).reverse.mapM fun tag =>
          includeLine engine walker chain tag.line) session).map fun p =>
        ((List.zipWith (fun page (entry : Tag × Text) => page ++ entry.2)
          (p.1.reverse.map Line.text) tags).flatten, p.2) := by
  induction tags with
  | nil => rfl
  | cons entry rest ih =>
    obtain ⟨tag, gap⟩ := entry
    obtain ⟨t, ht⟩ := h tag (by simp)
    rw [splice, outcome_bind, ih fun tag hm => h tag (by simp [hm]), List.map_cons,
      List.reverse_cons, outcome_mapM_concat]
    cases outcome ((rest.map Prod.fst).reverse.mapM fun tag =>
      includeLine engine walker chain tag.line) session with
    | error e => rfl
    | ok p =>
      simp only [Except.map, Except.bind]
      rw [outcome_bind, outcome_includeLine_line ht]
      cases outcome (included engine walker chain (unquote tag.argument)) p.2 with
      | error e => rfl
      | ok q => simp [Except.map, Except.bind, Line.edit]

/-- The tags of a line with the text behind each of them. -/
theorem map_fst_cut_includes (t : Text) :
    (Pattern.cut (Directive.includes.pattern.scan t)).2.map Prod.fst =
      Directive.includes.pattern.tags t := Pattern.map_fst_cut _

theorem exists_of_mem_tags_includes {t : Text} {tag : Tag}
    (h : tag ∈ Directive.includes.pattern.tags t) :
    ∃ s, Directive.includes.pattern s = some tag := by
  obtain ⟨a, b, -, hb⟩ := Pattern.exists_of_mem_tags (Pattern.anchored_directive .includes) h
  exact ⟨_, hb⟩

/-- **A line with several inclusions** does what lines with one of them each do, the last one
first. -/
theorem outcome_includeLine_eq (line : Line) (session : Session) :
    outcome (includeLine engine walker chain line) session =
      (outcome ((Directive.includes.pattern.tags line.text).reverse.mapM fun tag =>
          includeLine engine walker chain tag.line) session).map fun p =>
        (line.edit (line.text.including (p.1.reverse.map Line.text)), p.2) := by
  have h : ∀ tag ∈ (Pattern.cut (Directive.includes.pattern.scan line.text)).2.map Prod.fst,
      ∃ t, Directive.includes.pattern t = some tag := by
    rw [map_fst_cut_includes]
    exact fun _ => exists_of_mem_tags_includes
  rw [outcome_includeLine, outcome_splice_eq h, map_fst_cut_includes]
  cases outcome ((Directive.includes.pattern.tags line.text).reverse.mapM fun tag =>
    includeLine engine walker chain tag.line) session <;> rfl

/-- The inclusions made from right to left fail with the first error that one of them comes to. -/
theorem outcome_mapM_reverse_eq_error_iff {α β : Type} {f : α → Render β} {xs : List α}
    {session : Session} {e : Error} :
    outcome (xs.reverse.mapM f) session = .error e ↔
      ∃ before x behind ys after, xs = before ++ x :: behind ∧
        outcome (behind.reverse.mapM f) session = .ok (ys, after) ∧
        outcome (f x) after = .error e := by
  induction xs with
  | nil =>
    constructor
    · intro h
      cases h
    · rintro ⟨before, x, behind, ys, after, h, -⟩
      exact absurd h (by simp)
  | cons x xs ih =>
    rw [List.reverse_cons, outcome_mapM_concat, Except.bind_eq_error_iff]
    constructor
    · rintro (h | ⟨p, hxs, hx⟩)
      · obtain ⟨before, y, behind, ys, after, rfl, hb, hy⟩ := ih.1 h
        exact ⟨x :: before, y, behind, ys, after, rfl, hb, hy⟩
      · exact ⟨[], x, xs, p.1, p.2, rfl, hxs, Except.map_eq_error_iff.1 hx⟩
    · rintro ⟨before, y, behind, ys, after, heq, hb, hy⟩
      cases before with
      | nil =>
        obtain ⟨rfl, rfl⟩ := List.cons.inj heq
        exact .inr ⟨_, hb, Except.map_eq_error_iff.2 hy⟩
      | cons _ before =>
        obtain ⟨rfl, rfl⟩ := List.cons.inj heq
        exact .inl (ih.2 ⟨before, y, behind, ys, after, rfl, hb, hy⟩)

/-! ## Several inclusions that fill one slot -/

/-- The inclusions of the tags, made from right to left, with what each of them does to a slot:
nothing, if it leaves the layer as it is, or it fills the slot with one of the contents. -/
inductive Includes (engine : Engine) (walker : Walker) (chain : Chain) (layer name : Text) :
    (tags : List Tag) → (contents : List Text) → (before after : Session) → Prop where
  | nil (session : Session) : Includes engine walker chain layer name [] [] session session
  | leaves {tag : Tag} {tags : List Tag} {contents : List Text} {before between after : Session}
    {line : Line} (hr : Includes engine walker chain layer name tags contents before between)
    (ho : outcome (includeLine engine walker chain tag.line) between = .ok (line, after))
    (hl : after.layers.get? layer = between.layers.get? layer) :
    Includes engine walker chain layer name (tag :: tags) contents before after
  | fills {tag : Tag} {tags : List Tag} {content : Text} {contents : List Text}
    {before between after : Session} {line : Line}
    (hr : Includes engine walker chain layer name tags contents before between)
    (ho : outcome (includeLine engine walker chain tag.line) between = .ok (line, after))
    (hf : Session.Fills layer name content between after) :
    Includes engine walker chain layer name (tag :: tags) (content :: contents) before after

namespace Includes

variable {layer name : Text} {tags : List Tag} {contents : List Text} {before after : Session}

theorem exists_outcome (h : Includes engine walker chain layer name tags contents before after) :
    ∃ lines, outcome (tags.reverse.mapM fun tag => includeLine engine walker chain tag.line) before =
      .ok (lines, after) := by
  have hstep : ∀ {tag tags before between after lines line},
      outcome (List.mapM (fun tag => includeLine engine walker chain tag.line) (List.reverse tags))
        before = .ok (lines, between) →
      outcome (includeLine engine walker chain (Tag.line tag)) between = .ok (line, after) →
      outcome (List.mapM (fun tag => includeLine engine walker chain tag.line)
        (List.reverse (tag :: tags))) before = .ok (lines ++ [line], after) := by
    intro tag tags before between after lines line hlines hline
    rw [List.reverse_cons, outcome_mapM_concat, hlines]
    simp [hline, Except.bind, Except.map]
  induction h with
  | nil session => exact ⟨[], rfl⟩
  | leaves _ ho _ ih | fills _ ho _ ih =>
    obtain ⟨lines, hlines⟩ := ih
    exact ⟨_, hstep hlines ho⟩

/-- **What the inclusions keep**: a slot that is filled again and again reads like one that was
filled once, with the content of the tag that stands first. -/
theorem refills (h : Includes engine walker chain layer name tags contents before after) {l : Layer}
    {slot : Slot} (hl : before.layers.get? layer = some l) (hs : l.slot? name = some slot) :
    ∃ l', after.layers.get? layer = some l' ∧ Layer.Refills name l l' ∧
      ∀ content ∈ contents.head?, Nesting.Alike l'.lines (l.fillSlot slot content).lines := by
  induction h with
  | nil session => exact ⟨l, hl, .refl hs, by simp⟩
  | leaves hr ho hkeep ih =>
    obtain ⟨l', hl', hrest⟩ := ih hl
    exact ⟨l', hkeep.trans hl', hrest⟩
  | fills hr ho hf ih =>
    obtain ⟨l', hl', hrefills, -⟩ := ih hl
    obtain ⟨l'', hl'', again, hagain, hafter⟩ := hf
    obtain rfl := Option.some.inj (hl'.symm.trans hl'')
    refine ⟨_, hafter, hrefills.fill hagain _, fun content hc => ?_⟩
    obtain rfl := Option.some.inj hc
    obtain ⟨first, slot', hfirst, hslot', halike⟩ := hrefills
    obtain rfl := Option.some.inj (hs.symm.trans hfirst)
    obtain rfl := Option.some.inj (hagain.symm.trans hslot')
    exact halike _

end Includes

/-! ## The order of inclusions -/

/-- **Inclusions are made from right to left.** A line with several of them does what lines with one
each do, the last one first. It fails with the error of the rightmost inclusion that fails, those
behind it being made. And of the contents that they put into one slot, only that of the inclusion
that stands first is shown. -/
theorem includeLine_right_to_left (engine : Engine) (walker : Walker) (chain : Chain) (line : Line)
    (session : Session) :
    outcome (includeLine engine walker chain line) session =
      (outcome ((Directive.includes.pattern.tags line.text).reverse.mapM fun tag =>
          includeLine engine walker chain tag.line) session).map (fun p =>
        (line.edit (line.text.including (p.1.reverse.map Line.text)), p.2)) ∧
    (∀ e, outcome (includeLine engine walker chain line) session = .error e ↔
      ∃ before tag behind lines after,
        Directive.includes.pattern.tags line.text = before ++ tag :: behind ∧
        outcome (behind.reverse.mapM fun tag => includeLine engine walker chain tag.line) session =
          .ok (lines, after) ∧
        outcome (includeLine engine walker chain tag.line) after = .error e) ∧
    ∀ layer name l slot, session.layers.get? layer = some l → l.slot? name = some slot →
      ∀ content contents after,
        Includes engine walker chain layer name (Directive.includes.pattern.tags line.text)
          (content :: contents) session after →
        ∃ line' l', outcome (includeLine engine walker chain line) session = .ok (line', after) ∧
          after.layers.get? layer = some l' ∧
          Nesting.Alike l'.lines (l.fillSlot slot content).lines := by
  have heq : outcome (includeLine engine walker chain line) session = _ :=
    outcome_includeLine_eq line session
  refine ⟨heq, fun e => ?_, fun layer name l slot hl hs content contents after h => ?_⟩
  · rw [heq, ← outcome_mapM_reverse_eq_error_iff]
    cases outcome ((Directive.includes.pattern.tags line.text).reverse.mapM fun tag =>
      includeLine engine walker chain tag.line) session <;> simp [Except.map]
  · obtain ⟨lines, hlines⟩ := h.exists_outcome
    obtain ⟨l', hl', -, halike⟩ := h.refills hl hs
    exact ⟨_, l', by rw [heq, hlines]; rfl, hl', halike content rfl⟩

/-- Two partial templates with a block of the same name. -/
def rivals : Engine where
  templates := [("includes/a".toList, "\x7b% block s %\x7dA\x7b% endblock %\x7d".toList),
    ("includes/b".toList, "\x7b% block s %\x7dB\x7b% endblock %\x7d".toList)]

/-- The tag that includes a partial template. -/
def includeTag (name : Text) : Tag :=
  ⟨"\x7b% include \"".toList ++ name ++ "\" %\x7d".toList, '"' :: (name ++ ['"'])⟩

/-- The line that includes both. -/
def meeting : Line := { text := (includeTag ['a']).source ++ (includeTag ['b']).source }

/-- The session in which the line is handled, with a parent that has a slot of that name. -/
def contested : Session where
  layers := ⟨[(parentLayer "p".toList, Layer.ofSource .parent
      ["[\x7b% block s %\x7dd\x7b% endblock %\x7d]".toList]), (mainName, ⟨.main, [meeting]⟩)]⟩

/-- The parent with the content of the first of the two. -/
def filled : Text := "[\x7b% block s %\x7dA\x7b% endblock %\x7d]".toList

theorem includeLine_right_to_left_rivals :
    ∃ after, Includes rivals (Render.walk rivals {} 3) [mainName] (parentLayer "p".toList)
        "s".toList (Directive.includes.pattern.tags meeting.text) ["A".toList, "B".toList]
        contested after ∧
      ∃ line' l', outcome (includeLine rivals (Render.walk rivals {} 3) [mainName] meeting)
          contested = .ok (line', after) ∧
        after.layers.get? (parentLayer "p".toList) = some l' ∧
        Nesting.outText l'.lines = filled := by
  have htags : Directive.includes.pattern.tags meeting.text = [includeTag ['a'], includeTag ['b']] :=
    by decide +kernel
  have hruns : ∃ p ∈ (outcome (includeLine rivals (Render.walk rivals {} 3) [mainName]
        (includeTag ['b']).line) contested).toOption,
      ∃ q ∈ (outcome (includeLine rivals (Render.walk rivals {} 3) [mainName]
        (includeTag ['a']).line) p.2).toOption,
        Session.Fills (parentLayer "p".toList) "s".toList "B".toList contested p.2 ∧
        Session.Fills (parentLayer "p".toList) "s".toList "A".toList p.2 q.2 := by
    decide +kernel
  have hok : ∀ {r : Except Error (Line × Session)} {p}, p ∈ r.toOption → r = .ok p := by
    intro r p h
    cases r with
    | error e => cases h
    | ok q => exact congrArg _ (Option.some.inj h)
  obtain ⟨p, hp, q, hq, hb, ha⟩ := hruns
  have h : Includes rivals (Render.walk rivals {} 3) [mainName] (parentLayer "p".toList)
      "s".toList [includeTag ['a'], includeTag ['b']] ["A".toList, "B".toList] contested q.2 :=
    .fills (.fills (.nil _) (hok hp) hb) (hok hq) ha
  rw [← htags] at h
  obtain ⟨l, slot, hl, hs, hshown⟩ : ∃ l slot,
      contested.layers.get? (parentLayer "p".toList) = some l ∧ l.slot? "s".toList = some slot ∧
        Nesting.outText (l.fillSlot slot "A".toList).lines = filled :=
    ⟨_, ⟨1, 3⟩, rfl, by decide +kernel, by decide +kernel⟩
  obtain ⟨line', l', hline, hl', halike⟩ :=
    (includeLine_right_to_left rivals (Render.walk rivals {} 3) [mainName] meeting contested).2.2
      _ _ _ _ hl hs _ _ _ h
  exact ⟨_, h, line', l', hline, hl', halike.outText.trans hshown⟩

end Render

end Stencil
