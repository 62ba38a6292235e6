import Stencil.Proofs.Inheritance.Override
import Stencil.Proofs.Nesting.Page

/-!
# Chains of templates

A template can extend another one, which can extend a third one, and so on up to a base that extends
nothing (`Descends`). What a template extends is written in its first line, so that a chain is
determined by the template it begins with (`Descends.length_eq`). No template comes twice in a
chain, then, and a chain has no more templates than the engine has characters
(`Descends.length_le`).

`overrides` says what a chain puts into the slots of its base: the blocks of each template, after
those of the templates before it have been put into their slots.
-/

namespace Stencil

/-! ## Templates that extend others -/

namespace Line

/-- **The line extends a template**: it names the parent, and shows nothing else. -/
structure Extends (parent : Text) (line : Line) : Prop where
  not_rendered : line.rendered = false
  opened : opened line.text = [.inherits]
  names : (Directive.inherits.find? line.text).map (fun tag => unquote tag.argument) = some parent
  blank : Text.isBlank (Directive.inherits.pattern.dropFirst line.text) = true

instance (parent : Text) (line : Line) : Decidable (line.Extends parent) :=
  decidable_of_iff (_ ∧ _ ∧ _ ∧ _)
    ⟨fun ⟨a, b, c, d⟩ => ⟨a, b, c, d⟩, fun ⟨a, b, c, d⟩ => ⟨a, b, c, d⟩⟩

/-- The line after the parent it names has been taken in. -/
def inherited (line : Line) : Line := line.edit (Directive.inherits.pattern.dropFirst line.text)

theorem Extends.parent_unique {line : Line} {p q : Text} (hp : line.Extends p)
    (hq : line.Extends q) : p = q :=
  Option.some.inj (hp.names.symm.trans hq.names)

/-- A line that extends a template opens no block. -/
theorem Extends.opensBlock {line : Line} {p : Text} (h : line.Extends p) (x : Text) :
    Layer.opensBlock x line = false :=
  Nesting.opensBlock_of_unopened (.inr (by simp [h.opened])) x

end Line

namespace Nesting

instance decidableOnlyBlocks : (n : Nesting) → Decidable n.OnlyBlocks
  | done => inferInstanceAs (Decidable True)
  | text line rest =>
    have := decidableOnlyBlocks rest
    inferInstanceAs (Decidable (Text.isBlank line.text = true ∧ rest.OnlyBlocks))
  | span d _ _ _ rest =>
    have := decidableOnlyBlocks rest
    inferInstanceAs (Decidable (d = .block ∧ rest.OnlyBlocks))

/-- A well-nested tree does not begin with a line that extends a template. -/
theorem not_extends_of_wellNested {n : Nesting} (hn : n.WellNested) {line : Line} {ls : List Line}
    (h : n.lines = line :: ls) (p : Text) : ¬ line.Extends p := by
  intro he
  cases n with
  | done => cases h
  | text l rest =>
    obtain ⟨rfl, -⟩ := List.cons.inj h
    rcases hn.1 with hr | ⟨ho, -⟩
    · rw [he.not_rendered] at hr
      cases hr
    · rw [he.opened] at ho
      cases ho
  | span d opening body closing rest =>
    obtain ⟨rfl, -⟩ := List.cons.inj h
    have ho := he.opened.symm.trans hn.1.opened
    obtain rfl : Directive.inherits = d := (List.cons.inj ho).1
    cases hasBody_of_closes hn.2.2.1

theorem onlyBlocks_fill {name content : Text} {n : Nesting} (h : n.OnlyBlocks) :
    (n.fill name content).OnlyBlocks := by
  induction n with
  | done => trivial
  | text line rest ih => exact ⟨h.1, ih h.2⟩
  | span d opening body closing rest ihb ihr =>
    rw [fill]
    split
    · exact h
    · split
      · exact h
      · exact ⟨h.1, ihr h.2⟩

theorem onlyBlocks_fillAll {n : Nesting} (h : n.OnlyBlocks) (contents : List (Text × Text)) :
    (n.fillAll contents).OnlyBlocks :=
  fillAll_induction (fun _ _ _ => onlyBlocks_fill) h contents

/-- **A tree can be filled** if its loop variables are kept apart from what they could be mistaken
for. -/
theorem fillable_of_keepsApart {context : Context} {n : Nesting}
    (hn : ∀ line ∈ n.lines, '\n' ∉ line.text) (hw : n.WellNested) (hkeys : context.HasWordKeys)
    (ha : n.KeepsApart context.loopKeys) (hl : n.LabelsApart) : n.Fillable context :=
  fun contents => sound_of_hygienic ha.keywords ha.keys hkeys (wellNested_fillAll hw contents)
    (fillAll_induction (fun _ _ _ => hygienic_fill) (hygienic_of_keepsApart hn ha hl) contents)

/-! ## What is left of a template -/

/-- Nothing that is left of a template is visible. -/
theorem isBlank_of_mem_left {n : Nesting} (h : n.OnlyBlocks) :
    ∀ line ∈ n.left, Text.isBlank line.text = true := by
  induction n with
  | done => simp [left]
  | text line rest ih =>
    intro l hl
    rcases List.mem_cons.1 hl with rfl | hl
    · exact h.1
    · exact ih h.2 l hl
  | span d opening body closing rest ihb ihr =>
    intro l hl
    simp only [left, consumed, List.cons_append, List.append_assoc, List.mem_cons, List.mem_append,
      List.mem_map, List.nil_append] at hl
    rcases hl with rfl | ⟨l, -, rfl⟩ | rfl | hl
    · rfl
    · rfl
    · rfl
    · exact ihr h.2 l hl

/-- What is left of a template does not depend on what its slots are filled with. -/
theorem alike_left_fill (name content : Text) (n : Nesting) :
    Alike (n.fill name content).left n.left := by
  induction n with
  | done => exact Alike.refl []
  | text line rest ih => exact ih.cons line
  | span d opening body closing rest ihb ihr =>
    rw [fill]
    split
    · rw [left, left]
      exact (alike_consumed (all_glued_filledBody body closing content) closing.glued_blank
        closing.glued_blank (.inl rfl)).append (Alike.refl rest.left)
    · split
      · rw [left, left]
        refine (alike_consumed ?_ closing.glued_blank closing.glued_blank (.inl rfl)).append
          (Alike.refl rest.left)
        rw [List.all_append, List.all_append, all_glued_fill]
      · exact (Alike.refl (consumed opening body closing.blank)).append ihr

theorem outText_left_fillAll (n : Nesting) (contents : List (Text × Text)) :
    outText (n.fillAll contents).left = outText n.left :=
  fillAll_induction (motive := fun m => outText m.left = outText n.left)
    (fun m name content h => (alike_left_fill name content m).outText.trans h) rfl contents

end Nesting

/-- **A template that extends another one**: the line that names the parent, and blocks between
blank lines. -/
structure Derived where
  /-- The template that is extended. -/
  parent : Text
  /-- The first line. -/
  extending : Line
  /-- The lines behind the first one. -/
  blocks : Nesting
  extends_parent : extending.Extends parent
  wellNested : blocks.WellNested
  onlyBlocks : blocks.OnlyBlocks

namespace Derived

/-- The lines of the template. -/
def lines (t : Derived) : List Line := t.extending :: t.blocks.lines

/-- The blank lines that are left when all blocks have been moved. -/
def leftover (t : Derived) : Text := Nesting.outText t.blocks.left

end Derived

/-! ## Chains -/

/-- **The chain of a template** with these lines: the template and those that it extends, one after
the other, and the base, which extends nothing. -/
inductive Descends (engine : Engine) : List Text → List Derived → Nesting → Prop where
  | base {source : List Text} {base : Nesting}
    (hn : (Layer.ofSource .main source).lines = base.lines) (hw : base.WellNested) :
    Descends engine source [] base
  | step {source parent : List Text} {t : Derived} {chain : List Derived} {base : Nesting}
    (hn : (Layer.ofSource .main source).lines = t.lines)
    (hl : engine.loadLines t.parent [] = .ok parent) (hd : Descends engine parent chain base) :
    Descends engine source (t :: chain) base

namespace Descends

variable {engine : Engine} {source : List Text} {chain : List Derived} {base : Nesting}

/-- The lines of the first template of a chain that come before its slots. -/
def head : List Derived → List Line
  | [] => []
  | t :: _ => [t.extending]

/-- The tree of the first template of a chain that holds its slots. -/
def slots (base : Nesting) : List Derived → Nesting
  | [] => base
  | t :: _ => t.blocks

theorem lines_eq (h : Descends engine source chain base) (kind : LayerKind) :
    (Layer.ofSource kind source).lines = head chain ++ (slots base chain).lines := by
  cases h with
  | base hn _ => exact hn
  | step hn _ _ => exact hn

theorem wellNested_slots (h : Descends engine source chain base) :
    (slots base chain).WellNested := by
  cases h with
  | base _ hw => exact hw
  | @step _ _ t => exact t.wellNested

theorem opensBlock_head (chain : List Derived) (x : Text) :
    ∀ line ∈ head chain, Layer.opensBlock x line = false := by
  cases chain with
  | nil => simp [head]
  | cons t chain =>
    intro line hl
    obtain rfl := List.mem_singleton.1 hl
    exact t.extends_parent.opensBlock x

/-- The bodies of all templates of a chain are nested no deeper than the engine has characters. -/
theorem height_le (h : Descends engine source chain base) {name : Text}
    (hl : engine.loadLines name [] = .ok source) :
    base.height ≤ engine.sourceSize ∧ ∀ t ∈ chain, t.blocks.height ≤ engine.sourceSize := by
  induction h generalizing name with
  | base hn hw =>
    have hsize := Engine.sum_length_ofSource_le hl .main
    rw [hn] at hsize
    exact ⟨Nat.le_trans (Nesting.height_le hw) hsize, by simp⟩
  | @step source parent t chain base hn hp hd ih =>
    obtain ⟨hb, hall⟩ := ih hp
    refine ⟨hb, fun t' ht' => ?_⟩
    rcases List.mem_cons.1 ht' with rfl | ht'
    · have hsize := Engine.sum_length_ofSource_le hl .main
      rw [hn, Derived.lines, List.map_cons, List.flatten_cons, List.length_append] at hsize
      have := Nesting.height_le t'.wellNested
      omega
    · exact hall t' ht'

/-- **A template has one chain.** -/
theorem length_eq {chain' : List Derived} {base' : Nesting} (h : Descends engine source chain base)
    (h' : Descends engine source chain' base') : chain.length = chain'.length := by
  induction h generalizing chain' base' with
  | base hn hw =>
    cases h' with
    | base => rfl
    | @step _ _ t _ _ hn' =>
      exact absurd t.extends_parent
        (Nesting.not_extends_of_wellNested hw (hn.symm.trans hn') t.parent)
  | @step source parent t chain base hn hl hd ih =>
    cases h' with
    | base hn' hw' =>
      exact absurd t.extends_parent
        (Nesting.not_extends_of_wellNested hw' (hn'.symm.trans hn) t.parent)
    | @step _ parent' t' chain' _ hn' hl' hd' =>
      obtain ⟨hline, -⟩ := List.cons.inj (hn.symm.trans hn')
      have hparent : t.parent = t'.parent :=
        t.extends_parent.parent_unique (hline ▸ t'.extends_parent)
      rw [← hparent, hl] at hl'
      obtain rfl := Except.ok.inj hl'
      rw [List.length_cons, List.length_cons, ih hd']

/-- The templates of a chain differ from each other. -/
theorem exists_templates (h : Descends engine source chain base) {name : Text}
    (hl : engine.loadLines name [] = .ok source) :
    ∃ templates : List (List Text), templates.length = chain.length ∧ templates.Nodup ∧
      ∀ lines ∈ templates, (∃ name, engine.loadLines name [] = .ok lines) ∧
        ∃ t rest base, Descends engine lines (t :: rest) base ∧ rest.length < chain.length := by
  induction h generalizing name with
  | base => exact ⟨[], rfl, List.nodup_nil, by simp⟩
  | @step source parent t chain base hn hp hd ih =>
    obtain ⟨templates, hlen, hnodup, hall⟩ := ih hp
    refine ⟨source :: templates, by simp [hlen], List.nodup_cons.2 ⟨fun hm => ?_, hnodup⟩, ?_⟩
    · -- the chain of the template would be as long as that of one behind it
      obtain ⟨-, t', rest, base', hd', hlt⟩ := hall source hm
      have := length_eq hd' (.step hn hp hd)
      simp only [List.length_cons] at this
      omega
    · intro lines hm
      rcases List.mem_cons.1 hm with rfl | hm
      · exact ⟨⟨name, hl⟩, t, chain, base, .step hn hp hd, by simp⟩
      · obtain ⟨hload, t', rest, base', hd', hlt⟩ := hall lines hm
        exact ⟨hload, t', rest, base', hd', by simp only [List.length_cons]; omega⟩

/-- **A chain is no longer** than the engine has characters. -/
theorem length_le (h : Descends engine source chain base) {name : Text}
    (hl : engine.loadLines name [] = .ok source) : chain.length ≤ engine.sourceSize := by
  obtain ⟨templates, hlen, hnodup, hall⟩ := h.exists_templates hl
  rw [← hlen]
  refine Engine.length_le_sourceSize hnodup fun lines hm => ?_
  obtain ⟨⟨name, hload⟩, t, rest, base', hd, -⟩ := hall lines hm
  refine ⟨?_, name, [], hload⟩
  rintro rfl
  cases hd with
  | step hn =>
    -- a template without text has no line that extends another one
    have hsub := Layer.texts_ofSource_sublist .main (splitLines [])
    rw [hn, Derived.lines, List.map_cons, List.flatten_cons] at hsub
    have htext : t.extending.text = [] :=
      (List.append_eq_nil_iff.1 (List.sublist_nil.1 hsub)).1
    have hopened := t.extends_parent.opened
    rw [htext] at hopened
    cases hopened

/-- **All templates of a chain can be filled** if their loop variables are kept apart. -/
theorem fillable {context : Context} (h : Descends engine source chain base)
    (hkeys : context.HasWordKeys)
    (hapart : ∀ n ∈ base :: chain.map Derived.blocks,
      n.KeepsApart context.loopKeys ∧ n.LabelsApart) {name : Text}
    (hl : engine.loadLines name [] = .ok source) :
    base.Fillable context ∧ ∀ t ∈ chain, t.blocks.Fillable context := by
  induction h generalizing name with
  | base hn hw =>
    obtain ⟨ha, hlabels⟩ := hapart _ List.mem_cons_self
    refine ⟨Nesting.fillable_of_keepsApart (fun line hline => ?_) hw hkeys ha hlabels, by simp⟩
    exact Engine.newline_not_mem_of_loadLines hl (hn ▸ hline)
  | @step source parent t chain base hn hp hd ih =>
    have hsub : ∀ n ∈ base :: chain.map Derived.blocks,
        n ∈ base :: (t :: chain).map Derived.blocks := by
      intro n hm
      rcases List.mem_cons.1 hm with rfl | hm
      · exact List.mem_cons_self
      · exact List.mem_cons_of_mem _ (List.mem_cons_of_mem _ hm)
    obtain ⟨hb, hall⟩ := ih (fun n hm => hapart n (hsub n hm)) hp
    refine ⟨hb, fun t' ht' => ?_⟩
    rcases List.mem_cons.1 ht' with rfl | ht'
    · obtain ⟨ha, hlabels⟩ := hapart t'.blocks (by simp)
      refine Nesting.fillable_of_keepsApart (fun line hline => ?_) t'.wellNested hkeys ha hlabels
      have hmem : line ∈ (Layer.ofSource .main source).lines := by
        rw [hn]
        exact List.mem_cons_of_mem _ hline
      exact Engine.newline_not_mem_of_loadLines hl hmem
    · exact hall t' ht'

end Descends

/-! ## What a chain puts into the slots of its base -/

/-- The contents that reach the base of a chain when `contents` is what the first template is filled
with. -/
def overrides (engine : Engine) (context : Context) :
    List Derived → List (Text × Text) → Except Error (List (Text × Text))
  | [], contents => .ok contents
  | t :: chain, contents => do
    let contents ← (t.blocks.fillAll contents).contents engine context
    overrides engine context chain contents

end Stencil
