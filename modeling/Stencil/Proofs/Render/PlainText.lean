import Stencil.Proofs.Inheritance.Fill
import Stencil.Proofs.Nesting.Page
import Stencil.Proofs.Tag.Structural

/-!
# Templates without tags

A template on no line of which a tag stands is cut into its lines, none of them is changed, and they
are joined again. `render_plainText` says that nothing is added or lost on this way: the page is the
source, with all of its blank lines and whatever stands at their ends. The one exception is a source
that holds nothing but blanks. Its layer shows nothing, so it goes off the stack, and the page is
empty (`render_ne_source`).
-/

namespace Stencil

/-- No directive occurs in the text, and no tag that opens or closes a body. -/
def Text.IsPlain (t : Text) : Prop :=
  (∀ d ∈ Directive.order, d.occursIn t = false) ∧ Pattern.structural.occursIn t = false

instance (t : Text) : Decidable t.IsPlain := inferInstanceAs (Decidable (_ ∧ _))

theorem Directive.mem_order (d : Directive) : d ∈ order := by cases d <;> decide

/-! ## Lines without tags -/

namespace Text.IsPlain

variable {t : Text}

theorem occursIn (h : t.IsPlain) (d : Directive) : d.occursIn t = false := h.1 d d.mem_order

theorem closesIn (h : t.IsPlain) (hn : '\n' ∉ t) (d : Directive) : d.closesIn t = false := by
  cases hc : d.closesIn t with
  | false => rfl
  | true => exact absurd (d.occursIn_structural_of_closesIn hn hc) (by simp [h.2])

/-- A line of plain text neither opens nor closes anything. -/
theorem isPlain_line (h : t.IsPlain) (hn : '\n' ∉ t) : Line.IsPlain { text := t } := by
  refine .inr ⟨List.filter_eq_nil_iff.2 fun d _ => ?_, List.filter_eq_nil_iff.2 fun d _ => ?_⟩
  · simp [h.occursIn d]
  · simp [h.closesIn hn d]

theorem rewrite_line (h : t.IsPlain) (engine : Engine) (context : Context) :
    Line.rewrite engine context { text := t } = { text := t } := by
  simp [Line.rewrite, h.occursIn]

theorem linesOfSource (h : t.IsPlain) : Layer.linesOfSource t = [{ text := t }] := by
  rw [Layer.linesOfSource, splitStructural_of_not_occursIn h.2]
  rfl

end Text.IsPlain

/-! ## Joining the lines -/

namespace Text

@[simp] theorem isBlank_append (s t : Text) : isBlank (s ++ t) = (isBlank s && isBlank t) :=
  List.all_append

/-- Texts that are joined by a blank show something if one of them does. -/
theorem isBlank_join {sep : Char} (hs : Stencil.isBlank sep = true) (ts : List Text) :
    isBlank (join [sep] ts) = ts.all isBlank := by
  induction ts with
  | nil => rfl
  | cons t ts ih =>
    cases ts with
    | nil => simp [join]
    | cons u us =>
      have hsep : isBlank (sep :: join [sep] (u :: us)) = isBlank (join [sep] (u :: us)) := by
        simp [isBlank, hs]
      rw [join_cons (by simp), isBlank_append, hsep, ih]
      rfl

end Text

/-- Lines that nothing was done to are written one below the other. -/
theorem Layer.renderFrom_map_text (ts : List Text) :
    renderFrom false false (ts.map fun t => { text := t }) = Text.join ['\n'] ts := by
  have hplain : ∀ line ∈ ts.map (fun t => ({ text := t } : Line)),
      line.discarded = false ∧ line.glued = false := by
    intro line hl
    obtain ⟨t, -, rfl⟩ := List.mem_map.1 hl
    exact ⟨rfl, rfl⟩
  rw [renderFrom_of_unglued fun line hl _ => (hplain line hl).2, List.filter_eq_self.2, List.map_map]
  · exact congrArg _ (List.map_id ts)
  · intro line hl
    simp [(hplain line hl).1]

/-! ## The page -/

theorem Nesting.sound_ofLines {context : Context} {ls : List Line}
    (h : ∀ line ∈ ls, line.IsPlain) : (ofLines ls).Sound context := by
  induction ls with
  | nil => exact .done
  | cons line ls ih => exact .text (h line (by simp)) (ih fun l hl => h l (List.mem_cons_of_mem _ hl))

namespace Engine

variable {engine : Engine} {context : Context}

/-- **A template without tags renders to its source**, unless the source holds nothing but blanks;
then the page is empty. -/
theorem render_plainText {name source : Text}
    (hload : engine.loadLines name [] = .ok (splitLines source)) (hreturn : '\r' ∉ source)
    (hplain : ∀ line ∈ splitLines source, line.IsPlain) :
    engine.render name context = .ok source.shown := by
  have hsplit : splitLines source = Text.splitOn '\n' source := by
    unfold splitLines
    rw [List.filter_eq_self.2]
    intro c hc
    simpa using fun e : c = '\r' => hreturn (e ▸ hc)
  have hnewline : ∀ line ∈ splitLines source, '\n' ∉ line := by
    intro line hl
    rw [hsplit] at hl
    exact Text.not_mem_of_mem_splitOn hl
  have hjoin : Text.join ['\n'] (splitLines source) = source := by
    rw [hsplit, Text.join_splitOn]
  -- every line of the source is a line of the layer, with nothing done to it
  let ls : List Line := (splitLines source).map fun t => { text := t }
  have hlines : (Layer.ofSource .main (splitLines source)).lines = (Nesting.ofLines ls).lines := by
    rw [Nesting.lines_ofLines]
    show (splitLines source).flatMap Layer.linesOfSource = _
    rw [List.flatMap_congr fun t ht => (hplain t ht).linesOfSource]
    exact List.map_eq_flatMap.symm
  have hpl : ∀ line ∈ ls, line.IsPlain := by
    intro line hl
    obtain ⟨t, ht, rfl⟩ := List.mem_map.1 hl
    exact (hplain t ht).isPlain_line (hnewline t ht)
  have hrewrite : ∀ line ∈ ls, line.rewrite engine context = line := by
    intro line hl
    obtain ⟨t, ht, rfl⟩ := List.mem_map.1 hl
    exact (hplain t ht).rewrite_line engine context
  rw [render_eq_page_of_sound hload hlines (Nesting.wellNested_ofLines hpl)
    (Nesting.sound_ofLines hpl), Nesting.page, Nesting.render_ofLines hrewrite]
  have hvisible : (ls.any fun line => !Text.isBlank line.text) = !Text.isBlank source := by
    conv_rhs => rw [← hjoin, Text.isBlank_join (by decide)]
    simp [ls, List.any_map, Function.comp_def, List.not_all_eq_any_not]
  show Except.ok (if ls.any _ then Nesting.outText ls else []) = _
  rw [hvisible, Nesting.outText, Layer.renderFrom_map_text, hjoin, Text.shown]
  cases Text.isBlank source <;> rfl

/-- Two paragraphs, indented and with blank lines around them. -/
def paragraphs : Text := "\n  one  \n\n\n\ttwo 100% { }\n \n".toList

theorem render_paragraphs :
    (addTemplate {} mainName paragraphs).loadLines mainName [] = .ok (splitLines paragraphs) ∧
      '\r' ∉ paragraphs ∧ (∀ line ∈ splitLines paragraphs, line.IsPlain) ∧
      (addTemplate {} mainName paragraphs).render mainName {} = .ok paragraphs := by
  have hload : (addTemplate {} mainName paragraphs).loadLines mainName [] =
      .ok (splitLines paragraphs) := by decide +kernel
  have hreturn : '\r' ∉ paragraphs := by decide +kernel
  have hplain : ∀ line ∈ splitLines paragraphs, line.IsPlain := by decide +kernel
  have hshown : paragraphs.shown = paragraphs := by decide +kernel
  refine ⟨hload, hreturn, hplain, ?_⟩
  rw [render_plainText hload hreturn hplain, hshown]

/-- **A source of blanks is not kept**: two empty lines render to none. -/
theorem render_ne_source :
    (addTemplate {} mainName ['\n']).loadLines mainName [] = .ok (splitLines ['\n']) ∧
      '\r' ∉ ['\n'] ∧ (∀ line ∈ splitLines ['\n'], line.IsPlain) ∧
      (addTemplate {} mainName ['\n']).render mainName {} ≠ .ok ['\n'] := by
  decide +kernel

end Engine

end Stencil
