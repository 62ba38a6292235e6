import Stencil.Proofs.Inheritance.Slot
import Stencil.Proofs.Layer.Output
import Stencil.Proofs.Nesting.Hygiene
import Stencil.Proofs.Nesting.Walk

/-!
# Trees with filled slots

Filling a slot keeps what is known of a tree: it stays well nested, its bodies are nested no deeper,
and its loop variables are kept apart as before. `Nesting.Fillable` says of a tree that it is sound
whatever its slots are filled with.

Two outputs are `Alike` if they read the same wherever they stand. That is what can be said of
lines that differ in how many of them show nothing.
-/

namespace Stencil

/-- What is shown of a content: nothing, if nothing of it is visible. -/
def Text.shown (t : Text) : Text := if Text.isBlank t then [] else t

@[simp] theorem Text.shown_shown (t : Text) : t.shown.shown = t.shown := by
  unfold shown
  cases h : isBlank t <;> simp [h]

namespace Nesting

/-! ## Outputs that read the same -/

/-- Two outputs that read the same, whatever comes before them and behind them. -/
def Alike (out out' : List Line) : Prop :=
  ∀ started broken tail, Layer.renderFrom started broken (out ++ tail) =
    Layer.renderFrom started broken (out' ++ tail)

theorem Alike.refl (out : List Line) : Alike out out := fun _ _ _ => rfl

theorem Alike.trans {out out' out'' : List Line} (h : Alike out out') (h' : Alike out' out'') :
    Alike out out'' := fun started broken tail => (h started broken tail).trans (h' _ _ _)

theorem renderFrom_append_congr {ls ls' : List Line}
    (h : ∀ started broken, Layer.renderFrom started broken ls =
      Layer.renderFrom started broken ls') (before : List Line) (started broken : Bool) :
    Layer.renderFrom started broken (before ++ ls) =
      Layer.renderFrom started broken (before ++ ls') := by
  induction before generalizing started broken with
  | nil => exact h started broken
  | cons line before ih => simp only [List.cons_append, Layer.renderFrom, ih]

theorem Alike.append {out out' behind behind' : List Line} (h : Alike out out')
    (hb : Alike behind behind') : Alike (out ++ behind) (out' ++ behind') := by
  intro started broken tail
  rw [List.append_assoc, List.append_assoc, h started broken (behind ++ tail)]
  exact renderFrom_append_congr (fun s b => hb s b tail) out' started broken

theorem Alike.cons (line : Line) {out out' : List Line} (h : Alike out out') :
    Alike (line :: out) (line :: out') := (Alike.refl [line]).append h

theorem Alike.outText {out out' : List Line} (h : Alike out out') :
    Nesting.outText out = Nesting.outText out' := by
  have := h false false []
  rwa [List.append_nil, List.append_nil] at this

/-- Outputs of which the same is left without their discarded lines. -/
theorem alike_of_cleanFrom {out out' : List Line} (h : ∀ dropped tail,
    Layer.cleanFrom dropped (out ++ tail) = Layer.cleanFrom dropped (out' ++ tail)) :
    Alike out out' := by
  intro started broken tail
  have hrender := Layer.renderFrom_cleanFrom started broken false
  simp only [Bool.or_false] at hrender
  rw [← hrender (out ++ tail), h, hrender]

/-- Two spans of which nothing is left but their closing lines read the same if these do. -/
theorem alike_consumed {opening closing line line' : Line} {body body' : Nesting}
    (hglued : (body.lines ++ [closing]).all Line.glued = (body'.lines ++ [closing]).all Line.glued)
    (hl : line.glued = closing.glued) (hl' : line'.glued = closing.glued)
    (h : line = line' ∨ line.discarded = true ∧ line'.discarded = true) :
    Alike (consumed opening body line) (consumed opening body' line') := by
  have hdiscarded : ∀ body : Nesting, ∀ l ∈ opening.blank :: body.lines.map Line.blank,
      l.discarded = true := by
    intro body l hm
    rcases List.mem_cons.1 hm with rfl | hm
    · rfl
    · obtain ⟨l, -, rfl⟩ := List.mem_map.1 hm
      rfl
  have hall : ∀ body : Nesting, (opening.blank :: body.lines.map Line.blank).all Line.glued =
      (opening.glued && body.lines.all Line.glued) := by
    intro body
    rw [List.all_cons, List.all_map]
    rfl
  intro started broken tail
  have hsplit : ∀ (body : Nesting) (line : Line), consumed opening body line ++ tail =
      (opening.blank :: body.lines.map Line.blank) ++ line :: tail := by
    intro body line
    simp [consumed]
  rw [hsplit, hsplit, Layer.renderFrom_discarded (hdiscarded body),
    Layer.renderFrom_discarded (hdiscarded body'), hall, hall]
  -- the closing line takes part in the line ends, too
  have hbroken : (broken || !(opening.glued && body.lines.all Line.glued) || !closing.glued) =
      (broken || !(opening.glued && body'.lines.all Line.glued) || !closing.glued) := by
    rw [List.all_append, List.all_append] at hglued
    simp only [List.all_cons, List.all_nil, Bool.and_true] at hglued
    revert hglued
    generalize body.lines.all Line.glued = a
    generalize body'.lines.all Line.glued = b
    cases a <;> cases b <;> cases closing.glued <;> simp
  rcases h with rfl | ⟨hd, hd'⟩
  · rw [Layer.renderFrom, Layer.renderFrom, hl, hbroken]
  · rw [Layer.renderFrom, Layer.renderFrom, hl, hl', hbroken, hd, hd']
    rfl

/-! ## What filling keeps -/

section Fill

variable {name content : Text} {n : Nesting}

theorem isPlain_blank (line : Line) : line.blank.IsPlain := .inr ⟨rfl, rfl⟩

/-- The lines of the body of a block that is filled. -/
theorem mem_filledBody {body : Nesting} {closing line : Line}
    (h : line ∈ (filledBody body closing content).lines) :
    (∃ l : Line, line = l.blank) ∨ line.rendered = true := by
  rw [filledBody, lines_ofLines, List.mem_append, List.mem_singleton] at h
  rcases h with h | rfl
  · obtain ⟨l, -, rfl⟩ := List.mem_map.1 h
    exact .inl ⟨l, rfl⟩
  · exact .inr rfl

theorem wellNested_ofLines {ls : List Line} (h : ∀ line ∈ ls, line.IsPlain) :
    (ofLines ls).WellNested := by
  induction ls with
  | nil => trivial
  | cons line ls ih => exact ⟨h line (by simp), ih fun l hl => h l (List.mem_cons_of_mem _ hl)⟩

theorem wellNested_filledBody (body : Nesting) (closing : Line) :
    (filledBody body closing content).WellNested := by
  refine wellNested_ofLines fun line hl => ?_
  rcases mem_filledBody (by rw [filledBody, lines_ofLines]; exact hl) with ⟨l, rfl⟩ | hr
  · exact isPlain_blank l
  · exact .inl hr

/-- **A filled tree is well nested.** -/
theorem wellNested_fill (hn : n.WellNested) : (n.fill name content).WellNested := by
  induction n with
  | done => trivial
  | text line rest ih => exact ⟨hn.1, ih hn.2⟩
  | span d opening body closing rest ihb ihr =>
    obtain ⟨ho, hb, hc, hr⟩ := hn
    rw [fill]
    split
    · exact ⟨ho, wellNested_filledBody body closing, hc, hr⟩
    · split
      · exact ⟨ho, ihb hb, hc, hr⟩
      · exact ⟨ho, hb, hc, ihr hr⟩

theorem height_ofLines (ls : List Line) : (ofLines ls).height = 0 := by
  induction ls with
  | nil => rfl
  | cons line ls ih => exact ih

/-- Filling nests bodies no deeper. -/
theorem height_fill_le : (n.fill name content).height ≤ n.height := by
  induction n with
  | done => exact Nat.le_refl _
  | text line rest ih => exact ih
  | span d opening body closing rest ihb ihr =>
    rw [fill]
    split
    · simp only [height, filledBody, height_ofLines]
      omega
    · split <;> simp only [height] <;> omega

/-- Filling makes no new blocks. -/
theorem count_names_fill_le (x : Text) : (n.fill name content).names.count x ≤ n.names.count x := by
  induction n with
  | done => exact Nat.le_refl _
  | text line rest ih => exact ih
  | span d opening body closing rest ihb ihr =>
    rw [fill]
    split
    · simp [names, filledBody]
    · split <;> simp only [names, List.count_append] <;> omega

theorem isHygienic_blank (V : List Text) (line : Line) : line.blank.IsHygienic V :=
  ⟨by simp [Line.blank], rfl, by simp [Line.blank, Pattern.tags]⟩

/-- **Loop variables stay kept apart.** The content itself is finished output. -/
theorem hygienic_fill {V : List Text} (hn : n.Hygienic V) : (n.fill name content).Hygienic V := by
  have hlines : ∀ ls : List Line, (∀ line ∈ ls, line.rendered = false → line.IsHygienic V) →
      (ofLines ls).Hygienic V := by
    intro ls
    induction ls with
    | nil => intro _; trivial
    | cons line ls ih =>
      intro h
      exact ⟨h line (by simp), ih fun l hl => h l (List.mem_cons_of_mem _ hl)⟩
  induction n with
  | done => trivial
  | text line rest ih => exact ⟨hn.1, ih hn.2⟩
  | span d opening body closing rest ihb ihr =>
    obtain ⟨ho, hh, hb, hc, hp, hr⟩ := hn
    rw [fill]
    split
    · refine ⟨ho, hh, hlines _ fun line hl hrendered => ?_, hc, hp, hr⟩
      rcases mem_filledBody (by rw [filledBody, lines_ofLines]; exact hl) with ⟨l, rfl⟩ | h
      · exact isHygienic_blank V l
      · rw [h] at hrendered
        cases hrendered
    · split
      · exact ⟨ho, hh, ihb hb, hc, hp, hr⟩
      · exact ⟨ho, hh, hb, hc, hp, ihr hr⟩

end Fill

/-! ## Filling one slot after the other -/

/-- The tree with slots filled one after the other. -/
def fillAll (n : Nesting) (contents : List (Text × Text)) : Nesting :=
  contents.foldl (fun n entry => n.fill entry.1 entry.2) n

@[simp] theorem fillAll_nil (n : Nesting) : n.fillAll [] = n := rfl

@[simp] theorem fillAll_cons (n : Nesting) (entry : Text × Text) (contents : List (Text × Text)) :
    n.fillAll (entry :: contents) = (n.fill entry.1 entry.2).fillAll contents := rfl

theorem fillAll_append (n : Nesting) (contents contents' : List (Text × Text)) :
    n.fillAll (contents ++ contents') = (n.fillAll contents).fillAll contents' :=
  List.foldl_append

/-- What every fill keeps, filling one slot after the other keeps. -/
theorem fillAll_induction {motive : Nesting → Prop}
    (fill : ∀ n name content, motive n → motive (n.fill name content)) {n : Nesting}
    (h : motive n) (contents : List (Text × Text)) : motive (n.fillAll contents) := by
  induction contents generalizing n with
  | nil => exact h
  | cons entry contents ih => exact ih (fill n entry.1 entry.2 h)

theorem wellNested_fillAll {n : Nesting} (h : n.WellNested) (contents : List (Text × Text)) :
    (n.fillAll contents).WellNested :=
  fillAll_induction (fun _ _ _ => wellNested_fill) h contents

theorem height_fillAll_le (n : Nesting) (contents : List (Text × Text)) :
    (n.fillAll contents).height ≤ n.height :=
  fillAll_induction (motive := fun m => m.height ≤ n.height)
    (fun _ _ _ h => Nat.le_trans height_fill_le h) (Nat.le_refl _) contents

/-- **A tree that is sound** whatever its slots are filled with. -/
def Fillable (context : Context) (n : Nesting) : Prop :=
  ∀ contents, (n.fillAll contents).Sound context

/-- The tree has no loops. -/
def LoopFree : Nesting → Prop
  | done => True
  | text _ rest => rest.LoopFree
  | span d _ body _ rest => d ≠ .loop ∧ body.LoopFree ∧ rest.LoopFree

instance decidableLoopFree : (n : Nesting) → Decidable n.LoopFree
  | done => inferInstanceAs (Decidable True)
  | text _ rest => decidableLoopFree rest
  | span d _ body _ rest =>
    have := decidableLoopFree body
    have := decidableLoopFree rest
    inferInstanceAs (Decidable (d ≠ .loop ∧ body.LoopFree ∧ rest.LoopFree))

theorem loopFree_ofLines (ls : List Line) : (ofLines ls).LoopFree := by
  induction ls with
  | nil => trivial
  | cons line ls ih => exact ih

theorem loopFree_fill {name content : Text} {n : Nesting} (h : n.LoopFree) :
    (n.fill name content).LoopFree := by
  induction n with
  | done => trivial
  | text line rest ih => exact ih h
  | span d opening body closing rest ihb ihr =>
    obtain ⟨hd, hb, hr⟩ := h
    rw [fill]
    split
    · exact ⟨hd, loopFree_ofLines _, hr⟩
    · split
      · exact ⟨hd, ihb hb, hr⟩
      · exact ⟨hd, hb, ihr hr⟩

theorem sound_of_loopFree {context : Context} {n : Nesting} (hw : n.WellNested)
    (hl : n.LoopFree) : n.Sound context := by
  induction n with
  | done => exact .done
  | text line rest ih => exact .text hw.1 (ih hw.2 hl)
  | span d opening body closing rest ihb ihr =>
    obtain ⟨ho, hb, hc, hr⟩ := hw
    obtain ⟨hd, hlb, hlr⟩ := hl
    exact .span ho hb hc (fun _ => ihb hb hlb) (fun h => absurd h hd) (ihr hr hlr)

theorem fillable_of_loopFree {context : Context} {n : Nesting} (hw : n.WellNested)
    (hl : n.LoopFree) : n.Fillable context := fun contents =>
  sound_of_loopFree (wellNested_fillAll hw contents)
    (fillAll_induction (fun _ _ _ => loopFree_fill) hl contents)

/-! ## Rendering filled trees -/

section Render

variable {engine : Engine} {context : Context}

theorem rewrite_rendered {line : Line} (h : line.rendered = true) :
    line.rewrite engine context = line := by
  simp [Line.rewrite, h]

theorem rewrite_blank (line : Line) : line.blank.rewrite engine context = line.blank := rfl

/-- Lines of text that nothing changes render to themselves. -/
theorem render_ofLines {ls : List Line} (h : ∀ line ∈ ls, line.rewrite engine context = line)
    (replaced? : Text → Option Text) :
    (ofLines ls).render engine context replaced? = .ok ls := by
  induction ls with
  | nil => exact render_done
  | cons line ls ih =>
    rw [ofLines, render_text, ih fun l hl => h l (List.mem_cons_of_mem _ hl), h line (by simp)]
    rfl

/-- **The body of a filled slot** renders to the content. -/
theorem render_filledBody (body : Nesting) (closing : Line) (content : Text)
    (replaced? : Text → Option Text) :
    (filledBody body closing content).render engine context replaced? =
      .ok (filledBody body closing content).lines := by
  have hline : ∀ line ∈ (filledBody body closing content).lines,
      line.rewrite engine context = line := by
    intro line hl
    rcases mem_filledBody hl with ⟨l, rfl⟩ | hr
    · exact rewrite_blank l
    · exact rewrite_rendered hr
  have h := render_ofLines hline replaced?
  rw [filledBody, lines_ofLines] at h ⊢
  exact h

theorem outText_filledBody (body : Nesting) (closing : Line) (content : Text) :
    outText (filledBody body closing content).lines = content.shown := by
  have hblank : ∀ line ∈ body.lines.map Line.blank, line.discarded = true := by
    intro line hl
    obtain ⟨l, -, rfl⟩ := List.mem_map.1 hl
    rfl
  rw [filledBody, lines_ofLines, outText, Layer.renderFrom_discarded hblank, Layer.renderFrom,
    contentLine, Text.shown]
  simp [Line.discarded, Line.fill, Layer.renderFrom]

theorem all_glued_filledBody (body : Nesting) (closing : Line) (content : Text) :
    ((filledBody body closing content).lines ++ [closing]).all Line.glued =
      (body.lines ++ [closing]).all Line.glued := by
  have hmap : (body.lines.map Line.blank).all Line.glued = body.lines.all Line.glued := by
    rw [List.all_map]
    rfl
  rw [filledBody, lines_ofLines]
  simp only [List.all_append, hmap, contentLine, List.all_cons, List.all_nil, Bool.and_true,
    Line.glued_fill]
  cases body.lines with
  | nil => simp
  | cons line ls =>
    simp only [List.cons_append, List.head?_cons, Option.map_some, Option.getD_some, List.all_cons]
    cases line.glued <;> simp

/-- Filling leaves the line ends between the lines as they are. -/
theorem all_glued_fill (name content : Text) (n : Nesting) :
    (n.fill name content).lines.all Line.glued = n.lines.all Line.glued := by
  induction n with
  | done => rfl
  | text line rest ih => rw [fill, lines, lines, List.all_cons, List.all_cons, ih]
  | span d opening body closing rest ihb ihr =>
    have hassoc : ∀ body rest : Nesting,
        (span d opening body closing rest).lines.all Line.glued =
          (opening.glued && (body.lines ++ [closing]).all Line.glued &&
            rest.lines.all Line.glued) := by
      intro body rest
      simp [lines, Bool.and_assoc]
    rw [fill]
    split
    · rw [hassoc, hassoc, all_glued_filledBody]
    · split
      · rw [hassoc, hassoc, List.all_append, List.all_append, ihb]
      · rw [hassoc, hassoc, ihr]

end Render

end Nesting

end Stencil
