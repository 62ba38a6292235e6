import Stencil.Proofs.Inheritance.Chain
import Stencil.Proofs.Inheritance.Refill
import Stencil.Proofs.Render.Footprint
import Stencil.Proofs.Tag.Span

/-!
# Templates that only redefine blocks

A template redefines blocks and does nothing else if it names its parent and, outside of blocks, has
only blank lines besides (`Layer.Redefines`). What is inside its blocks does not matter, and so it
goes on to redefine blocks when slots of it are filled (`redefines_of_fills`).

The blank lines outside of its blocks (`Layer.outside`) are all that is left of such a template.
Each of them is a whole line of the source, so that the template leaves the line ends between them
and the blanks on them (`Engine.spacing`).
-/

namespace Stencil

namespace Line

/-- The number of blocks that are open behind the line, if `depth` are open before it. Where none is
open, none can be closed. -/
def spanDepth (depth : Nat) (line : Line) : Nat :=
  if depth = 0 then (line.opensBody .block).toNat else line.depthBehind .block depth

/-- **The line begins a block** in its turn: no directive that takes effect before occurs on it. -/
structure BeginsBlock (line : Line) : Prop where
  not_rendered : line.rendered = false
  inherits : Directive.inherits.occursIn line.text = false
  includes : Directive.includes.occursIn line.text = false
  block : Directive.block.occursIn line.text = true

instance (line : Line) : Decidable line.BeginsBlock :=
  decidable_of_iff (_ ∧ _ ∧ _ ∧ _)
    ⟨fun ⟨a, b, c, d⟩ => ⟨a, b, c, d⟩, fun ⟨a, b, c, d⟩ => ⟨a, b, c, d⟩⟩

/-- **The line names a parent**, and shows nothing besides the tag that names it. -/
structure NamesParent (line : Line) : Prop where
  not_rendered : line.rendered = false
  names : (Directive.inherits.find? line.text).isSome = true
  blank : Text.isBlank (Directive.inherits.pattern.dropFirst line.text) = true
  opens : Directive.block.occursIn line.text = false

instance (line : Line) : Decidable line.NamesParent :=
  decidable_of_iff (_ ∧ _ ∧ _ ∧ _)
    ⟨fun ⟨a, b, c, d⟩ => ⟨a, b, c, d⟩, fun ⟨a, b, c, d⟩ => ⟨a, b, c, d⟩⟩

variable {line : Line} {depth : Nat}

theorem opensBody_of_isBlank (h : Text.isBlank line.text = true) (d : Directive) :
    line.opensBody d = false := by
  simp [opensBody, Directive.occursIn_of_isBlank h]

theorem spanDepth_of_isBlank (h : Text.isBlank line.text = true) : line.spanDepth 0 = 0 := by
  simp [spanDepth, opensBody_of_isBlank h]

theorem spanDepth_of_pos (h : 0 < depth) : line.spanDepth depth = line.depthBehind .block depth :=
  if_neg h.ne'

/-- A line that opens a body shows the tag that opens it. -/
theorem not_isBlank_of_opensBody {d : Directive} (h : line.opensBody d = true) :
    Text.isBlank line.text = false := by
  rw [← Bool.not_eq_true]
  intro hb
  rw [opensBody_of_isBlank hb] at h
  cases h

theorem BeginsBlock.opensBody (h : line.BeginsBlock) : line.opensBody .block = true := by
  rw [Line.opensBody, h.not_rendered, h.block]
  rfl

theorem BeginsBlock.not_isBlank (h : line.BeginsBlock) : Text.isBlank line.text = false :=
  not_isBlank_of_opensBody h.opensBody

theorem BeginsBlock.spanDepth_eq (h : line.BeginsBlock) : line.spanDepth 0 = 1 := by
  rw [spanDepth, if_pos rfl, h.opensBody]
  rfl

theorem NamesParent.not_isBlank (h : line.NamesParent) : Text.isBlank line.text = false := by
  rw [← Bool.not_eq_true]
  intro hb
  have hfind := Pattern.isSome_find? Directive.inherits.pattern line.text
  have hnames := h.names
  rw [Directive.find?, hfind] at hnames
  exact absurd (Directive.occursIn_of_isBlank hb .inherits) (by rw [Directive.occursIn, hnames]; simp)

theorem NamesParent.opensBody (h : line.NamesParent) : line.opensBody .block = false := by
  rw [Line.opensBody, h.opens, Bool.and_false]

/-- The tag that opens a block leaves one open. -/
theorem spanDepth_pos_of_opensBody (h : line.opensBody .block = true) (depth : Nat) :
    0 < line.spanDepth depth := by
  have hone := (line.closesBody .block).toNat_le
  unfold spanDepth depthBehind
  rw [h, Bool.toNat_true]
  split <;> omega

end Line

namespace Layer

/-- **Nothing but blocks**, and blank lines between them, in lines before which `depth` blocks are
open. -/
def OnlyBlocks : (depth : Nat) → List Line → Prop
  | _, [] => True
  | depth, line :: rest =>
    (depth = 0 → Text.isBlank line.text = true ∨ line.BeginsBlock) ∧
      OnlyBlocks (line.spanDepth depth) rest

/-- The blank lines outside of blocks. -/
def outside : (depth : Nat) → List Line → List Line
  | _, [] => []
  | depth, line :: rest =>
    if depth = 0 ∧ Text.isBlank line.text = true then line :: outside 0 rest
    else outside (line.spanDepth depth) rest

/-- **The lines redefine blocks** and do nothing else: behind the tag that names the parent there is
nothing but blocks, and before it there is nothing visible. -/
def Redefines : List Line → Prop
  | [] => False
  | line :: rest =>
    (Text.isBlank line.text = true ∧ Redefines rest) ∨ (line.NamesParent ∧ OnlyBlocks 0 rest)

instance decidableOnlyBlocks : (depth : Nat) → (lines : List Line) → Decidable (OnlyBlocks depth lines)
  | _, [] => inferInstanceAs (Decidable True)
  | depth, line :: rest =>
    have := decidableOnlyBlocks (line.spanDepth depth) rest
    inferInstanceAs (Decidable (_ ∧ _))

instance decidableRedefines : (lines : List Line) → Decidable (Redefines lines)
  | [] => inferInstanceAs (Decidable False)
  | _ :: rest =>
    have := decidableRedefines rest
    inferInstanceAs (Decidable (_ ∨ _))

variable {depth : Nat} {line opening : Line} {lines tail tail' : List Line}

/-! ## Inside of blocks -/

/-- Lines over which a block stays open do not matter. -/
theorem onlyBlocks_append (h : StaysOpen .block depth lines) :
    OnlyBlocks depth (lines ++ tail) ↔
      OnlyBlocks (depth + openings .block lines - closings .block lines) tail := by
  induction lines generalizing depth with
  | nil => simp
  | cons line lines ih =>
    obtain ⟨hpos, hs⟩ := staysOpen_cons_iff.1 h
    rw [List.cons_append, OnlyBlocks, Line.spanDepth_of_pos hpos, ih hs, depthBehind_add hpos]
    exact and_iff_right fun hzero => absurd hzero hpos.ne'

theorem outside_append (h : StaysOpen .block depth lines) :
    outside depth (lines ++ tail) =
      outside (depth + openings .block lines - closings .block lines) tail := by
  induction lines generalizing depth with
  | nil => simp
  | cons line lines ih =>
    obtain ⟨hpos, hs⟩ := staysOpen_cons_iff.1 h
    rw [List.cons_append, outside, if_neg fun hb => hpos.ne' hb.1, Line.spanDepth_of_pos hpos, ih hs,
      depthBehind_add hpos]

/-- What stands between the tags of a block does not matter, as long as it closes what it opens. -/
theorem onlyBlocks_balanced (h : Balanced .block lines) (hd : 0 < depth) :
    OnlyBlocks depth (lines ++ tail) ↔ OnlyBlocks depth tail := by
  rw [onlyBlocks_append (h.staysOpen.mono hd), h.closings_eq, Nat.add_sub_cancel]

theorem outside_balanced (h : Balanced .block lines) (hd : 0 < depth) :
    outside depth (lines ++ tail) = outside depth tail := by
  rw [outside_append (h.staysOpen.mono hd), h.closings_eq, Nat.add_sub_cancel]

/-! ## Slots that are filled -/

section Filled

variable (ho : opening.opensBody .block = true)
  (hb : ∀ depth, 0 < depth → (OnlyBlocks depth tail ↔ OnlyBlocks depth tail'))
include ho hb

theorem onlyBlocks_congr (before : List Line) (depth : Nat) :
    OnlyBlocks depth (before ++ opening :: tail) ↔ OnlyBlocks depth (before ++ opening :: tail') := by
  induction before generalizing depth with
  | nil => exact and_congr_right fun _ => hb _ (Line.spanDepth_pos_of_opensBody ho depth)
  | cons line before ih => exact and_congr_right fun _ => ih _

theorem redefines_congr (before : List Line) :
    Redefines (before ++ opening :: tail) ↔ Redefines (before ++ opening :: tail') := by
  induction before with
  | nil =>
    have hnames : ¬ opening.NamesParent := by
      intro h
      rw [h.opensBody] at ho
      cases ho
    simp [Redefines, Line.not_isBlank_of_opensBody ho, hnames]
  | cons line before ih =>
    exact or_congr (and_congr_right fun _ => ih) (and_congr_right fun _ => onlyBlocks_congr ho hb before 0)

end Filled

theorem outside_congr (ho : opening.opensBody .block = true)
    (hb : ∀ depth, 0 < depth → outside depth tail = outside depth tail') (before : List Line)
    (depth : Nat) :
    outside depth (before ++ opening :: tail) = outside depth (before ++ opening :: tail') := by
  induction before generalizing depth with
  | nil =>
    simp only [List.nil_append, outside, Line.not_isBlank_of_opensBody ho, Bool.false_eq_true,
      and_false, ↓reduceIte]
    exact hb _ (Line.spanDepth_pos_of_opensBody ho depth)
  | cons line before ih =>
    rw [List.cons_append, List.cons_append, outside, outside, ih, ih]

/-- **A slot that is filled** changes nothing outside of blocks. -/
theorem redefines_fillSlot {layer : Layer} {name : Text} {slot : Slot}
    (h : layer.slot? name = some slot) (content : Text) :
    (Redefines (layer.fillSlot slot content).lines ↔ Redefines layer.lines) ∧
      outside 0 (layer.fillSlot slot content).lines = outside 0 layer.lines := by
  obtain ⟨before, opening, body, closing, behind, hl, rfl, -, ho, hc⟩ := slot?_eq_some_iff.1 h
  obtain ⟨kind, ls⟩ := layer
  obtain rfl : ls = _ := hl
  have hfilled := balanced_of_uncounted (uncounted_filled .block body closing content)
  have hlines : body.map Line.blank ++ Nesting.contentLine body closing content :: closing :: behind =
      (body.map Line.blank ++ [Nesting.contentLine body closing content]) ++ closing :: behind := by
    simp
  rw [Nesting.fillSlot_eq]
  simp only [hlines]
  constructor
  · refine redefines_congr (opensBody_of_opensBlock ho) (fun depth hd => ?_) before
    rw [onlyBlocks_balanced hfilled hd, onlyBlocks_balanced hc.balanced hd]
  · refine outside_congr (opensBody_of_opensBlock ho) (fun depth hd => ?_) before 0
    rw [outside_balanced hfilled hd, outside_balanced hc.balanced hd]

theorem redefines_of_fills {layer filled : Layer} (h : layer.Fills filled) :
    (Redefines filled.lines ↔ Redefines layer.lines) ∧
      outside 0 filled.lines = outside 0 layer.lines := by
  induction h with
  | refl => exact ⟨Iff.rfl, rfl⟩
  | fill _ hs content ih =>
    obtain ⟨hr, ho⟩ := redefines_fillSlot hs content
    exact ⟨hr.trans ih.1, ho.trans ih.2⟩

/-- Blank lines have no slots to be filled. -/
theorem eq_of_fills {layer filled : Layer} (h : layer.Fills filled)
    (hb : ∀ line ∈ layer.lines, Text.isBlank line.text = true) : filled = layer := by
  induction h with
  | refl => rfl
  | fill _ hs _ ih =>
    subst ih
    rw [slot?_of_isBlank hb] at hs
    cases hs

end Layer

/-! ## The blank lines of a template -/

theorem isBlank_of_structural {tag : Tag} {t : Text} (h : Pattern.structural t = some tag) :
    Text.isBlank tag.source = false := by
  unfold Pattern.structural at h
  simp only [Option.bind_eq_bind, Option.bind_eq_some_iff, Option.pure_def,
    Option.some.injEq] at h
  obtain ⟨inner, -, ⟨word, rest⟩, -, tail, -, rfl⟩ := h
  rfl

/-- A line that is cut is cut into pieces that show something. -/
theorem splitStructural_eq_or (t : Text) :
    splitStructural t = [t] ∨ ∀ piece ∈ splitStructural t, Text.isBlank piece = false := by
  have hvisible : ∀ u piece, piece ∈ visible u → Text.isBlank piece = false := by
    intro u piece hp
    unfold visible at hp
    split at hp
    · cases hp
    · next hu => rw [List.mem_singleton.1 hp]; simpa using hu
  unfold splitStructural
  split
  · exact .inl rfl
  · next before tags _ heq =>
    refine .inr fun piece hp => ?_
    rcases List.mem_append.1 hp with hp | hp
    · exact hvisible before piece hp
    · obtain ⟨⟨tag, gap⟩, hm, hp⟩ := List.mem_flatMap.1 hp
      rcases List.mem_cons.1 hp with rfl | hp
      · have htag : tag ∈ (Pattern.scan Pattern.structural t).filterMap Fragment.tag? := by
          rw [← Pattern.map_fst_cut, heq]
          exact List.mem_map.2 ⟨_, hm, rfl⟩
        obtain ⟨a, b, -, hs⟩ := Pattern.exists_of_mem_tags Pattern.anchored_structural htag
        exact isBlank_of_structural hs
      · exact hvisible gap piece hp

namespace Layer

variable {depth : Nat} {kind : LayerKind} {source : List Text} {line : Line} {lines : List Line}

theorem mem_outside (h : line ∈ outside depth lines) :
    line ∈ lines ∧ Text.isBlank line.text = true := by
  induction lines generalizing depth with
  | nil => cases h
  | cons first lines ih =>
    rw [outside] at h
    split at h
    · next hfirst =>
      rcases List.mem_cons.1 h with rfl | h
      · exact ⟨List.mem_cons_self, hfirst.2⟩
      · exact ⟨List.mem_cons_of_mem _ (ih h).1, (ih h).2⟩
    · exact ⟨List.mem_cons_of_mem _ (ih h).1, (ih h).2⟩

/-- **A blank line of a template** is a whole line, and nothing was done to it. -/
theorem unedited_of_mem_ofSource (h : line ∈ (ofSource kind source).lines) :
    line.edited = false ∧ (Text.isBlank line.text = true → line.glued = false) := by
  refine ⟨by rw [eq_of_mem_ofSource h], fun hb => ?_⟩
  obtain ⟨t, -, hl⟩ := List.mem_flatMap.1 h
  have htext : line.text ∈ splitStructural t := by
    rw [← texts_linesOfSource]
    exact List.mem_map_of_mem hl
  unfold linesOfSource at hl
  rcases splitStructural_eq_or t with hone | hall
  · rw [hone] at hl
    rw [List.mem_singleton.1 hl]
  · rw [hall _ htext] at hb
    cases hb

end Layer

/-- **Lines that are consumed**: none of them shows anything, and those that were not blanked by a
directive are `left`. -/
structure Layer.Consumed (lines left : List Line) : Prop where
  isBlank : ∀ line ∈ lines, Text.isBlank line.text = true
  left_eq : lines.filter (fun line => !line.discarded) = left.filter fun line => !line.discarded

namespace Layer.Consumed

variable {line : Line} {lines left : List Line}

theorem nil : Consumed [] [] := ⟨by simp, rfl⟩

theorem keep (h : Consumed lines left) (hb : Text.isBlank line.text = true) :
    Consumed (line :: lines) (line :: left) where
  isBlank := by
    rw [List.forall_mem_cons]
    exact ⟨hb, h.isBlank⟩
  left_eq := by rw [List.filter_cons, List.filter_cons, h.left_eq]

theorem drop (h : Consumed lines left) (hb : Text.isBlank line.text = true)
    (hd : line.discarded = true) : Consumed (line :: lines) left where
  isBlank := by
    rw [List.forall_mem_cons]
    exact ⟨hb, h.isBlank⟩
  left_eq := by rw [List.filter_cons_of_neg (by simp [hd]), h.left_eq]

end Layer.Consumed

namespace Engine

variable {engine : Engine} {name : Text} {source : List Text}

/-- **The template redefines blocks** of another one, and does nothing else. -/
def Redefines (engine : Engine) (name : Text) : Prop :=
  match engine.loadLines name [] with
  | .ok source => Layer.Redefines (Layer.ofSource .parent source).lines
  | .error _ => False

instance (engine : Engine) (name : Text) : Decidable (engine.Redefines name) :=
  match h : engine.loadLines name [] with
  | .ok source =>
    decidable_of_iff (Layer.Redefines (Layer.ofSource .parent source).lines) (by rw [Redefines, h])
  | .error _ => isFalse (by rw [Redefines, h]; exact id)

/-- The blank lines of a template outside of its blocks. -/
def blankLines (engine : Engine) (name : Text) : List Text :=
  match engine.loadLines name [] with
  | .ok source => (Layer.outside 0 (Layer.ofSource .parent source).lines).map Line.text
  | .error _ => []

/-- The blank lines one below the other. -/
def spacing (engine : Engine) (name : Text) : Text := Text.join ['\n'] (engine.blankLines name)

/-- A single line without blanks takes up nothing. -/
theorem spacing_eq_nil_iff :
    engine.spacing name = [] ↔ engine.blankLines name = [] ∨ engine.blankLines name = [[]] := by
  unfold spacing
  cases engine.blankLines name with
  | nil => simp [Text.join]
  | cons t ts => cases ts <;> simp [Text.join]

/-- **What is left of a template** that redefines blocks, once its tags are consumed. -/
theorem render_of_consumed (hl : engine.loadLines name [] = .ok source) {layer : Layer}
    (h : Layer.Consumed layer.lines (Layer.outside 0 (Layer.ofSource .parent source).lines)) :
    layer.render = engine.spacing name := by
  -- the blank lines of the template are all left, since nothing was done to them
  have hleft : layer.lines.filter (fun line => !line.discarded) =
      Layer.outside 0 (Layer.ofSource .parent source).lines := by
    rw [h.left_eq, List.filter_eq_self]
    intro line hm
    have hedited := (Layer.unedited_of_mem_ofSource (Layer.mem_outside hm).1).1
    simp [Line.discarded, hedited]
  have hunglued : ∀ line ∈ layer.lines, line.discarded = false → line.glued = false := by
    intro line hm hd
    have hout : line ∈ Layer.outside 0 (Layer.ofSource .parent source).lines := by
      rw [← hleft]
      exact List.mem_filter.2 ⟨hm, by simp [hd]⟩
    obtain ⟨hmem, hblank⟩ := Layer.mem_outside hout
    exact (Layer.unedited_of_mem_ofSource hmem).2 hblank
  rw [Layer.render, Layer.renderFrom_of_unglued hunglued, hleft, spacing, blankLines, hl]

end Engine

end Stencil
