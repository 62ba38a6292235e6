import Stencil.Layer.Stack
import Stencil.Proofs.Text.Split

/-!
# The text of a layer

Discarded lines are not written, so that dropping them beforehand changes neither the text of a layer
(`render_clean`) nor whether it shows anything (`isVisible_clean`). A layer that shows nothing goes
off the stack when it is cleaned.
-/

namespace Stencil

namespace Layer

theorem renderFrom_cleanFrom (started broken dropped : Bool) (ls : List Line) :
    renderFrom started broken (cleanFrom dropped ls) = renderFrom started (broken || dropped) ls := by
  induction ls generalizing started broken dropped with
  | nil => rfl
  | cons line ls ih =>
    rw [cleanFrom]
    cases hd : line.discarded with
    | true =>
      rw [if_pos rfl, ih]
      simp only [renderFrom, hd, ↓reduceIte]
      congr 1
      cases broken <;> cases dropped <;> cases line.glued <;> rfl
    | false =>
      have hkept : Line.discarded { line with glued := line.glued && !dropped } = false := hd
      simp only [Bool.false_eq_true, ↓reduceIte, renderFrom, hkept, hd, ih, Bool.or_false]
      cases started <;> cases broken <;> cases dropped <;> cases line.glued <;> rfl

/-- **Dropping the discarded lines** leaves the text as it is. -/
theorem render_clean (layer : Layer) : layer.clean.render = layer.render :=
  renderFrom_cleanFrom false false false layer.lines

/-- Discarded lines leave only the line ends that they stand for. -/
theorem renderFrom_discarded {lines : List Line} (h : ∀ line ∈ lines, line.discarded = true)
    (started broken : Bool) (tail : List Line) :
    renderFrom started broken (lines ++ tail) =
      renderFrom started (broken || !lines.all Line.glued) tail := by
  induction lines generalizing broken with
  | nil => simp
  | cons line lines ih =>
    rw [List.cons_append, renderFrom, if_pos (h line List.mem_cons_self),
      ih fun l hl => h l (List.mem_cons_of_mem _ hl), List.all_cons, Bool.not_and, Bool.or_assoc]

/-- Lines that do not continue those before them are written one below the other. -/
theorem renderFrom_of_unglued {lines : List Line} {broken : Bool}
    (h : ∀ line ∈ lines, line.discarded = false → line.glued = false) :
    renderFrom false broken lines =
      Text.join ['\n'] ((lines.filter fun line => !line.discarded).map Line.text) := by
  have hbehind : ∀ (lines : List Line) (broken : Bool),
      (∀ line ∈ lines, line.discarded = false → line.glued = false) →
      renderFrom true broken lines =
        (lines.filter fun line => !line.discarded).flatMap fun line => '\n' :: line.text := by
    intro lines
    induction lines with
    | nil => intro _ _; rfl
    | cons line lines ih =>
      intro broken hall
      have hrest : ∀ broken, renderFrom true broken lines = _ :=
        fun broken => ih broken fun l hl => hall l (List.mem_cons_of_mem _ hl)
      cases hd : line.discarded with
      | true => simp [renderFrom, hd, hrest]
      | false => simp [renderFrom, hd, hall line List.mem_cons_self hd, hrest]
  have hjoin : ∀ (t : Text) (kept : List Line),
      t ++ kept.flatMap (fun line => '\n' :: line.text) =
        Text.join ['\n'] (t :: kept.map Line.text) := by
    intro t kept
    induction kept generalizing t with
    | nil => simp [Text.join]
    | cons line kept ih =>
      rw [List.map_cons, Text.join_cons (by simp), ← ih line.text, List.flatMap_cons,
        List.cons_append]
  induction lines generalizing broken with
  | nil => rfl
  | cons line lines ih =>
    have hrest : ∀ l ∈ lines, l.discarded = false → l.glued = false :=
      fun l hl => h l (List.mem_cons_of_mem _ hl)
    cases hd : line.discarded with
    | true => simp [renderFrom, hd, ih hrest]
    | false => simp [renderFrom, hd, hbehind lines false hrest, hjoin]

/-! ## What is left of some lines -/

section Kept

variable {line line' : Line} {lines : List Line}

theorem cleanFrom_cons_of_discarded (h : line.discarded = true) (dropped : Bool)
    (tail : List Line) :
    cleanFrom dropped (line :: tail) = cleanFrom (dropped || !line.glued) tail := by
  rw [cleanFrom, if_pos h]

/-- Of discarded lines nothing is left but whether all of them are glued. -/
theorem cleanFrom_discarded (h : ∀ line ∈ lines, line.discarded = true) (dropped : Bool)
    (tail : List Line) :
    cleanFrom dropped (lines ++ tail) = cleanFrom (dropped || !lines.all Line.glued) tail := by
  induction lines generalizing dropped with
  | nil => simp
  | cons line lines ih =>
    rw [List.cons_append, cleanFrom_cons_of_discarded (h line List.mem_cons_self),
      ih fun l hl => h l (List.mem_cons_of_mem _ hl), List.all_cons, Bool.not_and, Bool.or_assoc]

/-- A discarded line before one that continues in the same way leaves nothing. -/
theorem cleanFrom_discarded_glued (h : line.discarded = true) (hg : line.glued = line'.glued)
    (dropped : Bool) (tail : List Line) :
    cleanFrom dropped (line :: line' :: tail) = cleanFrom dropped (line' :: tail) := by
  rw [cleanFrom_cons_of_discarded h, hg]
  cases hd : line'.discarded with
  | true =>
    rw [cleanFrom_cons_of_discarded hd, cleanFrom_cons_of_discarded hd, Bool.or_assoc, Bool.or_self]
  | false =>
    simp only [cleanFrom, hd, Bool.false_eq_true, ↓reduceIte]
    cases line'.glued <;> simp

/-- Behind a line that is kept, it does not matter what was dropped before it. -/
theorem cleanFrom_append_cons (h : line.discarded = false) (dropped : Bool) (before tail : List Line) :
    cleanFrom dropped (before ++ line :: tail) =
      cleanFrom dropped (before ++ [line]) ++ cleanFrom false tail := by
  induction before generalizing dropped with
  | nil => simp [cleanFrom, h]
  | cons first before ih =>
    simp only [List.cons_append, cleanFrom, ih]
    split <;> rfl

end Kept

theorem isBlank_of_discarded {line : Line} (h : line.discarded = true) :
    Text.isBlank line.text = true := (Bool.and_eq_true_iff.1 h).2

theorem isVisible_clean (layer : Layer) : layer.clean.isVisible = layer.isVisible := by
  have key : ∀ (ls : List Line) (dropped : Bool),
      (cleanFrom dropped ls).any (fun line => !Text.isBlank line.text) =
        ls.any fun line => !Text.isBlank line.text := by
    intro ls
    induction ls with
    | nil => intro _; rfl
    | cons line ls ih =>
      intro dropped
      rw [cleanFrom]
      cases hd : line.discarded with
      | true => simp [ih, isBlank_of_discarded hd]
      | false => simp [ih]
  exact key layer.lines false

end Layer

namespace Stack

/-- **A layer that shows nothing** goes off the stack. -/
theorem clean_of_isBlank {stack : Stack} {name : Text} {layer : Layer}
    (hg : stack.get? name = some layer) (hb : ∀ line ∈ layer.lines, Text.isBlank line.text = true) :
    stack.clean name = stack.erase name := by
  have hinvisible : layer.clean.isVisible = false := by
    rw [Layer.isVisible_clean, Layer.isVisible, List.any_eq_false]
    intro line hl
    simp [hb line hl]
  simp [clean, hg, hinvisible]

/-- The text of a layer that is cleaned, alone on the stack. -/
theorem join_clean_singleton (name : Text) (layer : Layer) :
    (clean { layers := [(name, layer)] } name).join =
      if layer.isVisible then layer.render else [] := by
  have hget : get? { layers := [(name, layer)] } name = some layer := by simp [get?]
  unfold clean
  rw [hget]
  simp only [Layer.isVisible_clean]
  split
  · simp [modify, join, Layer.render_clean]
  · simp [erase, join]

end Stack

end Stencil
