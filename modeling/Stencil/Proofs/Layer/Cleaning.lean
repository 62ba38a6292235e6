import Stencil.Proofs.Layer.Output

/-!
# Cleaning a layer

A layer is some discarded lines and then its kept lines, each with the discarded lines behind it up
to the next. Written, a line end stands between two kept lines if some line behind the first, up to
the second, is not glued (`Layer.render_eq_written`). Cleaning drops the discarded lines and leaves
the kept ones, with the line ends where they were: the text stays the same, and what is clean stays
as it is (`Layer.clean_faithful`).
-/

namespace Stencil

/-- The line as if it stood by itself. -/
def Line.alone (line : Line) : Line := { line with glued := false }

/-- A line that is kept, with the discarded lines between it and the next one. -/
structure Run where
  /-- The line. -/
  kept : Line
  /-- The lines behind it. -/
  dropped : List Line
  /-- The line is not discarded. -/
  isKept : kept.discarded = false
  /-- The lines behind it are. -/
  isDropped : ∀ line ∈ dropped, line.discarded = true

namespace Run

/-- The lines of the run. -/
def lines (run : Run) : List Line := run.kept :: run.dropped

/-- What stands between the line and the next one: a line end, unless all lines behind the first, up
to the second, are glued. -/
def lineEnd (run next : Run) : Text :=
  if (run.dropped ++ [next.kept]).all Line.glued then [] else ['\n']

/-- The lines with the line ends between them. -/
def written : List Run → Text
  | [] => []
  | [run] => run.kept.text
  | run :: next :: rest => run.kept.text ++ run.lineEnd next ++ written (next :: rest)

end Run

namespace Layer

/-! ## What is written -/

/-- Every list of lines is made of discarded lines and runs. -/
theorem exists_runs (lines : List Line) : ∃ (lead : List Line) (runs : List Run),
    (∀ line ∈ lead, line.discarded = true) ∧ lines = lead ++ runs.flatMap Run.lines := by
  induction lines with
  | nil => exact ⟨[], [], by simp, rfl⟩
  | cons line lines ih =>
    obtain ⟨lead, runs, hlead, rfl⟩ := ih
    cases hd : line.discarded with
    | true => exact ⟨line :: lead, runs, List.forall_mem_cons.2 ⟨hd, hlead⟩, rfl⟩
    | false => exact ⟨[], ⟨line, lead, hd, hlead⟩ :: runs, by simp, rfl⟩

/-- Behind a line that was written, the next run is written below it or beside it. -/
theorem renderFrom_run {dropped : List Line} (h : ∀ line ∈ dropped, line.discarded = true)
    (run : Run) (tail : List Line) :
    renderFrom true false (dropped ++ (run.lines ++ tail)) =
      (if (dropped ++ [run.kept]).all Line.glued then [] else ['\n']) ++ run.kept.text ++
        renderFrom true false (run.dropped ++ tail) := by
  rw [renderFrom_discarded h, Run.lines, List.cons_append, renderFrom]
  simp only [run.isKept, Bool.false_eq_true, ↓reduceIte, Bool.true_and, Bool.false_or,
    ← Bool.not_and, List.all_append, List.all_cons, List.all_nil, Bool.and_true]
  cases dropped.all Line.glued && run.kept.glued <;> rfl

/-- The runs behind a line that was written. -/
theorem renderFrom_runs (run : Run) (rest : List Run) :
    run.kept.text ++ renderFrom true false (run.dropped ++ rest.flatMap Run.lines) =
      Run.written (run :: rest) := by
  induction rest generalizing run with
  | nil =>
    have hnone := renderFrom_discarded run.isDropped true false []
    simpa [Run.written, renderFrom] using hnone
  | cons next rest ih =>
    rw [List.flatMap_cons, renderFrom_run run.isDropped, List.append_assoc, ih next, Run.written,
      Run.lineEnd, List.append_assoc]

/-- **The text of a layer** is its kept lines with a line end between two of them if a line behind
the first, up to the second, is not glued. -/
theorem render_eq_written {layer : Layer} {lead : List Line} {runs : List Run}
    (hlead : ∀ line ∈ lead, line.discarded = true)
    (h : layer.lines = lead ++ runs.flatMap Run.lines) : layer.render = Run.written runs := by
  rw [render, h, renderFrom_discarded hlead]
  cases runs with
  | nil => rfl
  | cons run rest =>
    rw [← renderFrom_runs, List.flatMap_cons, Run.lines, List.cons_append, renderFrom]
    simp only [run.isKept, Bool.false_eq_true, ↓reduceIte, Bool.false_and]

/-! ## What is left -/

theorem discarded_of_mem_cleanFrom {broken : Bool} {lines : List Line} {line : Line}
    (h : line ∈ cleanFrom broken lines) : line.discarded = false := by
  induction lines generalizing broken with
  | nil => cases h
  | cons first lines ih =>
    rw [cleanFrom] at h
    split at h
    · exact ih h
    · next hkept =>
      rcases List.mem_cons.1 h with rfl | h
      · exact Bool.not_eq_true _ ▸ hkept
      · exact ih h

/-- The kept lines stay in order, and all of them but for whether they are glued. -/
theorem map_alone_cleanFrom (broken : Bool) (lines : List Line) :
    (cleanFrom broken lines).map Line.alone =
      (lines.filter (!·.discarded)).map Line.alone := by
  induction lines generalizing broken with
  | nil => rfl
  | cons line lines ih =>
    rw [cleanFrom]
    cases hd : line.discarded with
    | true => simp [hd, ih]
    | false => simp [hd, ih, Line.alone]

/-- Where nothing is discarded, nothing changes. -/
theorem cleanFrom_of_kept {lines : List Line} (h : ∀ line ∈ lines, line.discarded = false) :
    cleanFrom false lines = lines := by
  induction lines with
  | nil => rfl
  | cons line lines ih =>
    rw [cleanFrom, if_neg (by simp [h line List.mem_cons_self]),
      ih fun l hl => h l (List.mem_cons_of_mem _ hl)]
    simp

/-- Discarded lines behind all others leave nothing. -/
theorem cleanFrom_append_discarded {dropped : List Line}
    (h : ∀ line ∈ dropped, line.discarded = true) (broken : Bool) (lines : List Line) :
    cleanFrom broken (lines ++ dropped) = cleanFrom broken lines := by
  induction lines generalizing broken with
  | nil =>
    induction dropped generalizing broken with
    | nil => rfl
    | cons line dropped ih =>
      have hd := h line List.mem_cons_self
      have hrest := ih (fun l hl => h l (List.mem_cons_of_mem _ hl)) (broken || !line.glued)
      simpa [cleanFrom, hd] using hrest
  | cons line lines ih => simp only [List.cons_append, cleanFrom, ih]

theorem clean_clean (layer : Layer) : layer.clean.clean = layer.clean := by
  rw [clean, clean, cleanFrom_of_kept fun _ => discarded_of_mem_cleanFrom]

/-! ## What is visible -/

/-- A line end shows nothing, so that the text is blank if and only if all lines are. -/
theorem isBlank_renderFrom (started broken : Bool) (lines : List Line) :
    Text.isBlank (renderFrom started broken lines) =
      lines.all fun line => Text.isBlank line.text := by
  induction lines generalizing started broken with
  | nil => rfl
  | cons line lines ih =>
    have hrest : ∀ started broken, List.all (renderFrom started broken lines) isBlank = _ := ih
    have hend : isBlank '\n' = true := rfl
    rw [renderFrom]
    split
    · next hd => simp [ih, isBlank_of_discarded hd]
    split
    · simp [Text.isBlank, hrest, hend]
    · simp [Text.isBlank, hrest]

theorem isVisible_eq (layer : Layer) : layer.isVisible = !Text.isBlank layer.render := by
  rw [render, isBlank_renderFrom, isVisible, List.not_all_eq_any_not]

theorem isVisible_iff (layer : Layer) :
    layer.isVisible = true ↔ ∃ c ∈ layer.render, isBlank c = false := by
  rw [isVisible_eq, Text.isBlank, List.not_all_eq_any_not, List.any_eq_true]
  simp

/-- **Cleaning is faithful.** A clean layer has the text it had before; it has no discarded line,
every other line in its order, and nothing left to clean; and it shows something exactly if the text
does. The text itself is the kept lines with a line end between two of them where a line behind the
first, up to the second, is not glued. -/
theorem clean_faithful (layer : Layer) :
    layer.clean.render = layer.render ∧
    (∀ line ∈ layer.clean.lines, line.discarded = false) ∧
    layer.clean.lines.map Line.alone = (layer.lines.filter (!·.discarded)).map Line.alone ∧
    layer.clean.clean = layer.clean ∧
    (layer.clean.isVisible = true ↔ ∃ c ∈ layer.render, isBlank c = false) ∧
    ∃ (lead : List Line) (runs : List Run), (∀ line ∈ lead, line.discarded = true) ∧
      layer.lines = lead ++ runs.flatMap Run.lines ∧ layer.render = Run.written runs := by
  obtain ⟨lead, runs, hlead, hlines⟩ := exists_runs layer.lines
  refine ⟨render_clean layer, fun _ => discarded_of_mem_cleanFrom, map_alone_cleanFrom false _,
    clean_clean layer, ?_, lead, runs, hlead, hlines, render_eq_written hlead hlines⟩
  rw [isVisible_clean, isVisible_iff]

end Layer

end Stencil
