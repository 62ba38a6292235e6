import Stencil.Files.Tree

/-!
# Writing files

A location is walked through directories, and a write puts a file where no directory stands. So a
location that could be walked before a write leads to the same place behind it (`place_put`): what
was written is read back (`read_write`), and nothing changes at any other place (`node?_write`).
-/

namespace Stencil.FileTree

variable {tree tree' : FileTree} {l : Location} {text : Text}

/-! ## Walking behind a write -/

section Put

variable {place : Place} (h : tree.node? place ≠ some .directory) (node : Node)
include h

theorem step_put {p q : Place} {part : Text} (hs : tree.step p part = .ok q) :
    (tree.put place node).step p part = .ok q := by
  have hdir : tree.node? p = some .directory := by
    unfold step at hs
    split at hs
    · cases hs
    · cases hs
    · assumption
  have hp : p ≠ place := by
    rintro rfl
    exact h hdir
  unfold step at hs ⊢
  rwa [node?_put_of_ne tree hp]

theorem foldlM_step_put {parts : List Text} {p q : Place} (hs : parts.foldlM tree.step p = .ok q) :
    parts.foldlM (tree.put place node).step p = .ok q := by
  induction parts generalizing p with
  | nil => exact hs
  | cons part parts ih =>
    rw [List.foldlM_cons] at hs ⊢
    obtain ⟨p', hstep, hs⟩ := Except.bind_eq_ok_iff.1 hs
    rw [step_put h node hstep]
    exact ih hs

theorem place_put {q : Place} (hq : tree.place l = .ok q) :
    (tree.put place node).place l = .ok q := by
  unfold FileTree.place walk at hq ⊢
  split at hq
  · cases hq
  split at hq
  · cases hq
  split at hq
  · cases hq
  next hnull hempty hlong =>
  rw [if_neg hnull, if_neg hempty, if_neg hlong]
  exact foldlM_step_put h node hq

end Put

/-! ## What a write does -/

theorem write_eq_ok_iff : tree.write l text = .ok tree' ↔
    endsInName l = true ∧ ∃ place, tree.place l = .ok place ∧
      tree.node? place ≠ some .directory ∧ tree' = tree.put place (.file (some text)) := by
  unfold write
  by_cases hend : endsInName l = true
  · rw [if_pos hend]
    cases hp : tree.place l with
    | error e =>
      constructor
      · intro h
        cases h
      · rintro ⟨-, place, h, -⟩
        cases h
    | ok place =>
      show (if _ then _ else _) = _ ↔ _
      by_cases hdir : tree.node? place = some .directory
      · rw [if_pos hdir]
        constructor
        · intro h
          cases h
        · rintro ⟨-, _, ⟨⟩, h, -⟩
          exact absurd hdir h
      · rw [if_neg hdir]
        constructor
        · rintro ⟨⟩
          exact ⟨hend, place, rfl, hdir, rfl⟩
        · rintro ⟨-, _, ⟨⟩, -, rfl⟩
          rfl
  · rw [if_neg hend]
    constructor
    · intro h
      obtain ⟨place, -, h⟩ := Except.bind_eq_ok_iff.1 h
      cases h
    · rintro ⟨h, -⟩
      exact absurd h hend

/-- **What was written is read back.** -/
theorem read_write (h : tree.write l text = .ok tree') : tree'.read l = .ok text := by
  obtain ⟨-, place, hp, hdir, rfl⟩ := write_eq_ok_iff.1 h
  have hne : place ≠ [] := by
    rintro rfl
    exact hdir rfl
  have hfind : (tree.put place (.file (some text))).find l = .ok (.file (some text)) := by
    unfold find
    rw [place_put hdir _ hp]
    simp only [bind, Except.bind, node?_put_self tree hne]
  unfold read
  rw [hfind]
  rfl

/-- **Nothing else changes**: a place at which a write leaves something else than before is the place
that the location leads to. -/
theorem node?_write (h : tree.write l text = .ok tree') {other : Place}
    (hne : tree'.node? other ≠ tree.node? other) : tree.place l = .ok other := by
  obtain ⟨-, place, hp, -, rfl⟩ := write_eq_ok_iff.1 h
  by_cases ho : other = place
  · rw [ho, hp]
  · exact absurd (node?_put_of_ne tree ho _) hne

end Stencil.FileTree
