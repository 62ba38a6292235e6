import Stencil.Files.Loader
import Stencil.Proofs.Text.Split

/-!
# Slashes in locations

A slash more between two parts of a location leads nowhere else (`place_doubled`), unless the
location becomes too long by it. So a directory and a file in it can be gone on with one by one, or
as one text with a slash between them (`push_push`), if the directory is not the empty text: a text
that begins with the slash starts at the root.
-/

namespace Stencil

namespace FileTree

variable (tree : FileTree)

/-- A part without text stays in the directory in which the next step is taken. -/
theorem step_nil_bind (place : Place) (part : Text) :
    (tree.step place [] >>= fun p => tree.step p part) = tree.step place part := by
  cases hn : tree.node? place with
  | none => simp only [step, hn]; rfl
  | some node =>
    cases node with
    | file content? => simp only [step, hn]; rfl
    | directory =>
      have hstay : tree.step place [] = .ok place := by simp [step, hn, staysPut]
      rw [hstay]
      rfl

theorem foldlM_step_nil {parts : List Text} (hne : parts ≠ []) (place : Place) :
    ([] :: parts).foldlM tree.step place = parts.foldlM tree.step place := by
  obtain ⟨part, parts, rfl⟩ := List.exists_cons_of_ne_nil hne
  simp only [List.foldlM_cons]
  rw [← bind_assoc, step_nil_bind]

/-- **A doubled slash** leads where a single one leads, unless the location becomes too long. -/
theorem place_doubled {a b : Text}
    (hlimit : Text.utf8Size (a ++ '/' :: b) + 1 ≠ locationLimit) :
    tree.place (a ++ '/' :: '/' :: b) = tree.place (a ++ '/' :: b) := by
  have hparts : ∀ start : Place,
      (Location.parts (a ++ '/' :: '/' :: b)).foldlM tree.step start =
        (Location.parts (a ++ '/' :: b)).foldlM tree.step start := by
    intro start
    simp only [Location.parts, Text.splitOn_append, Text.splitOn_sep, List.foldlM_append,
      tree.foldlM_step_nil (Text.splitOn_ne_nil '/' b)]
  have hnull : (a ++ '/' :: '/' :: b).contains '\x00' = (a ++ '/' :: b).contains '\x00' := by
    simp
  have hempty : ∀ t : Text, (a ++ '/' :: t).isEmpty = false := by simp
  have habsolute : Location.isAbsolute (a ++ '/' :: '/' :: b) =
      Location.isAbsolute (a ++ '/' :: b) := by
    cases a <;> rfl
  have hslash : '/'.utf8Size = 1 := by decide
  have hlong : locationLimit ≤ Text.utf8Size (a ++ '/' :: '/' :: b) ↔
      locationLimit ≤ Text.utf8Size (a ++ '/' :: b) := by
    simp only [Text.utf8Size_append, Text.utf8Size, hslash] at hlimit ⊢
    omega
  simp only [place, walk, hnull, hempty, habsolute, hlong, hparts]

/-- A location that is too long leads nowhere. -/
theorem isFile_of_long {l : Location} (h : locationLimit ≤ Text.utf8Size l) :
    tree.isFile l = false := by
  have hfail : ∃ e, tree.place l = .error e := by
    unfold place walk
    rw [if_pos h]
    split
    · exact ⟨_, rfl⟩
    · split <;> exact ⟨_, rfl⟩
  obtain ⟨e, he⟩ := hfail
  unfold isFile find
  rw [he]
  rfl

theorem find_congr {l l' : Location} (h : tree.place l = tree.place l') :
    tree.find l = tree.find l' := by
  rw [find, find, h]

theorem isFile_iff {l : Location} :
    tree.isFile l = true ↔ ∃ content?, tree.find l = .ok (.file content?) := by
  unfold isFile
  split
  · next content? h => simp [h]
  · next h => simpa using h

end FileTree

namespace Location

theorem push_append (root : Location) {dir : Text} (hne : dir ≠ []) (t : Text) :
    push root (dir ++ t) = push root dir ++ t := by
  obtain ⟨c, cs, rfl⟩ := List.exists_cons_of_ne_nil hne
  have habsolute : isAbsolute (c :: cs ++ t) = isAbsolute (c :: cs) := rfl
  unfold push
  rw [habsolute]
  split
  · rfl
  · split <;> simp

theorem getLast?_push (root : Location) {dir : Text} (hne : dir ≠ []) :
    (push root dir).getLast? = dir.getLast? := by
  have hlast := List.getLast?_eq_some_getLast hne
  unfold push
  split
  · rfl
  · split <;> simp [List.getLast?_append, List.getLast?_cons, hlast]

/-- **A directory and a file in it** can be gone on with at once, with a slash between them; behind
a directory with a slash at its end there are two slashes then. -/
theorem push_push (root : Location) {dir file : Text} (hne : dir ≠ [])
    (hfile : isAbsolute file = false) :
    (dir.getLast? ≠ some '/' ∧ push root (dir ++ '/' :: file) = push (push root dir) file) ∨
      dir.getLast? = some '/' ∧ ∃ a, push (push root dir) file = a ++ '/' :: file ∧
        push root (dir ++ '/' :: file) = a ++ '/' :: '/' :: file := by
  have hlast := getLast?_push root hne
  have hpush : (push root dir).isEmpty = false := by
    cases hp : push root dir with
    | nil => rw [hp] at hlast; exact absurd (List.getLast?_eq_none_iff.1 hlast.symm) hne
    | cons c cs => rfl
  have hgo : push (push root dir) file =
      if dir.getLast? = some '/' then push root dir ++ file else push root dir ++ '/' :: file := by
    show (if isAbsolute file then file
      else if (push root dir).isEmpty || (push root dir).getLast? == some '/' then _ else _) = _
    simp [hfile, hpush, hlast]
  by_cases hd : dir.getLast? = some '/'
  · obtain ⟨a, ha⟩ := List.getLast?_eq_some_iff.1 (hlast.trans hd)
    refine .inr ⟨hd, a, ?_, ?_⟩
    · rw [hgo, if_pos hd, ha]
      simp
    · rw [push_append root hne, ha]
      simp
  · exact .inl ⟨hd, by rw [hgo, if_neg hd, push_append root hne]⟩

end Location

end Stencil
