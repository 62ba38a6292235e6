import Stencil.Text.Basic

/-!
# Errors

What ends a render or a command. Everything a page can recover from is shown inline and is no error.
The wording of each error is here and nowhere else.

The lemmas on results take the steps of a computation apart: which step failed, or what each of them
came to.
-/

namespace Stencil

/-- Results can be compared if errors and values can. -/
instance decidableEqResult {ε α : Type} [DecidableEq ε] [DecidableEq α] : DecidableEq (Except ε α)
  | .ok a, .ok b => decidable_of_iff (a = b) (by simp)
  | .error a, .error b => decidable_of_iff (a = b) (by simp)
  | .ok _, .error _ => isFalse (by simp)
  | .error _, .ok _ => isFalse (by simp)

namespace Except

variable {ε α β : Type} {x : Except ε α} {e : ε} {b : β}

theorem bind_eq_ok_iff {f : α → Except ε β} :
    x.bind f = .ok b ↔ ∃ a, x = .ok a ∧ f a = .ok b := by
  cases x <;> simp [Except.bind]

theorem bind_eq_error_iff {f : α → Except ε β} :
    x.bind f = .error e ↔ x = .error e ∨ ∃ a, x = .ok a ∧ f a = .error e := by
  cases x <;> simp [Except.bind]

theorem map_eq_ok_iff {f : α → β} : x.map f = .ok b ↔ ∃ a, x = .ok a ∧ f a = b := by
  cases x <;> simp [Except.map]

theorem map_eq_error_iff {f : α → β} : x.map f = .error e ↔ x = .error e := by
  cases x <;> simp [Except.map]

theorem mapError_eq_ok_iff {ε' : Type} {f : ε → ε'} {a : α} : x.mapError f = .ok a ↔ x = .ok a := by
  cases x with
  | error e => constructor <;> rintro ⟨⟩
  | ok a' =>
    constructor <;>
    · rintro ⟨⟩
      rfl

theorem mapError_eq_error_iff {ε' : Type} {f : ε → ε'} {e' : ε'} :
    x.mapError f = .error e' ↔ ∃ e, x = .error e ∧ f e = e' := by
  cases x with
  | error e =>
    constructor
    · rintro ⟨⟩
      exact ⟨e, rfl, rfl⟩
    · rintro ⟨_, ⟨⟩, rfl⟩
      rfl
  | ok a =>
    constructor
    · rintro ⟨⟩
    · rintro ⟨_, ⟨⟩, -⟩

end Except

/-- Why a file could not be read or written. -/
inductive IoError where
  /-- A part of the path does not exist. -/
  | notFound
  /-- A part of the path that has to be a directory is a file. -/
  | notDirectory
  /-- The path leads to a directory. -/
  | isDirectory
  /-- A part of the path is too long for a file name. -/
  | nameTooLong
  /-- The path holds a null character. -/
  | nullInPath
  /-- The content is not text. -/
  | notText
  /-- Any other failure, in its own words. -/
  | other (detail : Text)
deriving DecidableEq, Repr

/-- The words for a failure to read or write. -/
def IoError.message : IoError → Text
  | notFound => "No such file or directory (os error 2)".toList
  | notDirectory => "Not a directory (os error 20)".toList
  | isDirectory => "Is a directory (os error 21)".toList
  | nameTooLong => "File name too long (os error 36)".toList
  | nullInPath => "file name contained an unexpected NUL byte".toList
  | notText => "stream did not contain valid UTF-8".toList
  | other detail => detail

/-- An error that ends a render or a command. -/
inductive Error where
  /-- A template does not exist or cannot be read. -/
  | templateNotFound (detail : Text)
  /-- A loop runs over a top-level name that the data does not hold. -/
  | missingCollection (path : Text)
  /-- A template is extended for a second time. -/
  | inheritanceCycle (template : Text)
  /-- A capture begins while another one is open. -/
  | captureActive (label : Text)
  /-- The settings or the command line are wrong. -/
  | configuration (detail : Text)
  /-- Data or routes are wrong. -/
  | serialization (detail : Text)
  /-- A file cannot be read or written. -/
  | io (cause : IoError)
  /-- The layers of a render are nested deeper than the depth it was given. -/
  | tooDeep
deriving DecidableEq, Repr

namespace Error

/-- The words for an error. -/
def message : Error → Text
  | templateNotFound detail => "Template does not exist: ".toList ++ detail
  | missingCollection path => "Missing collection: ".toList ++ path
  | inheritanceCycle template => "Template inheritance cycle at: ".toList ++ template
  | captureActive label => "Buffering session already active: ".toList ++ label
  | configuration detail => "Configuration error: ".toList ++ detail
  | serialization detail => "Serialization error: ".toList ++ detail
  | io cause => "IO error: ".toList ++ cause.message
  | tooDeep => "Layers are nested too deep".toList

/-- Whether the error arises from rendering a page, as opposed to what surrounds it. -/
def isRenderError : Error → Bool
  | templateNotFound _ | missingCollection _ | inheritanceCycle _ | captureActive _ | tooDeep =>
    true
  | configuration _ | serialization _ | io _ => false

end Error

end Stencil
