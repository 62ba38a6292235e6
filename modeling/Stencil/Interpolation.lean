import Stencil.Context
import Stencil.Tag.Directive

/-!
# Interpolations

An interpolation names a value by its path and may give a default after the first equals sign. It
shows the value at the path, the default when there is no value or a null one, and a fixed remark
when there is no default either.
-/

namespace Stencil

/-- What an interpolation says. -/
structure Interpolation where
  /-- The path of the value. -/
  path : Text
  /-- The text shown in place of an absent value. -/
  default? : Option Text
deriving DecidableEq, Repr

/-- What is shown for an absent value without a default. -/
def unknownKey : Text := "Unknown key".toList

namespace Interpolation

/-- Reads the argument of an interpolation. The default loses one pair of quotes around it. -/
def ofArgument (argument : Text) : Interpolation :=
  match Text.splitOnce? '=' argument with
  | some (path, default) => ⟨path.trim, some (unquote default)⟩
  | none => ⟨argument.trim, none⟩

end Interpolation

namespace Context

/-- The value at a path, unless it is absent or null. -/
def present? (context : Context) (path : Text) : Option Value :=
  (context.get? path).filter fun value => !value.isNull

/-- The text an interpolation with this argument shows. -/
def evaluate (context : Context) (argument : Text) : Text :=
  let i := Interpolation.ofArgument argument
  match context.present? i.path with
  | some value => value.display
  | none => i.default?.getD unknownKey

/-- The path of the first interpolation in a text. -/
def firstPath? (t : Text) : Option Text :=
  (Directive.interpolation.find? t).map fun tag => (Interpolation.ofArgument tag.argument).path

/-- The text with its interpolations replaced. What is put in is not scanned again. -/
def interpolate (context : Context) (t : Text) : Text :=
  Pattern.interpolation.replace (fun tag => context.evaluate tag.argument) t

end Context

end Stencil
