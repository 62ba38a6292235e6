import Stencil.Error
import Stencil.Files.Tree
import Stencil.Json.Reader
import Stencil.Route.Basic

/-!
# Reading routes

A route table is written as a JSON object with a route for each path. The document is read as
written, so that the order of the paths counts and a repeated path replaces its route in place. A
route is an object with a target, and methods and a name if it has any; unknown fields are passed
over whatever they hold, and a known field may not be repeated. The three fields may also be given
as an array in this order.
-/

namespace Stencil

namespace Route

open Json

/-- The text of a string. -/
def text? : Written → Option Text
  | .str pieces => decode? pieces
  | _ => none

/-- The texts of an array of strings. -/
def texts? : Written → Option (List Text)
  | .arr items => items.mapM text?
  | _ => none

/-- The text of a string, or nothing for a null. -/
def optionalText? : Written → Option (Option Text)
  | .null => some none
  | w => (text? w).map some

/-- A field that is given at most once; the outer value is missing if it is given again. -/
def field? (key : Text) (members : List (Text × Written)) : Option (Option Written) :=
  match members.filter (·.1 = key) with
  | [] => some none
  | [member] => some (some member.2)
  | _ => none

/-- The route with these parts, where given. -/
def ofParts? (target methods name : Option Written) : Option Route := do
  let target ← text? (← target)
  let methods ← match methods with
    | some w => texts? w
    | none => some ["GET".toList]
  let name? ← match name with
    | some w => optionalText? w
    | none => some none
  return { target, methods, name? }

/-- A route as written. -/
def ofWritten? : Written → Option Route
  | .obj members => do
    let members ← members.mapM fun (key, w) => (decode? key).map (·, w)
    ofParts? (← field? "target".toList members) (← field? "methods".toList members)
      (← field? "name".toList members)
  | .arr [target] => ofParts? (some target) none none
  | .arr [target, methods] => ofParts? (some target) (some methods) none
  | .arr [target, methods, name] => ofParts? (some target) (some methods) (some name)
  | _ => none

end Route

namespace RouteTable

/-- A route table as written. -/
def ofWritten? : Json.Written → Option RouteTable
  | .obj members =>
    (members.mapM fun (path, route) => do
      return (← Json.decode? path, ← Route.ofWritten? route)).map ofList
  | _ => none

/-- The route table of a JSON document. -/
def ofText (t : Text) : Except Error RouteTable :=
  match (Json.Written.ofText? t).bind ofWritten? with
  | some table => .ok table
  | none => .error (.serialization "Failed to parse routes: malformed route table".toList)

/-- The route table in a file. -/
def ofFile (files : FileTree) (l : Location) : Except Error RouteTable := do
  ofText (← (files.read l).mapError .io)

end RouteTable

end Stencil
