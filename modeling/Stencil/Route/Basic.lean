import Stencil.Listing

/-!
# Routes

A route table keeps one route a path, in the order in which the paths were first given. A link names
a route and gets the first path whose route has that name.
-/

namespace Stencil

/-- What a path leads to. -/
structure Route where
  /-- What answers a request for the path. -/
  target : Text
  /-- The methods that are answered. -/
  methods : List Text := ["GET".toList]
  /-- What links call the route. -/
  name? : Option Text := none
deriving DecidableEq, Repr

/-- Routes by path. -/
structure RouteTable where
  /-- The paths with their routes. -/
  routes : List (Text × Route) := []
deriving DecidableEq, Repr, Inhabited

namespace RouteTable

/-- The table with `path` leading to `route`. -/
def insert (table : RouteTable) (path : Text) (route : Route) : RouteTable :=
  { routes := Listing.put path route table.routes }

/-- The table of routes given one after the other. -/
def ofList (l : List (Text × Route)) : RouteTable :=
  l.foldl (fun table (path, route) => table.insert path route) {}

/-- The route of a path. -/
def get? (table : RouteTable) (path : Text) : Option Route :=
  Listing.get? path table.routes

/-- The first path whose route has the name. -/
def reverse? (table : RouteTable) (name : Text) : Option Text :=
  (table.routes.find? (·.2.name? = some name)).map (·.1)

/-- The paths in their order. -/
def paths (table : RouteTable) : List Text := table.routes.map (·.1)

theorem get?_insert_self (table : RouteTable) (path : Text) (route : Route) :
    (table.insert path route).get? path = some route :=
  Listing.get?_put_self path route table.routes

theorem get?_insert_of_ne (table : RouteTable) {path other : Text} (h : other ≠ path)
    (route : Route) : (table.insert path route).get? other = table.get? other :=
  Listing.get?_put_of_ne h route table.routes

theorem paths_insert_of_mem (table : RouteTable) {path : Text} (h : path ∈ table.paths)
    (route : Route) : (table.insert path route).paths = table.paths :=
  Listing.keys_put_of_mem h route

theorem paths_insert_of_not_mem (table : RouteTable) {path : Text} (h : path ∉ table.paths)
    (route : Route) : (table.insert path route).paths = table.paths ++ [path] :=
  Listing.keys_put_of_not_mem h route

end RouteTable

end Stencil
