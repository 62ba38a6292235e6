import Mathlib.Data.List.Find
import Mathlib.Data.List.Induction
import Stencil.Engine
import Stencil.Proofs.Text.Split
import Stencil.Route.Reader

/-!
# The history of a route table

A route table comes of routes that were inserted one after the other, by calls or as the members of
a JSON object, and paths may be given again (`RouteTable.Built`). Of all that was inserted two
things count: where a path was given first, which is its place, and what it was given last, which is
its route (`Built.paths_eq`, `Built.get?_eq`). Names are looked up in the table as it stands, so that
a link leads to the first of the places whose route has the name by now (`Built.reverse?_eq`).
-/

namespace Stencil

/-- Whether links call the route by the name. -/
def Route.isNamed (name : Text) (route : Route) : Bool := route.name? = some name

namespace RouteTable

/-- Paths with their routes in the order in which they were given. -/
abbrev History := List (Text × Route)

namespace History

/-- The paths, each of them where it was given first. -/
def paths (history : History) : List Text := (history.map (·.1)).eraseDups

/-- The route that the path was given last. -/
def route? (history : History) (path : Text) : Option Route :=
  (history.reverse.find? (·.1 = path)).map (·.2)

/-- Whether the route that the path was given last has the name. -/
def carries (history : History) (name path : Text) : Bool :=
  (history.route? path).any (Route.isNamed name)

/-- The first of the paths whose route has the name. -/
def reverse? (history : History) (name : Text) : Option Text :=
  history.paths.find? (history.carries name)

/-- What an object gives, member by member. -/
def ofWritten? : Json.Written → Option History
  | .obj members =>
    members.mapM fun (path, route) => do
      return (← Json.decode? path, ← Route.ofWritten? route)
  | _ => none

end History

/-- **The table is built** by the routes of the history, inserted in their order. -/
inductive Built : RouteTable → History → Prop
  | empty : Built {} []
  /-- The table is read from a JSON object. -/
  | read {t : Text} {history : History} {table : RouteTable}
    (hw : (Json.Written.ofText? t).bind History.ofWritten? = some history)
    (ht : RouteTable.ofText t = .ok table) : Built table history
  /-- A route is inserted. -/
  | insert {table : RouteTable} {history : History} (hb : Built table history) (path : Text)
    (route : Route) : Built (table.insert path route) (history ++ [(path, route)])

variable {table : RouteTable} {history : History} {path other name : Text} {route : Route}

/-! ## One more route -/

namespace History

theorem mem_paths : path ∈ history.paths ↔ path ∈ history.map (·.1) := List.mem_eraseDups

/-- A path that was given before keeps its place, and a new one comes last. -/
theorem paths_append (history : History) (path : Text) (route : Route) :
    paths (history ++ [(path, route)]) =
      if path ∈ history.paths then history.paths else history.paths ++ [path] := by
  have happ : paths (history ++ [(path, route)]) =
      history.paths ++ ([path].removeAll (history.map (·.1))).eraseDups := by
    rw [paths, List.map_append, List.eraseDups_append]
    rfl
  rw [happ]
  split
  · next h => simp [List.removeAll, mem_paths.1 h]
  · next h =>
    rw [mem_paths] at h
    simp [List.removeAll, h, List.eraseDups_cons]

theorem nodup_paths (history : History) : history.paths.Nodup := by
  induction history using List.reverseRecOn with
  | nil => exact List.nodup_nil
  | append_singleton history entry ih =>
    rw [paths_append]
    split
    · exact ih
    · next hnew =>
      refine List.nodup_append.2 ⟨ih, by simp, ?_⟩
      rintro p hp q hq rfl
      exact hnew (List.mem_singleton.1 hq ▸ hp)

theorem route?_append (history : History) (path other : Text) (route : Route) :
    route? (history ++ [(path, route)]) other =
      if other = path then some route else history.route? other := by
  simp only [route?, List.reverse_append, List.reverse_singleton, List.singleton_append,
    List.find?_cons]
  by_cases h : path = other
  · simp [h]
  · simp [h, Ne.symm h]

theorem carries_append (history : History) (name path other : Text) (route : Route) :
    carries (history ++ [(path, route)]) name other =
      if other = path then route.isNamed name else history.carries name other := by
  rw [carries, route?_append]
  split <;> rfl

theorem mem_paths_of_carries (h : history.carries name path = true) : path ∈ history.paths := by
  rw [carries, Option.any_eq_true] at h
  obtain ⟨route, hroute, -⟩ := h
  obtain ⟨entry, hentry, -⟩ := Option.map_eq_some_iff.1 hroute
  have hkey : entry.1 = path := by simpa using List.find?_some hentry
  rw [mem_paths, ← hkey]
  exact List.mem_map_of_mem (List.mem_reverse.1 (List.mem_of_find?_eq_some hentry))

theorem reverse?_eq_none_iff :
    history.reverse? name = none ↔ ∀ path, history.carries name path = false := by
  rw [reverse?, List.find?_eq_none]
  constructor
  · intro h path
    cases hc : history.carries name path with
    | false => rfl
    | true => exact absurd hc (h path (mem_paths_of_carries hc))
  · intro h path _
    simp [h path]

end History

/-! ## The table of a history -/

theorem ofList_append (history : History) (path : Text) (route : Route) :
    ofList (history ++ [(path, route)]) = (ofList history).insert path route := by
  simp [ofList]

theorem ofWritten?_eq (written : Json.Written) :
    ofWritten? written = (History.ofWritten? written).map ofList := by
  cases written <;> rfl

/-- What is read from an object is what inserting its members gives. -/
theorem Built.eq_ofList (hb : Built table history) : table = ofList history := by
  induction hb with
  | empty => rfl
  | read hw ht =>
    have hread : ∀ written? : Option Json.Written, written?.bind ofWritten? =
        (written?.bind History.ofWritten?).map ofList := by
      intro written?
      cases written? with
      | none => rfl
      | some written => exact ofWritten?_eq written
    rw [RouteTable.ofText, hread, hw] at ht
    exact (Except.ok.inj ht).symm
  | insert _ path route ih => rw [ih, ofList_append]

theorem paths_ofList (history : History) : (ofList history).paths = history.paths := by
  induction history using List.reverseRecOn with
  | nil => rfl
  | append_singleton history entry ih =>
    rw [ofList_append, History.paths_append, ← ih]
    split
    · next h => exact paths_insert_of_mem _ h _
    · next h => exact paths_insert_of_not_mem _ h _

theorem get?_ofList (history : History) (path : Text) :
    (ofList history).get? path = history.route? path := by
  induction history using List.reverseRecOn with
  | nil => rfl
  | append_singleton history entry ih =>
    rw [ofList_append, History.route?_append]
    split
    · next h => rw [h, get?_insert_self]
    · next h => rw [get?_insert_of_ne _ h, ih]

/-- A path that is listed once leads to the route beside it, so that names can be looked up by going
through the paths. -/
theorem reverse?_eq_find? (h : table.paths.Nodup) (name : Text) :
    table.reverse? name = table.paths.find? fun path =>
      (table.get? path).any (Route.isNamed name) := by
  rw [reverse?, paths, List.find?_map]
  congr 1
  refine List.find?_congr fun entry he => ?_
  have hget : table.get? entry.1 = some entry.2 := Listing.get?_of_mem h he
  simp [Function.comp, hget, Route.isNamed]

namespace Built

theorem paths_eq (hb : Built table history) : table.paths = history.paths := by
  rw [hb.eq_ofList, paths_ofList]

theorem get?_eq (hb : Built table history) (path : Text) :
    table.get? path = history.route? path := by
  rw [hb.eq_ofList, get?_ofList]

theorem reverse?_eq (hb : Built table history) (name : Text) :
    table.reverse? name = history.reverse? name := by
  rw [reverse?_eq_find? (hb.paths_eq ▸ history.nodup_paths), hb.paths_eq]
  simp only [hb.get?_eq]
  rfl

/-- **Place by the first insertion, route by the last.** A table lists each path once, in the order in
which the paths were given first, with the route that each was given last, and a name leads to the
first of them whose route has it. So a route that is overwritten leaves all others where they are,
but it can hide a name and reveal another; and the link to a name is the name taken for a path if and
only if no route has it by now. -/
theorem place_and_route (hb : Built table history) :
    table.paths.Nodup ∧ table.paths = history.paths ∧
    (∀ path, table.get? path = history.route? path) ∧
    (∀ name, table.reverse? name = history.reverse? name) ∧
    -- a route is overwritten
    (∀ path ∈ history.paths, ∀ route, (table.insert path route).paths = table.paths ∧
      (∀ other, other ≠ path → (table.insert path route).get? other = table.get? other) ∧
      (∀ name, (table.insert path route).reverse? name = history.paths.find? fun other =>
        if other = path then route.isNamed name else history.carries name other) ∧
      (∀ name, table.reverse? name = some path →
        (∀ other, history.carries name other = true → other = path) → route.isNamed name = false →
        (table.insert path route).reverse? name = none) ∧
      (∀ name, table.reverse? name = none → route.isNamed name = true →
        (table.insert path route).reverse? name = some path)) ∧
    -- a link is made
    (∀ (engine : Engine) (t : Text), { engine with routes := table }.linkRoutes t =
      Directive.route.pattern.replace (fun tag => (history.reverse? (unquote tag.argument)).getD
        ('/' :: Text.dropStart '/' (unquote tag.argument))) t) ∧
    (∀ name, history.reverse? name = none ↔ ∀ path, history.carries name path = false) := by
  have hover : ∀ path ∈ history.paths, ∀ route name, (table.insert path route).reverse? name =
      history.paths.find? fun other =>
        if other = path then route.isNamed name else history.carries name other := by
    intro path hp route name
    rw [(hb.insert path route).reverse?_eq, History.reverse?, History.paths_append, if_pos hp]
    exact List.find?_congr fun other _ => History.carries_append history name path other route
  refine ⟨hb.paths_eq ▸ history.nodup_paths, hb.paths_eq, hb.get?_eq, hb.reverse?_eq, ?_, ?_,
    fun _ => History.reverse?_eq_none_iff⟩
  · intro path hp route
    refine ⟨paths_insert_of_mem _ (hb.paths_eq ▸ hp) route, fun other h =>
      get?_insert_of_ne _ h route, hover path hp route, ?_, ?_⟩
    · -- the name was carried by this path alone
      intro name _ halone hnot
      rw [hover path hp route, List.find?_eq_none]
      intro other _
      split
      · simp [hnot]
      · next hne => exact fun hc => hne (halone other hc)
    · -- the name was carried by no path
      intro name hnone hnamed
      rw [hb.reverse?_eq, History.reverse?_eq_none_iff] at hnone
      rw [hover path hp route, List.find?_eq_some_iff_append]
      obtain ⟨before, behind, hsplit⟩ := List.append_of_mem hp
      refine ⟨by simp [hnamed], before, behind, hsplit, fun other hm => ?_⟩
      have hnodup := history.nodup_paths
      rw [hsplit, List.nodup_append] at hnodup
      have hne : other ≠ path := hnodup.2.2 other hm path List.mem_cons_self
      simp [hne, hnone other]
  · intro engine t
    rw [Engine.linkRoutes]
    congr 1
    funext tag
    rw [Engine.routeLink, hb.reverse?_eq]

/-- Three paths, one of which is given again without its name. -/
def pages : Text :=
  ("\x7b\"/\": \x7b\"target\": \"a\", \"name\": \"home\"\x7d, " ++
    "\"/old\": \x7b\"target\": \"b\", \"name\": \"groups\"\x7d, " ++
    "\"/new\": \x7b\"target\": \"c\", \"name\": \"groups\"\x7d, " ++
    "\"/old\": \x7b\"target\": \"d\"\x7d\x7d").toList

/-- What the pages give. -/
def given : History :=
  [("/".toList, { target := ['a'], name? := some "home".toList }),
    ("/old".toList, { target := ['b'], name? := some "groups".toList }),
    ("/new".toList, { target := ['c'], name? := some "groups".toList }),
    ("/old".toList, { target := ['d'] })]

/-- A name that two paths share is lost by the first of them. The route of the first path is then
overwritten, which hides its name and takes the shared one back to the front. -/
theorem place_and_route_shared :
    Built (ofList given) given ∧ "/".toList ∈ History.paths given ∧
      (ofList given).paths = ["/".toList, "/old".toList, "/new".toList] ∧
      (ofList given).get? "/old".toList = some { target := ['d'] } ∧
      (ofList given).reverse? "groups".toList = some "/new".toList ∧
      let front : Route := { target := ['e'], name? := some "groups".toList }
      ((ofList given).insert "/".toList front).reverse? "groups".toList = some "/".toList ∧
      ((ofList given).insert "/".toList front).reverse? "home".toList = none ∧
      { ({} : Engine) with routes := (ofList given).insert "/".toList front }.linkRoutes
        "\x7b% url groups %\x7d \x7b% url home %\x7d".toList = "/ /home".toList := by
  have hb : Built (ofList given) given :=
    .read (t := pages) (by decide +kernel) (by decide +kernel)
  have hfront : "/".toList ∈ History.paths given := by decide +kernel
  obtain ⟨-, hpaths, hget, hreverse, hover, -, -⟩ := hb.place_and_route
  obtain ⟨-, -, hshared, hhidden, -⟩ := hover _ hfront ⟨['e'], ["GET".toList], some "groups".toList⟩
  obtain ⟨-, -, -, -, -, hlink, -⟩ := (hb.insert "/".toList
    ⟨['e'], ["GET".toList], some "groups".toList⟩).place_and_route
  refine ⟨hb, hfront, hpaths.trans (by decide +kernel), (hget _).trans (by decide +kernel),
    (hreverse _).trans (by decide +kernel), (hshared _).trans (by decide +kernel), ?_,
    (hlink {} _).trans (by decide +kernel)⟩
  refine hhidden _ ((hreverse _).trans (by decide +kernel)) ?_ (by decide +kernel)
  intro other hc
  have hm := History.mem_paths_of_carries hc
  have honly : ∀ p ∈ History.paths given, History.carries given "home".toList p = true →
      p = "/".toList := by
    decide +kernel
  exact honly other hm hc

end Built

end RouteTable

end Stencil
