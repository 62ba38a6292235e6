import Stencil.Proofs.Layer.Cleaning
import Stencil.Proofs.Nesting.Extent
import Stencil.Proofs.Nesting.Page
import Stencil.Proofs.Render.Endless
import Stencil.Proofs.Render.Footprint
import Stencil.Proofs.Render.Outermost

/-!
# A body that the template never closes

A template that opens a body and never closes it is walked as if it ended before that line: the
lines from there on are held by the capture and blanked where they stood, so that cleaning drops
them with the line ends that they stand for. The page is the one of the lines before
(`Engine.render_unterminated`), as long as no parent waits. A parent is walked while the capture is
still open, and goes into it (`Engine.render_unterminated_condition`).
-/

namespace Stencil

/-! ## Cleaning the layer -/

theorem Stack.clean_modify_discarded {stack : Stack} {name : Text} (hn : stack.names.Nodup)
    {dropped : List Line} (h : ∀ line ∈ dropped, line.discarded = true) (lines : List Line) :
    (stack.modify name fun layer => { layer with lines := lines ++ dropped }).clean name =
      (stack.modify name fun layer => { layer with lines }).clean name := by
  have hclean : ∀ layer : Layer, ({ layer with lines := lines ++ dropped } : Layer).clean =
      ({ layer with lines } : Layer).clean := by
    intro layer
    simp only [Layer.clean, Layer.cleanFrom_append_discarded h]
  have hcomp : (Layer.clean ∘ fun layer : Layer => { layer with lines := lines ++ dropped }) =
      Layer.clean ∘ fun layer : Layer => { layer with lines } := funext hclean
  unfold clean
  rw [get?_modify, get?_modify, if_pos rfl, if_pos rfl]
  cases hg : stack.get? name with
  | none =>
    simp only [Option.map_none, modify_of_not_contains (get?_eq_none_iff.1 hg)]
  | some layer =>
    simp only [Option.map_some, hclean, modify_modify, hcomp, erase_modify,
      modify_of_not_contains (not_contains_erase hn name)]

namespace Session

/-- The session with the template asked for cleaned. -/
def cleaned (session : Session) : Session :=
  { session with layers := session.layers.clean mainName }

variable {session : Session}

theorem cleaned_recast (hn : session.layers.names.Nodup) {dropped : List Line}
    (h : ∀ line ∈ dropped, line.discarded = true) (lines : List Line) :
    (session.recast (lines ++ dropped)).cleaned = (session.recast lines).cleaned := by
  simp only [cleaned, recast, Stack.clean_modify_discarded hn h]

end Session

/-- **A body that is never closed**: the line opens it and takes in no other template, and the body
stays open over all lines behind it. -/
structure Unended (opening : Line) (construct : Construct) (rest : List Line) : Prop where
  not_inherits : Directive.inherits.occursIn opening.text = false
  not_includes : Directive.includes.occursIn opening.text = false
  begins : opening.begins? = some construct
  staysOpen : StaysOpen construct.directive 1 rest

/-- What is open at the end of a template with such a body. -/
def Capture.unended (construct : Construct) (rest : List Line) : Capture where
  construct
  depth := 1 + openings construct.directive rest - closings construct.directive rest
  buffer := rest

/-! ## Walking the template -/

namespace Render

variable {engine : Engine} {context : Context} {depth : Nat} {after : Session}

theorem loading_eq_recast (sources others : List Text) :
    ({} : Session).loading sources =
      (({} : Session).loading others).recast (Layer.ofSource .main sources).lines := by
  simp [Session.loading, Session.recast, Stack.insert, Stack.contains, Stack.modify, Layer.ofSource]

section Unterminated

variable {opening : Line} {rest : List Line} {construct : Construct}

/-- The lines behind the one that opens the body are held, and blanked with it. -/
theorem outcome_handleFrom_unended {walker : Walker} {chain : Chain} {session : Session}
    {done : List Line} (hu : Unended opening construct rest) (hr : opening.rendered = false)
    (hc : session.capture = none) :
    outcome (handleFrom engine context walker chain mainName done.length (opening :: rest))
        (session.recast (done ++ opening :: rest)) =
      .ok ((), (session.recast (done ++ (opening :: rest).map Line.blank)).capturing
        (.unended construct rest)) := by
  have hhold : ({ construct } : Capture).holdAll rest = some (.unended construct rest) :=
    (Capture.holdAll_eq_some_iff Nat.one_pos).2 ⟨hu.staysOpen, rfl⟩
  have hopened :
      (session.recast (done ++ opening :: rest)).write mainName done.length [opening.blank] =
        session.recast (done ++ [opening.blank] ++ rest) :=
    session.recast_write (by simp)
  have hblanked : (session.recast (done ++ [opening.blank] ++ rest)).write mainName
      (done ++ [opening.blank]).length (rest.map Line.blank) =
        session.recast (done ++ (opening :: rest).map Line.blank) := by
    rw [session.recast_write (by simp)]
    simp
  rw [outcome_handleFrom_cons, outcome_handle_begins (by simpa using hc) hr
    hu.not_inherits hu.not_includes hu.begins]
  simp only [Except.bind, Session.write_capturing, hopened]
  calc outcome (handleFrom engine context walker chain mainName (done.length + 1) rest)
        ((session.recast (done ++ [opening.blank] ++ rest)).capturing { construct })
      = outcome (handleFrom engine context walker chain mainName (done ++ [opening.blank]).length
            (rest ++ []))
          ((session.recast (done ++ [opening.blank] ++ rest)).capturing { construct }) := by
        rw [List.append_nil, List.length_append, List.length_singleton]
    _ = _ := by
        rw [outcome_handleFrom_of_holdAll hhold, hblanked]
        rfl

theorem exists_handleFrom_unended {lines : List Line} {session last : Session}
    (hu : Unended opening construct rest) (hr : opening.rendered = false)
    (h : outcome (handleFrom engine context (walk engine context depth) [mainName] mainName 0 lines)
      (session.recast lines) = .ok ((), last)) (hc : last.capture = none) :
    ∃ (base : Session) (out : List Line), last = base.recast out ∧
      outcome (handleFrom engine context (walk engine context depth) [mainName] mainName 0
          (lines ++ opening :: rest)) (session.recast (lines ++ opening :: rest)) =
        .ok ((), (base.recast (out ++ (opening :: rest).map Line.blank)).capturing
          (.unended construct rest)) := by
  have h' : outcome (handleFrom engine context (walk engine context depth) [mainName] mainName
      ([] : List Line).length lines) (session.recast ([] ++ lines)) = .ok ((), last) := h
  obtain ⟨base, out, hout, rfl, hrest⟩ :=
    outcome_handleFrom_append (List.mem_singleton_self mainName) h'
  have hnext := hrest (opening :: rest)
  simp only [List.length_nil, List.nil_append, Nat.zero_add, ← hout] at hnext
  exact ⟨base, out, rfl, hnext.trans (outcome_handleFrom_unended hu hr hc)⟩

/-- **The walk of a template with such a body** comes to what the walk of the lines before it comes
to, but for the capture. -/
theorem exists_walk_unended {sources before : List Text}
    (hlines : (Layer.ofSource .main sources).lines =
      (Layer.ofSource .main before).lines ++ opening :: rest)
    (hu : Unended opening construct rest)
    (hw : outcome (walk engine context depth [mainName]) (({} : Session).loading before) =
      .ok ((), after)) (hc : after.capture = none) :
    ∃ final, outcome (walk engine context depth [mainName]) (({} : Session).loading sources) =
        .ok ((), final) ∧ final.cleaned = after.cleaned.capturing (.unended construct rest) := by
  have hstands : Keeps engine [] [(mainName, .main)] 0 (walk engine context depth [mainName])
      (({} : Session).loading before) :=
    keeps_walk (stands_loading (Session.stands_empty engine) (.inl rfl) before) depth [mainName]
  have hnames : after.layers.names.Nodup := (Ends.of_outcome_ok hstands hw).names_nodup
  have hmem : opening ∈ (Layer.ofSource .main sources).lines := by
    rw [hlines]
    exact List.mem_append_right _ List.mem_cons_self
  have hr : opening.rendered = false := by rw [Layer.eq_of_mem_ofSource hmem]
  cases depth with
  | zero => cases hw
  | succ depth =>
    have hget : ∀ source : List Text, (({} : Session).loading source).layers.get? mainName =
        some (Layer.ofSource .main source) := fun _ => Stack.get?_insert_self ..
    obtain ⟨last, hlast, rfl⟩ := (outcome_walk_eq_ok_iff (hget before)).1 hw
    rw [loading_eq_recast before before, Session.recast_entered] at hlast
    obtain ⟨base, out, rfl, hlong⟩ := exists_handleFrom_unended hu hr hlast hc
    have hbase : base.layers.names.Nodup := by
      simpa only [Session.recast, Stack.names_modify] using hnames
    have hblank : ∀ line ∈ (opening :: rest).map Line.blank, line.discarded = true := by
      intro line hl
      obtain ⟨l, -, rfl⟩ := List.mem_map.1 hl
      rfl
    rw [← hlines, ← Session.recast_entered, ← loading_eq_recast sources before] at hlong
    refine ⟨_, (outcome_walk_eq_ok_iff (hget sources)).2 ⟨_, hlong, rfl⟩, ?_⟩
    exact congrArg (fun s : Session =>
      ({ s with active := s.active.tail }).capturing (.unended construct rest))
      (Session.cleaned_recast hbase hblank out)

end Unterminated

end Render

namespace Engine

open Render

variable {engine : Engine} {context : Context}

/-- **A body that the template never closes** takes all lines from the one that opens it on, whatever
stands on them, and what the template comes to is what the lines before it come to, but for the
capture that stays open. If no parent waits, then both have the same page. If one does, it is walked
while the capture is open. -/
theorem render_unterminated {name name' : Text} {sources before : List Text} {opening : Line}
    {rest : List Line} {construct : Construct} {after : Session}
    (hl : engine.loadLines name [] = .ok sources) (hl' : engine.loadLines name' [] = .ok before)
    (hlines : (Layer.ofSource .main sources).lines =
      (Layer.ofSource .main before).lines ++ opening :: rest)
    (hu : Unended opening construct rest)
    (hw : outcome (walk engine context engine.depthLimit [mainName])
      (({} : Session).loading before) = .ok ((), after)) (hc : after.capture = none) :
    outcome (load engine context engine.depthLimit name) {} =
        outcome (walkParents engine context engine.depthLimit engine.depthLimit)
          (after.cleaned.capturing (.unended construct rest)) ∧
      outcome (load engine context engine.depthLimit name') {} =
        outcome (walkParents engine context engine.depthLimit engine.depthLimit) after.cleaned ∧
      (after.pending = [] →
        engine.render name context = .ok after.cleaned.page ∧
          engine.render name' context = .ok after.cleaned.page) := by
  obtain ⟨final, hfinal, hclean⟩ := exists_walk_unended hlines hu hw hc
  have hload : outcome (load engine context engine.depthLimit name) {} =
      outcome (walkParents engine context engine.depthLimit engine.depthLimit)
        (after.cleaned.capturing (.unended construct rest)) := by
    rw [outcome_load_eq, hl, ← hclean]
    simp only [Except.bind]
    rw [hfinal]
    rfl
  have hload' : outcome (load engine context engine.depthLimit name') {} =
      outcome (walkParents engine context engine.depthLimit engine.depthLimit) after.cleaned := by
    rw [outcome_load_eq, hl']
    simp only [Except.bind]
    rw [hw]
    rfl
  refine ⟨hload, hload', fun hp => ⟨?_, ?_⟩⟩
  · have hempty : (after.cleaned.capturing (.unended construct rest)).pending = [] := hp
    rw [render_eq_outcome, hload, outcome_walkParents_of_empty hempty]
    rfl
  · have hempty : after.cleaned.pending = [] := hp
    rw [render_eq_outcome, hload', outcome_walkParents_of_empty hempty]
    rfl

/-- A loop that shows its elements. -/
def loopLine : Text := "\x7b% for x in xs %\x7d\x7b\x7b x \x7d\x7d\x7b% endfor %\x7d".toList

/-- The line that opens the condition. -/
def openingLine : Line := { text := "\x7b% if q %\x7d".toList }

/-- A template with a condition that is never closed, the line before the condition by itself, and a
parent. -/
def unclosedCondition : Engine where
  templates :=
    [("t".toList, loopLine ++ '\n' :: openingLine.text ++ "\nlost".toList),
      ("u".toList, loopLine), ("p".toList, "parent\n".toList)]

/-- A key that closes the tag it is put into and extends the parent. -/
def extendingKey : Context := Context.ofList
  [("xs".toList, .dict [("\x7d\x7d\x7b% extends \"p\" %\x7d\x7b\x7b".toList, .int 1)])]

/-- The condition takes the line behind it, and a parent as well if one waits. -/
theorem render_unterminated_condition :
    unclosedCondition.render "t".toList pair = unclosedCondition.render "u".toList pair ∧
      unclosedCondition.render "u".toList pair = .ok "12".toList ∧
      unclosedCondition.render "t".toList extendingKey = .ok "Unknown keyUnknown key".toList ∧
      unclosedCondition.render "u".toList extendingKey =
        .ok "parent\nUnknown keyUnknown key".toList := by
  refine ⟨?_, by decide +kernel, by decide +kernel, by decide +kernel⟩
  have hl : unclosedCondition.loadLines "t".toList [] =
      .ok [loopLine, openingLine.text, "lost".toList] := by decide +kernel
  have hl' : unclosedCondition.loadLines "u".toList [] = .ok [loopLine] := by decide +kernel
  have hlines : (Layer.ofSource .main [loopLine, openingLine.text, "lost".toList]).lines =
      (Layer.ofSource .main [loopLine]).lines ++ openingLine :: [{ text := "lost".toList }] := by
    decide +kernel
  have hu : Unended openingLine (.condition "q".toList) [{ text := "lost".toList }] :=
    ⟨by decide +kernel, by decide +kernel, by decide +kernel, by decide +kernel⟩
  have hends : (outcome (walk unclosedCondition pair unclosedCondition.depthLimit [mainName])
      (({} : Session).loading [loopLine])).map (fun p => (p.2.capture, p.2.pending)) =
        .ok (none, []) := by
    decide +kernel
  cases hw : outcome (walk unclosedCondition pair unclosedCondition.depthLimit [mainName])
      (({} : Session).loading [loopLine]) with
  | error e => rw [hw] at hends; cases hends
  | ok p =>
    obtain ⟨u, after⟩ := p
    rw [hw] at hends
    obtain ⟨hc, hp⟩ := Prod.mk.inj (Except.ok.inj hends)
    obtain ⟨-, -, hpages⟩ := render_unterminated hl hl' hlines hu hw hc
    obtain ⟨hpage, hpage'⟩ := hpages hp
    rw [hpage, hpage']

end Engine

end Stencil
