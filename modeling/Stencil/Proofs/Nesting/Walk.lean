import Stencil.Proofs.Nesting.Capture
import Stencil.Proofs.Render.InPlace

/-!
# Walking a tree

The walk over the lines of a tree does what `Nesting.render` says (`outcome_handleFrom_sound`): it
stores the lines that the tree renders to, leaves the rest of the session alone, and is idle again
behind the tree. The induction is on `Nesting.Sound`, which follows the recursion of `render`: a
tree is sound if it is well nested, and so is what every iteration of its loops makes of their
bodies.
-/

namespace Stencil

namespace Nesting

/-- **A tree whose iterations are well nested** all the way down. -/
inductive Sound (context : Context) : Nesting → Prop where
  | done : Sound context done
  | text {line : Line} {rest : Nesting} (hl : line.IsPlain) (hr : Sound context rest) :
    Sound context (text line rest)
  | span {d : Directive} {opening closing : Line} {body rest : Nesting} (ho : opening.Opens d)
    (hw : body.WellNested) (hc : closing.Closes d)
    (hb : (d = .loop → opening.header? = none) → Sound context body)
    (hi : d = .loop → ∀ header keys, opening.header? = some header →
      Render.loopKeys context header = .ok keys → ∀ key ∈ keys, ∀ position,
        Sound context (body.expand (Render.iteration context header key position) 0))
    (hr : Sound context rest) : Sound context (span d opening body closing rest)

/-! ## The lines a tree renders to -/

theorem length_consumed (opening : Line) (body : Nesting) (closing : Line) :
    (consumed opening body closing).length = body.lines.length + 2 := by
  simp [consumed]

section Lines

variable {engine : Engine} {context : Context} {replaced? : Text → Option Text}

theorem glued_rewrite (line : Line) : (line.rewrite engine context).glued = line.glued := by
  unfold Line.rewrite
  simp only [Line.edit]
  split
  · rfl
  · split <;> split <;> split <;> rfl

theorem glued_closeLine {body : Nesting} {closing line : Line} {rendered : Except Error Text}
    {iterated : LoopHeader → Nat → Text → Except Error Text} {construct : Construct}
    (h : closeLine context replaced? body closing rendered iterated construct = .ok line) :
    line.glued = closing.glued := by
  have hmap : ∀ rendered : Except Error Text, rendered.map closing.fill = .ok line →
      line.glued = closing.glued := by
    intro rendered h
    obtain ⟨text, -, rfl⟩ := Except.map_eq_ok_iff.1 h
    rfl
  cases construct with
  | block name =>
    simp only [closeLine] at h
    split at h
    · cases h
      rfl
    · exact hmap rendered h
  | condition expression =>
    simp only [closeLine] at h
    split at h
    · exact hmap rendered h
    · cases h
      rfl
    · cases h
      rfl
  | loop variableName collection =>
    rw [closeLine] at h
    obtain ⟨keys, -, h⟩ := Except.bind_eq_ok_iff.1 h
    obtain ⟨texts, -, h⟩ := Except.bind_eq_ok_iff.1 h
    cases h
    rfl

/-- **The line ends are those of the template**, whatever becomes of its lines. -/
theorem map_glued_render {n : Nesting} {out : List Line}
    (h : n.render engine context replaced? = .ok out) :
    out.map Line.glued = n.lines.map Line.glued := by
  induction n generalizing out with
  | done =>
    rw [render_done] at h
    cases h
    rfl
  | text line rest ih =>
    rw [render_text] at h
    obtain ⟨behind, hr, rfl⟩ := Except.map_eq_ok_iff.1 h
    simp [lines, glued_rewrite, ih hr]
  | span d opening body closing rest ihb ihr =>
    cases hcon : opening.construct? d with
    | none =>
      rw [render_span_of_none hcon] at h
      obtain ⟨inner, hb, h⟩ := Except.bind_eq_ok_iff.1 h
      obtain ⟨behind, hr, rfl⟩ := Except.map_eq_ok_iff.1 h
      simp [lines, glued_rewrite, ihb hb, ihr hr]
    | some construct =>
      rw [render_span_of_some hcon] at h
      obtain ⟨line, hl, h⟩ := Except.bind_eq_ok_iff.1 h
      obtain ⟨behind, hr, rfl⟩ := Except.map_eq_ok_iff.1 h
      simp [lines, consumed, glued_closeLine hl, ihr hr]

/-- A tree renders to as many lines as it has. -/
theorem length_render {n : Nesting} {out : List Line}
    (h : n.render engine context replaced? = .ok out) : out.length = n.lines.length := by
  have hlen := congrArg List.length (map_glued_render h)
  rwa [List.length_map, List.length_map] at hlen

end Lines

end Nesting

namespace Render

variable {engine : Engine} {context : Context}

/-! ## Walking bodies -/

/-- The walk over the lines of the tree stores what the tree renders to. -/
def Simulates (engine : Engine) (context : Context) (n : Nesting) : Prop :=
  ∀ (depth : Nat) (session : Session) (chain : Chain) (name : Text) (position : Nat)
    (tail : List Line), n.height ≤ depth → session.capture = none → session.InPlace chain →
    name ∈ chain →
    outcome (handleFrom engine context (walk engine context depth) chain name position
        (n.lines ++ tail)) session =
      (n.render engine context fun _ => none).bind fun out =>
        outcome (handleFrom engine context (walk engine context depth) chain name
          (position + n.lines.length) tail) (session.write name position out)

/-- A layer that holds the tree is walked. -/
theorem outcome_walk_simulates {n : Nesting} (hn : Simulates engine context n) {depth : Nat}
    (hd : n.height < depth) {session : Session} (hc : session.capture = none) {name : Text}
    {outer : Chain} (hi : session.InPlace (name :: outer)) {kind : LayerKind}
    (hget : session.layers.get? name = some ⟨kind, n.lines⟩) :
    outcome (walk engine context depth (name :: outer)) session =
      (n.render engine context fun _ => none).map fun out => ((), session.write name 0 out) := by
  obtain ⟨depth, rfl⟩ : ∃ d, depth = d + 1 := ⟨depth - 1, by omega⟩
  have hsim := hn depth (session.entered name) (name :: outer) name 0 []
    (by omega) hc hi (by simp)
  rw [List.append_nil] at hsim
  rw [outcome_walk_of_get? hget, hsim]
  cases n.render engine context fun _ => none <;> rfl

/-- A layer on top of the stack is walked, and taken off again. -/
theorem outcome_transient_simulates {n : Nesting} (hn : Simulates engine context n) {depth : Nat}
    (hd : n.height < depth) {session : Session} (hc : session.capture = none) {chain : Chain}
    (name : Text) (kind : LayerKind)
    (hi : ∀ full, session.layers.contains full = false →
      Session.InPlace { session with layers := session.layers.insert full ⟨kind, n.lines⟩ }
        (full :: chain)) :
    outcome (transient (walk engine context depth) chain name ⟨kind, n.lines⟩) session =
      (n.render engine context fun _ => none).map fun out => (Nesting.outText out, session) :=
  outcome_transient _ _ _ _ _ (fun out => Nesting.length_render) fun full hf =>
    outcome_walk_simulates hn hd (by exact hc) (hi full hf) (Stack.get?_insert_self ..)

/-- A layer that is no template may be put on top wherever blocks show in place. -/
theorem outcome_transient_body {n : Nesting} (hn : Simulates engine context n) {depth : Nat}
    (hd : n.height < depth) {session : Session} (hc : session.capture = none) {chain : Chain}
    (hi : session.InPlace chain) (name : Text) {kind : LayerKind} (hk : kind.isDocument = false) :
    outcome (transient (walk engine context depth) chain name ⟨kind, n.lines⟩) session =
      (n.render engine context fun _ => none).map fun out => (Nesting.outText out, session) :=
  outcome_transient_simulates hn hd hc name kind fun _ hf => Session.inPlace_insert hi hf hk

/-- The iterations of a loop, when `run` says what becomes of each of them. -/
theorem outcome_iterations {walker : Walker} {chain : Chain} {session : Session}
    {header : LoopHeader} {body : List Line} {run : Nat → Text → Except Error Text}
    {keys : List Text}
    (h : ∀ key ∈ keys, ∀ position,
      outcome (transient walker chain (header.key ++ '.' :: key)
        ⟨.iteration, (iteration context header key position).expand body⟩) session =
      (run position key).map (·, session)) (position : Nat) :
    outcome (iterations context walker chain header body position keys) session =
      (Nesting.iterationTexts run position keys).map (·, session) := by
  induction keys generalizing position with
  | nil => rfl
  | cons key keys ih =>
    rw [iterations, outcome_bind, h key (by simp) position, Nesting.iterationTexts]
    cases run position key with
    | error e => rfl
    | ok text =>
      simp only [Except.map, Except.bind]
      rw [outcome_bind, ih fun key hkey => h key (List.mem_cons_of_mem _ hkey)]
      cases Nesting.iterationTexts run (position + 1) keys <;> rfl

section Close

variable {depth : Nat} {session : Session} {chain : Chain} {body : Nesting} {closing : Line}
  (hd : body.height < depth) (hc : session.capture = none) (hi : session.InPlace chain)
include hd hc hi

theorem outcome_endBlock (hb : Simulates engine context body) (name : Text) :
    outcome (endBlock (walk engine context depth) chain name body.lines closing) session =
      ((body.render engine context fun _ => none).map Nesting.outText).map fun content =>
        (closing.fill content, session) := by
  rw [endBlock, outcome_bind, outcome_transient_body hb hd hc hi name rfl]
  cases body.render engine context fun _ => none with
  | error e => rfl
  | ok out =>
    simp only [Except.map, Except.bind]
    rw [outcome_bind, outcome_get]
    simp only [Except.bind]
    split
    · rfl
    · next hinside =>
      obtain ⟨hslot, hshow⟩ := hi.resolve_left hinside
      rw [hslot name]
      simp only [hshow, ↓reduceIte]
      rfl

theorem outcome_endLoop {header : LoopHeader}
    (hb : ∀ keys, loopKeys context header = .ok keys → ∀ key ∈ keys, ∀ position,
      Simulates engine context (body.expand (iteration context header key position) 0)) :
    outcome (endLoop context (walk engine context depth) chain header body.lines closing) session =
      (do
        let keys ← loopKeys context header
        let texts ← Nesting.iterationTexts (fun position key =>
          ((body.expand (iteration context header key position) 0).render engine context
            fun _ => none).map Nesting.outText) 0 keys
        return (closing.fill (Text.join (separator body.lines) texts), session)) := by
  rw [endLoop]
  cases hk : loopKeys context header with
  | error e => rfl
  | ok keys =>
    have hrun : ∀ key ∈ keys, ∀ position,
        outcome (transient (walk engine context depth) chain (header.key ++ '.' :: key)
          ⟨.iteration, (iteration context header key position).expand body.lines⟩) session =
        (((body.expand (iteration context header key position) 0).render engine context
          fun _ => none).map Nesting.outText).map (·, session) := by
      intro key hkey position
      have hbody := outcome_transient_body (hb keys hk key hkey position)
        (by rw [Nesting.height_expand]; exact hd) hc hi (header.key ++ '.' :: key)
        (show LayerKind.isDocument .iteration = false from rfl)
      rw [Nesting.lines_expand] at hbody
      rw [Iteration.expand, hbody]
      cases (body.expand (iteration context header key position) 0).render engine context
        fun _ => none <;> rfl
    simp only
    rw [outcome_bind, outcome_iterations hrun 0]
    show _ = (Nesting.iterationTexts _ 0 keys).bind _
    generalize Nesting.iterationTexts _ 0 keys = texts
    cases texts <;> rfl

theorem outcome_endCondition (hb : Simulates engine context body) (expression : Text) :
    outcome (endCondition context (walk engine context depth) chain expression body.lines closing)
        session =
      (match Condition.evaluate expression context with
        | .ok true => ((body.render engine context fun _ => none).map Nesting.outText).map closing.fill
        | .ok false => .ok closing.blank
        | .error _ => .ok (closing.fill (Condition.errorText expression))).map (·, session) := by
  rw [endCondition]
  cases Condition.evaluate expression context with
  | error e => rfl
  | ok holds =>
    cases holds with
    | false => rfl
    | true =>
      simp only
      rw [outcome_bind, outcome_transient_body hb hd hc hi expression rfl]
      cases body.render engine context fun _ => none <;> rfl

/-- **Closing a body** puts into the closing line what `Nesting.closeLine` says. -/
theorem outcome_close {construct : Construct}
    (hb : (∀ variableName collection, construct ≠ .loop variableName collection) →
      Simulates engine context body)
    (hl : ∀ header keys, construct = .loop header.variableName header.collection →
      loopKeys context header = .ok keys → ∀ key ∈ keys, ∀ position,
        Simulates engine context (body.expand (iteration context header key position) 0)) :
    outcome (close context (walk engine context depth) chain body.lines closing construct) session =
      (Nesting.closeLine context (fun _ => none) body closing
        ((body.render engine context fun _ => none).map Nesting.outText)
        (fun header position key =>
          ((body.expand (iteration context header key position) 0).render engine context
            fun _ => none).map Nesting.outText) construct).map (·, session) := by
  cases construct with
  | block name =>
    rw [close, outcome_endBlock hd hc hi (hb (by simp)) name, Nesting.closeLine]
    cases body.render engine context fun _ => none <;> rfl
  | loop variableName collection =>
    rw [close, outcome_endLoop hd hc hi fun keys => hl ⟨variableName, collection⟩ keys rfl,
      Nesting.closeLine]
    cases loopKeys context ⟨variableName, collection⟩ with
    | error e => rfl
    | ok keys =>
      show (Nesting.iterationTexts _ 0 keys).bind _ =
        ((Nesting.iterationTexts _ 0 keys).bind _).map _
      generalize Nesting.iterationTexts _ 0 keys = texts
      cases texts <;> rfl
  | condition expression =>
    rw [close, Nesting.closeLine]
    exact outcome_endCondition hd hc hi (hb (by simp)) expression

end Close

/-- A span that is a body for something: the body is captured and handed over. -/
theorem outcome_handleFrom_span {walker : Walker} {chain : Chain} {d : Directive}
    {opening closing : Line} {body : Nesting} {construct : Construct} (ho : opening.Opens d)
    (hw : body.WellNested) (hcl : closing.Closes d) (hcon : opening.construct? d = some construct)
    (name : Text) (position : Nat) (rest : List Line) {session : Session}
    (hc : session.capture = none) :
    outcome (handleFrom engine context walker chain name position
        (opening :: (body.lines ++ closing :: rest))) session =
      (outcome (close context walker chain body.lines closing construct)
        (session.write name position (opening.blank :: body.lines.map Line.blank))).bind fun p =>
          outcome (handleFrom engine context walker chain name (position + body.lines.length + 2) rest)
            (p.2.write name (position + body.lines.length + 1) [p.1]) := by
  have hbody := hasBody_of_closes hcl
  have hdirective : construct.directive = d := by
    cases d with
    | block | condition =>
      obtain rfl := Option.some.inj hcon
      rfl
    | loop =>
      obtain ⟨header, -, rfl⟩ := Option.map_eq_some_iff.1 hcon
      rfl
    | _ => cases hbody
  have hzero : ∀ buffer, Capture.depthAfter { construct, buffer } closing = 0 := by
    intro buffer
    rw [depthAfter_closes hcl]
    simp [hdirective]
  rw [outcome_handleFrom_cons, outcome_handle_opens hbody hc ho, hcon]
  simp only [Except.bind, Session.write_capturing]
  rw [outcome_handleFrom_captured hw name _ _ (Nat.le_refl 1), outcome_handleFrom_cons,
    outcome_handle_closes (by simpa using hc) (hzero _),
    Session.write_write session name _ (by simp)]
  simp only [List.nil_append, List.cons_append]
  generalize outcome (close context walker chain body.lines closing construct) _ = result
  cases result with
  | error e => rfl
  | ok p =>
    simp only [Except.bind]
    rw [show position + 1 + body.lines.length = position + body.lines.length + 1 by omega]

theorem header?_of_construct?_eq_none {d : Directive} {line : Line} (hb : d.hasBody = true)
    (h : line.construct? d = none) : d = .loop ∧ line.header? = none := by
  cases d with
  | loop => exact ⟨rfl, Option.map_eq_none_iff.1 h⟩
  | block | condition => cases h
  | _ => cases hb

theorem header?_of_construct?_eq_loop {d : Directive} {line : Line} {v c : Text}
    (h : line.construct? d = some (.loop v c)) : d = .loop ∧ line.header? = some ⟨v, c⟩ := by
  cases d with
  | loop =>
    obtain ⟨header, hh, heq⟩ := Option.map_eq_some_iff.1 h
    obtain ⟨rfl, rfl⟩ : header.variableName = v ∧ header.collection = c := by simpa using heq
    exact ⟨rfl, hh⟩
  | block | condition => cases Option.some.inj h
  | _ => cases h

theorem construct?_loop {line : Line} {header : LoopHeader} (h : line.header? = some header) :
    line.construct? .loop = some (.loop header.variableName header.collection) :=
  Option.map_eq_some_iff.2 ⟨header, h, rfl⟩

/-- **The walk over a sound tree** stores what the tree renders to, and does nothing else. -/
theorem simulates_of_sound {n : Nesting} (hn : n.Sound context) : Simulates engine context n := by
  induction hn with
  | done =>
    intro depth session chain name position tail _ _ _ _
    simp [Nesting.lines, Except.bind]
  | @text line rest hl _ ih =>
    intro depth session chain name position tail hd hc hi hname
    rw [Nesting.lines, List.cons_append, outcome_handleFrom_cons,
      outcome_handle_unopened hc (hl.imp_right And.left), Nesting.render_text]
    simp only [Except.bind]
    rw [ih depth _ chain name _ tail hd (by simpa using hc) (Session.inPlace_write hi hname ..) hname]
    cases rest.render engine context fun _ => none with
    | error e => rfl
    | ok out =>
      simp only [Except.bind, Except.map]
      rw [Session.write_write session name out (by simp), List.length_cons, Nat.add_right_comm,
        Nat.add_assoc]
      rfl
  | @span d opening closing body rest ho hw hcl hb hi' hr ihb ihi ihr =>
    intro depth session chain name position tail hd hc hi hname
    rw [Nesting.height] at hd
    have hbody := hasBody_of_closes hcl
    rw [Nesting.lines, List.cons_append, List.append_assoc, List.cons_append]
    cases hcon : opening.construct? d with
    | none =>
      -- the span stands as text, and its body is walked where it stands
      obtain ⟨-, hnone⟩ := header?_of_construct?_eq_none hbody hcon
      rw [outcome_handleFrom_cons, outcome_handle_opens hbody hc ho, hcon,
        Nesting.render_span_of_none hcon]
      simp only [Except.bind]
      rw [ihb (fun _ => hnone) depth _ chain name _ _ (by omega) (by simpa using hc)
        (Session.inPlace_write hi hname ..) hname]
      cases hres : body.render engine context fun _ => none with
      | error e => rfl
      | ok out =>
        have hlen := Nesting.length_render hres
        simp only [Except.bind]
        rw [Session.write_write session name out (by simp), outcome_handleFrom_cons,
          outcome_handle_unopened (by simpa using hc) (.inr hcl.opened)]
        simp only [Except.bind]
        rw [Session.write_write session name _ (by simp [hlen]; omega),
          ihr depth _ chain name _ tail (by omega) (by simpa using hc)
            (Session.inPlace_write hi hname ..) hname]
        cases rest.render engine context fun _ => none with
        | error e => rfl
        | ok behind =>
          simp only [Except.bind, Except.map]
          rw [Session.write_write session name behind (by simp [hlen]; omega)]
          simp [Nat.add_assoc, Nat.add_comm, Nat.add_left_comm]
    | some construct =>
      rw [outcome_handleFrom_span ho hw hcl hcon name position _ hc,
        outcome_close (by omega) (by simpa using hc) (Session.inPlace_write hi hname ..),
        Nesting.render_span_of_some hcon]
      · generalize Nesting.closeLine context (fun _ => none) body closing _ _ construct = result
        cases result with
        | error e => rfl
        | ok line =>
          simp only [Except.map, Except.bind]
          rw [Session.write_write session name _ (by simp; omega),
            ihr depth _ chain name _ tail (by omega) (by simpa using hc)
              (Session.inPlace_write hi hname ..) hname]
          cases rest.render engine context fun _ => none with
          | error e => rfl
          | ok behind =>
            simp only [Except.bind]
            have hend : position + body.lines.length + 2 + rest.lines.length =
                position + (opening :: (body.lines ++ closing :: rest.lines)).length := by
              simp
              omega
            rw [Session.write_write session name behind (by simp; omega), hend]
            simp [Nesting.consumed]
      · intro hne
        refine ihb ?_
        rintro rfl
        cases hh : opening.header? with
        | none => rfl
        | some header =>
          rw [construct?_loop hh] at hcon
          exact absurd (Option.some.inj hcon).symm (hne _ _)
      · rintro header keys rfl hkeys key hkey pos
        obtain ⟨rfl, hh⟩ := header?_of_construct?_eq_loop hcon
        exact ihi rfl header keys hh hkeys key hkey pos

end Render

end Stencil
