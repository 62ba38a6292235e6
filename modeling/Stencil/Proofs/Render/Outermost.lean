import Stencil.Proofs.Render.InPlace
import Stencil.Proofs.Render.Settled

/-!
# The layer that the render started with

While the template asked for is walked, nothing but the walk itself looks at its lines: a layer on
top of it has another name, a slot is not looked for in a layer that is being walked, and where a
block shows depends on names and kinds. So whatever happens inside a line happens in the same way
for other lines of that layer (`Render.Blind`); there is one lemma for each part of a render, and
`handle_blind` is what they come to. Hence lines that follow make no difference to the walk of those
before them (`outcome_handleFrom_append`).
-/

namespace Stencil

namespace Session

/-- The session with other lines in the layer of the template asked for. -/
def recast (session : Session) (lines : List Line) : Session :=
  { session with layers := session.layers.modify mainName fun layer => { layer with lines } }

variable {session : Session} {chain : Chain}

@[simp] theorem capture_recast (session : Session) (lines : List Line) :
    (session.recast lines).capture = session.capture := rfl

theorem recast_entered (session : Session) (name : Text) (lines : List Line) :
    (session.recast lines).entered name = (session.entered name).recast lines := rfl

theorem transientName_recast (session : Session) (lines : List Line) (name : Text) (layer : Layer) :
    (session.recast lines).transientName name layer = session.transientName name layer := by
  unfold transientName recast
  simp only [Stack.freshName_modify]

theorem kind_get?_recast (session : Session) (lines : List Line) (name : Text) :
    ((session.recast lines).layers.get? name).map Layer.kind =
      (session.layers.get? name).map Layer.kind := by
  rw [recast, Stack.get?_modify]
  split
  · next h =>
    subst h
    cases session.layers.get? mainName <;> rfl
  · rfl

theorem isInside_recast (session : Session) (lines : List Line) (chain : Chain) (kind : LayerKind) :
    (session.recast lines).isInside chain kind = session.isInside chain kind :=
  isInside_congr fun name _ => kind_get?_recast session lines name

theorem showsInPlace_recast (session : Session) (lines : List Line) (chain : Chain) :
    Render.showsInPlace (session.recast lines) chain = Render.showsInPlace session chain := by
  have hposition : ∀ name,
      (session.recast lines).layers.position? name = session.layers.position? name :=
    Stack.position?_congr (Stack.names_modify ..)
  unfold Render.showsInPlace
  rw [document?_congr fun name _ => kind_get?_recast session lines name]
  simp only [hposition]

/-- Lines stored in the layer take the place of as many. -/
theorem recast_write (session : Session) {before behind out : List Line}
    (h : out.length ≤ behind.length) :
    (session.recast (before ++ behind)).write mainName before.length out =
      session.recast (before ++ out ++ behind.drop out.length) := by
  have hlayers : (fun layer => layer.writeFrom before.length out) ∘
      (fun layer : Layer => { layer with lines := before ++ behind }) =
        fun layer => { layer with lines := before ++ out ++ behind.drop out.length } := by
    funext layer
    have hlines := Layer.lines_writeFrom { layer with lines := before ++ behind } rfl h
    have hkind := Layer.kind_writeFrom { layer with lines := before ++ behind } before.length out
    simp only [Function.comp]
    generalize Layer.writeFrom { layer with lines := before ++ behind } before.length out = written
      at hlines hkind ⊢
    cases written
    exact congrArg₂ Layer.mk hkind hlines
  simp only [write, recast, Stack.write, Stack.modify_modify, hlayers]

/-- A slot is not looked for in the layers being walked. -/
theorem slot?_recast (h : mainName ∈ chain) (session : Session) (lines : List Line) (slot : Text) :
    Render.slot? (session.recast lines).layers chain slot =
      Render.slot? session.layers chain slot := by
  unfold Render.slot? recast Stack.modify
  rw [List.findSome?_map]
  refine findSome?_congr fun entry _ => ?_
  by_cases he : entry.1 = mainName <;> simp [he, h]

end Session

namespace Render

variable {α β : Type}

/-- What the part of a render does is the same for other lines of the layer that the render started
with, and it leaves these lines alone. -/
def Blind (part : Render α) : Prop :=
  ∀ (session : Session) (lines : List Line),
    part (session.recast lines) = ((part session).1, (part session).2.recast lines)

namespace Blind

theorem pure (a : α) : Blind (pure a) := fun _ _ => rfl

theorem throw (e : Error) : Blind (throw e : Render α) := fun _ _ => rfl

theorem modify {f : Session → Session}
    (h : ∀ session lines, f (session.recast lines) = (f session).recast lines) :
    Blind (modify f : Render PUnit) :=
  fun session lines => congrArg (Prod.mk (Except.ok PUnit.unit)) (h session lines)

theorem bind {part : Render α} {f : α → Render β} (h : Blind part) (hf : ∀ a, Blind (f a)) :
    Blind (part >>= f) := by
  intro session lines
  have hpart := h session lines
  cases hp : part session with
  | mk result after =>
    rw [hp] at hpart
    cases result with
    | ok a => rw [bind_of_ok hpart, bind_of_ok hp, hf a]
    | error e => rw [bind_of_error hpart, bind_of_error hp]

/-- A part that reads the session may go on from anything but the lines. -/
theorem get_bind {f : Session → Render β} (h : ∀ session, Blind (f session))
    (hf : ∀ session lines, f (session.recast lines) = f session) :
    Blind ((get : Render Session) >>= f) := by
  intro session lines
  have hget : ∀ session, ((get : Render Session) >>= f) session = f session session := fun _ => rfl
  rw [hget, hget, hf, h]

theorem outcome_eq {part : Render α} (h : Blind part) (session : Session) (lines : List Line) :
    outcome part (session.recast lines) =
      (outcome part session).map fun p => (p.1, p.2.recast lines) := by
  unfold outcome
  rw [h session lines]
  cases part session with
  | mk result after => cases result <;> rfl

theorem abandoning {part : Render α} (h : Blind part) : Blind (abandoning part) := by
  intro session lines
  simp only [Render.abandoning, h session lines]
  rfl

theorem entering {part : Render Unit} (h : Blind part) (name : Text) :
    Blind (entering name part) := by
  intro session lines
  have hpart : part { session.recast lines with active := name :: session.active } = _ :=
    h (session.entered name) lines
  unfold Render.entering
  rw [show (session.recast lines).active = session.active from rfl, hpart]
  rfl

theorem source (engine : Engine) (name : Text) (subdirs : List Text) :
    Blind (source engine name subdirs) := by
  unfold Render.source
  split
  · exact pure _
  · exact throw _

theorem inherit (engine : Engine) (line : Line) : Blind (inherit engine line) := by
  unfold Render.inherit
  split
  · exact pure _
  · next tag _ =>
    refine get_bind (fun session => ?_) fun _ _ => rfl
    cases session.extended.contains (unquote tag.argument) with
    | true => exact fun _ _ => rfl
    | false =>
      refine (modify fun _ _ => rfl).bind fun _ => (source engine _ _).bind fun lines => ?_
      refine (modify fun session lines' => ?_).bind fun _ => pure _
      have hname : Stack.fullName LayerKind.parent.label? (unquote tag.argument) ≠ mainName :=
        fullName_ne_mainName _ _
      simp only [Session.recast, Stack.insertFront_modify hname]

theorem beginCapture (construct : Construct) (line : Line) :
    Blind (do Render.beginCapture construct; return line) := by
  refine bind ?_ fun _ => pure _
  refine get_bind (fun session => ?_) fun _ _ => rfl
  cases Capture.begin session.capture construct with
  | error e => exact (throw e).bind fun _ => modify fun _ _ => rfl
  | ok capture => exact (pure capture).bind fun _ => modify fun _ _ => rfl

end Blind

section Walker

variable {engine : Engine} {context : Context} {walker : Walker} {chain : Chain}
  (hw : ∀ name chain, name ≠ mainName → mainName ∈ chain → Blind (walker (name :: chain)))
  (hmain : mainName ∈ chain)
include hw hmain

theorem transient_blind (name : Text) (layer : Layer) :
    Blind (transient walker chain name layer) := by
  intro session lines
  rw [transient_apply, transient_apply, Session.transientName_recast]
  generalize hf : session.transientName name layer = full
  have hne : full ≠ mainName := hf ▸ fullName_ne_mainName _ _
  have hplaced : (session.recast lines).placing full layer =
      (session.placing full layer).recast lines := by
    simp only [Session.placing, Session.recast, Stack.insert_modify hne]
  simp only [hplaced, hw full chain hne hmain _ lines]
  generalize walker (full :: chain) (session.placing full layer) = ended
  have hget : (ended.2.recast lines).layers.get? full = ended.2.layers.get? full := by
    rw [Session.recast, Stack.get?_modify, if_neg hne]
  rw [hget]
  simp only [Session.removing, Session.recast, Stack.erase_modify]

theorem included_blind (name : Text) : Blind (included engine walker chain name) := by
  unfold included
  split
  · exact .pure _
  · split
    · exact .pure _
    · exact (transient_blind hw hmain _ _).abandoning

theorem splice_blind (tags : List (Tag × Text)) : Blind (splice engine walker chain tags) := by
  induction tags with
  | nil => exact .pure _
  | cons tag rest ih => exact ih.bind fun _ => (included_blind hw hmain _).bind fun _ => .pure _

theorem apply_blind (line : Line) (d : Directive) :
    Blind (apply engine context walker chain line d) := by
  cases d with
  | inherits => exact .inherit engine line
  | includes => exact (splice_blind hw hmain _).bind fun _ => .pure _
  | block | loop | condition =>
    rw [apply]
    split
    · exact .pure _
    · exact .beginCapture _ _
  | asset | route | interpolation => exact .pure _

theorem dispatch_blind (ds : List Directive) (line : Line) :
    Blind (dispatch engine context walker chain ds line) := by
  induction ds generalizing line with
  | nil => exact .pure _
  | cons d ds ih =>
    refine .get_bind (fun session => ?_) fun _ _ => rfl
    split
    · exact .pure _
    · split
      · exact (apply_blind hw hmain line d).bind ih
      · exact (Blind.pure _).bind ih

theorem endBlock_blind (name : Text) (body : List Line) (line : Line) :
    Blind (endBlock walker chain name body line) := by
  refine (transient_blind hw hmain _ _).bind fun content => .get_bind (fun session => ?_) ?_
  · split
    · exact .pure _
    · split
      · next layer slot hslot =>
        -- the slot is in a layer outside the chain, so in another one
        have hne : layer ≠ mainName := by
          rintro rfl
          obtain ⟨entry, -, he⟩ := List.exists_of_findSome?_eq_some hslot
          simp only [Option.ite_none_left_eq_some, List.contains_iff_mem, Option.map_eq_some_iff,
            Prod.mk.injEq] at he
          obtain ⟨hout, -, -, hname, -⟩ := he
          exact hout (hname ▸ hmain)
        refine (Blind.modify fun session lines => ?_).bind fun _ => .pure _
        simp only [Session.recast, Stack.modify_comm hne]
      · exact .pure _
  · intro session lines
    simp only [Session.isInside_recast, Session.slot?_recast hmain, Session.showsInPlace_recast]

theorem iterations_blind (header : LoopHeader) (body : List Line) (position : Nat)
    (keys : List Text) : Blind (iterations context walker chain header body position keys) := by
  induction keys generalizing position with
  | nil => exact .pure _
  | cons key keys ih =>
    exact (transient_blind hw hmain _ _).bind fun _ => (ih _).bind fun _ => .pure _

theorem close_blind (body : List Line) (line : Line) (construct : Construct) :
    Blind (close context walker chain body line construct) := by
  cases construct with
  | block name => exact endBlock_blind hw hmain name body line
  | loop variableName collection =>
    rw [close]
    unfold endLoop
    split
    · exact .throw _
    · exact (iterations_blind hw hmain _ body 0 _).bind fun _ => .pure _
  | condition expression =>
    rw [close]
    unfold endCondition
    split
    · exact (transient_blind hw hmain _ _).bind fun _ => .pure _
    · exact .pure _
    · exact .pure _

theorem handle_blind (line : Line) : Blind (handle engine context walker chain line) := by
  refine .get_bind (fun session => ?_) fun _ _ => rfl
  split
  · exact dispatch_blind hw hmain _ line
  · split
    · exact (Blind.modify fun _ _ => rfl).bind fun _ => .pure _
    · exact (Blind.modify fun _ _ => rfl).bind fun _ => close_blind hw hmain _ line _

theorem handleFrom_blind {name : Text} (hname : name ≠ mainName) (position : Nat)
    (lines : List Line) :
    Blind (handleFrom engine context walker chain name position lines) := by
  induction lines generalizing position with
  | nil => exact .pure _
  | cons line rest ih =>
    refine (handle_blind hw hmain line).bind fun line => (Blind.modify fun session lines => ?_).bind
      fun _ => ih _
    simp only [Session.recast, Stack.modify_comm hname]

end Walker

section Main

variable {engine : Engine} {context : Context}

/-- **The walk of another layer**, inside a line of the template asked for. -/
theorem walk_blind (depth : Nat) {name : Text} {outer : Chain} (hname : name ≠ mainName)
    (hmain : mainName ∈ outer) : Blind (walk engine context depth (name :: outer)) := by
  induction depth generalizing name outer with
  | zero => exact .throw _
  | succ depth ih =>
    refine Blind.entering (.get_bind (fun session => ?_) fun session lines => ?_) name
    · split
      · exact .pure _
      · exact handleFrom_blind (fun _ _ => ih) (List.mem_cons_of_mem _ hmain) hname 0 _
    · have hget : (session.recast lines).layers.get? name = session.layers.get? name := by
        rw [Session.recast, Stack.get?_modify, if_neg hname]
      rw [hget]

/-- **Lines that follow** make no difference to the walk of those before them: these come to what they
come to by themselves, and the walk goes on from there. -/
theorem outcome_handleFrom_append {depth : Nat} {chain : Chain} (hmain : mainName ∈ chain)
    {done lines : List Line} {session after : Session}
    (h : outcome (handleFrom engine context (walk engine context depth) chain mainName done.length
      lines) (session.recast (done ++ lines)) = .ok ((), after)) :
    ∃ (base : Session) (out : List Line), out.length = lines.length ∧
      after = base.recast (done ++ out) ∧ ∀ rest,
      outcome (handleFrom engine context (walk engine context depth) chain mainName done.length
          (lines ++ rest)) (session.recast (done ++ (lines ++ rest))) =
        outcome (handleFrom engine context (walk engine context depth) chain mainName
          (done.length + lines.length) rest) (base.recast (done ++ (out ++ rest))) := by
  induction lines generalizing done session with
  | nil =>
    cases h
    exact ⟨session, [], rfl, rfl, fun _ => rfl⟩
  | cons line lines ih =>
    have hblind : Blind (handle engine context (walk engine context depth) chain line) :=
      handle_blind (fun _ _ => walk_blind depth) hmain line
    have hstored : ∀ (started : Session) (line' : Line) (behind : List Line),
        (started.recast (done ++ line :: behind)).write mainName done.length [line'] =
          started.recast (done ++ [line'] ++ behind) :=
      fun started line' behind => Session.recast_write started (by simp)
    rw [outcome_handleFrom_cons, hblind.outcome_eq] at h
    obtain ⟨_, hrecast, h⟩ := Except.bind_eq_ok_iff.1 h
    obtain ⟨⟨line', between⟩, hh, rfl⟩ := Except.map_eq_ok_iff.1 hrecast
    have hlen : (done ++ [line']).length = done.length + 1 := by simp
    simp only [hstored, ← hlen] at h
    obtain ⟨base, out, hout, rfl, hrest⟩ := ih h
    refine ⟨base, line' :: out, by simp [hout], by simp, fun rest => ?_⟩
    have hnext := hrest rest
    rw [List.cons_append, outcome_handleFrom_cons, hblind.outcome_eq, hh]
    simp only [Except.map, Except.bind, hstored, ← hlen, hnext]
    simp [Nat.add_assoc, Nat.add_comm 1]

end Main

end Render

end Stencil
