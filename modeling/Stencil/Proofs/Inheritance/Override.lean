import Stencil.Proofs.Inheritance.Fill

/-!
# Templates that override blocks

A template that extends another one holds blocks and nothing else that is visible. When it is
walked, its parent is in front of it and still unwalked, and each of its blocks fills a slot of the
parent as soon as it is closed. `outcome_handleFrom_onlyBlocks` says what the walk does to the
stack: the parent's tree is filled with the contents of the blocks (`Nesting.contents`), one after
the other, and of the template itself nothing is left but its blank lines (`Nesting.left`).
-/

namespace Stencil

/-! ## A parent in front of the other layers -/

namespace Stack

/-- The stack with a layer in front of all others. -/
def push (stack : Stack) (name : Text) (layer : Layer) : Stack :=
  { layers := (name, layer) :: stack.layers }

variable {stack : Stack} {front name : Text} {layer : Layer}

theorem get?_push_self (stack : Stack) (front : Text) (layer : Layer) :
    (stack.push front layer).get? front = some layer := by
  simp [push, get?]

theorem get?_push_of_ne (h : name ≠ front) : (stack.push front layer).get? name = stack.get? name := by
  simp [push, get?, Ne.symm h]

theorem write_push_of_ne (h : name ≠ front) (i : Nat) (out : List Line) :
    (stack.push front layer).write name i out = (stack.write name i out).push front layer := by
  simp [push, write, modify, Ne.symm h]

theorem modify_push (h : stack.contains front = false) (f : Layer → Layer) :
    (stack.push front layer).modify front f = stack.push front (f layer) := by
  have hmod := congrArg layers (modify_of_not_contains h f)
  simp only [modify] at hmod
  simp [push, modify, hmod]

theorem join_push (stack : Stack) (front : Text) (layer : Layer) :
    (stack.push front layer).join = layer.render ++ stack.join := by
  simp [push, join]

theorem insertFront_of_not_contains (h : stack.contains front = false) (layer : Layer) :
    stack.insertFront front layer = stack.push front layer := by
  have herase : stack.layers.eraseP (·.1 = front) = stack.layers :=
    List.eraseP_of_forall_not fun entry he => by simpa using not_contains h entry he
  simp [insertFront, erase, push, herase]

theorem write_write (stack : Stack) (name : Text) {i j : Nat} {out : List Line}
    (out' : List Line) (h : j = i + out.length) :
    (stack.write name i out).write name j out' = stack.write name i (out ++ out') := by
  subst h
  rw [write_append]

/-- **The layers behind a parent** while the template `name` that extends it is walked: that
template, and others that have no slots. -/
structure Behind (front name : Text) (stack : Stack) : Prop where
  front_free : stack.contains front = false
  document : ∃ layer, stack.get? name = some layer ∧ (layer.kind = .main ∨ layer.kind = .parent)
  slotless : ∀ entry ∈ stack.layers, entry.1 ≠ name → ∀ x, entry.2.slot? x = none

namespace Behind

variable (h : stack.Behind front name)
include h

theorem ne : name ≠ front := by
  obtain ⟨layer, hget, -⟩ := h.document
  exact ne_of_get? h.front_free hget

theorem write (i : Nat) (out : List Line) : (stack.write name i out).Behind front name where
  front_free := by
    rw [contains_congr (names_write stack name i out)]
    exact h.front_free
  document := by
    obtain ⟨layer, hget, hkind⟩ := h.document
    refine ⟨layer.writeFrom i out, ?_, by rwa [Layer.kind_writeFrom]⟩
    rw [get?_write, if_pos rfl, hget]
    rfl
  slotless := by
    intro entry he hne x
    obtain ⟨old, hold, rfl⟩ := List.mem_map.1 he
    by_cases hname : old.1 = name
    · simp [hname] at hne
    · simp only [hname, ↓reduceIte]
      exact h.slotless old hold hname x

end Behind

end Stack

namespace Session

/-- The session with these layers and, in front of them, a parent with these lines. -/
def extending (session : Session) (rest : Stack) (front : Text) (lines : List Line) : Session :=
  { session with layers := rest.push front ⟨.parent, lines⟩ }

variable {session : Session} {rest : Stack} {front name : Text} {lines : List Line}

@[simp] theorem capture_extending :
    (session.extending rest front lines).capture = session.capture := rfl

@[simp] theorem layers_extending :
    (session.extending rest front lines).layers = rest.push front ⟨.parent, lines⟩ := rfl

theorem write_extending (h : rest.Behind front name) (i : Nat) (out : List Line) :
    (session.extending rest front lines).write name i out =
      session.extending (rest.write name i out) front lines := by
  rw [write, layers_extending, Stack.write_push_of_ne h.ne]
  rfl

/-- The template that is walked is not in front, so that blocks without a slot are not shown. -/
theorem not_showsInPlace_extending (h : rest.Behind front name) :
    Render.showsInPlace (session.extending rest front lines) [name] = false := by
  obtain ⟨own, hget, hkind⟩ := h.document
  have hdoc : (session.extending rest front lines).document? [name] = some (name, own.kind) := by
    have hd : own.kind.isDocument = true := by
      rcases hkind with hk | hk <;> rw [hk] <;> rfl
    simp [document?, Stack.get?_push_of_ne h.ne, hget, hd]
  have hpos : (rest.push front ⟨.parent, lines⟩).position? name ≠ some 0 := by
    simp [Stack.push, Stack.position?, List.findIdx?_cons, h.ne.symm]
  unfold Render.showsInPlace
  rw [hdoc]
  rcases hkind with hk | hk <;> rw [hk] <;> simpa using hpos

theorem not_isInside_extending (h : rest.Behind front name) :
    (session.extending rest front lines).isInside [name] .block = false := by
  obtain ⟨own, hget, hkind⟩ := h.document
  have hne : own.kind ≠ .block := by
    rcases hkind with hk | hk <;> rw [hk] <;> decide
  simp [isInside, Stack.get?_push_of_ne h.ne, hget, hne]

/-- Inside the body of a block, all blocks show in place. -/
theorem inPlace_insert_block (session : Session) (chain : Chain) (full : Text) (ls : List Line) :
    InPlace { session with layers := session.layers.insert full ⟨.block, ls⟩ } (full :: chain) :=
  .inl (by simp [isInside, Stack.get?_insert_self])

end Session

theorem Render.slot?_push {rest : Stack} {front name : Text} {layer : Layer}
    (h : rest.Behind front name) (x : Text) :
    Render.slot? (rest.push front layer) [name] x = (layer.slot? x).map (front, ·) := by
  have hrest : rest.layers.findSome? (fun entry =>
      if [name].contains entry.1 then none else (entry.2.slot? x).map (entry.1, ·)) = none := by
    rw [List.findSome?_eq_none_iff]
    intro entry he
    by_cases hname : entry.1 = name
    · simp [hname]
    · simp [hname, h.slotless entry he hname x]
  unfold Render.slot? Stack.push
  rw [List.findSome?_cons]
  simp only
  rw [if_neg (by simpa using h.ne.symm)]
  cases (layer.slot? x).map (front, ·) with
  | none => exact hrest
  | some found => rfl

/-! ## Blocks and blank lines -/

namespace Nesting

/-- Nothing but blocks, and blank lines between them. -/
def OnlyBlocks : Nesting → Prop
  | done => True
  | text line rest => Text.isBlank line.text = true ∧ rest.OnlyBlocks
  | span d _ _ _ rest => d = .block ∧ rest.OnlyBlocks

/-- The lines that are left when all blocks have been moved. -/
def left : Nesting → List Line
  | done => []
  | text line rest => line :: rest.left
  | span _ opening body closing rest => consumed opening body closing.blank ++ rest.left

/-- The names of the outermost blocks with what their bodies render to. -/
def contents (engine : Engine) (context : Context) : Nesting → Except Error (List (Text × Text))
  | done => .ok []
  | text _ rest => rest.contents engine context
  | span _ opening body _ rest => do
    let out ← body.render engine context fun _ => none
    let behind ← rest.contents engine context
    return (opening.argument .block, outText out) :: behind

theorem contents_span {engine : Engine} {context : Context} (d : Directive) (opening : Line)
    (body : Nesting) (closing : Line) (rest : Nesting) :
    (span d opening body closing rest).contents engine context =
      (body.render engine context fun _ => none).bind fun out =>
        (rest.contents engine context).map ((opening.argument .block, outText out) :: ·) := by
  rw [contents]
  cases body.render engine context fun _ => none with
  | error e => rfl
  | ok out => cases rest.contents engine context <;> rfl

/-- The names of the outermost spans, as those of blocks. -/
def outerNames : Nesting → List Text
  | done => []
  | text _ rest => rest.outerNames
  | span _ opening _ _ rest => opening.argument .block :: rest.outerNames

/-- The contents of a template are those of its outermost blocks. -/
theorem map_fst_contents {engine : Engine} {context : Context} {n : Nesting}
    {contents : List (Text × Text)}
    (h : n.contents engine context = .ok contents) : contents.map Prod.fst = n.outerNames := by
  induction n generalizing contents with
  | done =>
    cases h
    rfl
  | text line rest ih => exact ih h
  | span d opening body closing rest ihb ihr =>
    rw [contents_span] at h
    obtain ⟨out, -, h⟩ := Except.bind_eq_ok_iff.1 h
    obtain ⟨behind, hr, rfl⟩ := Except.map_eq_ok_iff.1 h
    rw [List.map_cons, ihr hr, outerNames]

@[simp] theorem length_left (n : Nesting) : n.left.length = n.lines.length := by
  induction n with
  | done => rfl
  | text line rest ih => simp [left, lines, ih]
  | span d opening body closing rest ihb ihr =>
    simp [left, lines, length_consumed, ihr]
    omega

end Nesting

/-! ## Walking a template over its parent -/

theorem Line.rewrite_of_isBlank {engine : Engine} {context : Context} {line : Line}
    (h : Text.isBlank line.text = true) : line.rewrite engine context = line := by
  have hocc := Directive.occursIn_of_isBlank h
  unfold Line.rewrite
  split
  · rfl
  · simp [hocc]

namespace Render

variable {engine : Engine} {context : Context}

/-- **A block that is closed** fills the slot of its name in the parent, if there is one, and is not
shown itself. -/
theorem outcome_endBlock_extending {body n : Nesting} (hb : Simulates engine context body)
    {depth : Nat} (hd : body.height < depth) {rest : Stack} {front name : Text}
    (hr : rest.Behind front name) {session : Session} (hc : session.capture = none)
    {head : List Line} (hhead : ∀ x, ∀ line ∈ head, Layer.opensBlock x line = false)
    (hn : n.WellNested) (x : Text) (closing : Line) :
    outcome (endBlock (walk engine context depth) [name] x body.lines closing)
        (session.extending rest front (head ++ n.lines)) =
      (body.render engine context fun _ => none).map fun out =>
        (closing.blank,
          session.extending rest front (head ++ (n.fill x (Nesting.outText out)).lines)) := by
  have hidle : (session.extending rest front (head ++ n.lines)).capture = none := hc
  rw [endBlock, outcome_bind, outcome_transient_simulates hb hd hidle x .block fun full _ =>
    Session.inPlace_insert_block _ [name] full body.lines]
  cases body.render engine context fun _ => none with
  | error e => rfl
  | ok out =>
    simp only [Except.map, Except.bind]
    rw [outcome_bind, outcome_get]
    simp only [Except.bind, Session.not_isInside_extending hr, Bool.false_eq_true, ↓reduceIte,
      Session.layers_extending, slot?_push hr]
    by_cases hx : x ∈ n.names
    · obtain ⟨slot, hslot, hfill⟩ : ∃ slot, Layer.slot? ⟨.parent, head ++ n.lines⟩ x = some slot ∧
          Layer.fillSlot ⟨.parent, head ++ n.lines⟩ slot (Nesting.outText out) = _ :=
        Nesting.exists_slot?_of_mem (hhead x) hn hx _
      rw [hslot, Option.map_some]
      simp only
      rw [outcome_bind, outcome_modifyLayers]
      simp only [Except.bind, Session.layers_extending, Stack.modify_push hr.front_free, hfill]
      rfl
    · rw [Nesting.slot?_of_not_mem (hhead x) hn hx, Option.map_none, Nesting.fill_of_not_mem hx]
      simp only [Session.not_showsInPlace_extending hr]
      rfl

/-- **The walk over blocks and blank lines** fills the parent's tree with the contents of the
blocks. -/
theorem outcome_handleFrom_onlyBlocks {t : Nesting} (ht : t.Sound context) (ho : t.OnlyBlocks)
    {depth : Nat} (hd : t.height ≤ depth) {front name : Text} {session : Session}
    (hc : session.capture = none) {head : List Line}
    (hhead : ∀ x, ∀ line ∈ head, Layer.opensBlock x line = false) (tail : List Line)
    {n : Nesting} (hn : n.WellNested) {rest : Stack} (hr : rest.Behind front name)
    (position : Nat) :
    outcome (handleFrom engine context (walk engine context depth) [name] name position
        (t.lines ++ tail)) (session.extending rest front (head ++ n.lines)) =
      (t.contents engine context).bind fun contents =>
        outcome (handleFrom engine context (walk engine context depth) [name] name
          (position + t.lines.length) tail)
          (session.extending (rest.write name position t.left) front
            (head ++ (n.fillAll contents).lines)) := by
  induction t generalizing n rest position with
  | done => simp [Nesting.lines, Nesting.contents, Nesting.left, Except.bind]
  | text line behind ih =>
    cases ht with
    | text hl hs =>
      rw [Nesting.lines, List.cons_append, outcome_handleFrom_cons,
        outcome_handle_unopened (by exact hc) (hl.imp_right And.left),
        Line.rewrite_of_isBlank ho.1]
      simp only [Except.bind]
      rw [Session.write_extending hr, ih hs ho.2 hd hn (hr.write position [line]), Nesting.contents,
        Nesting.left, List.length_cons, Nat.add_right_comm, Nat.add_assoc]
      cases behind.contents engine context with
      | error e => rfl
      | ok contents =>
        simp only [Except.bind]
        rw [Stack.write_write rest name behind.left (by simp), List.singleton_append]
  | span d opening body closing behind ihb ihr =>
    cases ht with
    | span hopen hw hclose hs _ hsbehind =>
      obtain ⟨rfl, ho⟩ := ho
      rw [Nesting.height] at hd
      have hbody : Simulates engine context body :=
        simulates_of_sound (hs fun h => by cases h)
      have hwrite := hr.write position (opening.blank :: body.lines.map Line.blank)
      rw [Nesting.lines, List.cons_append, List.append_assoc, List.cons_append,
        outcome_handleFrom_span hopen hw hclose rfl name position _ (by exact hc), close,
        Session.write_extending hr, outcome_endBlock_extending hbody (by omega) hwrite hc hhead hn,
        Nesting.contents_span]
      cases body.render engine context fun _ => none with
      | error e => rfl
      | ok out =>
        simp only [Except.map, Except.bind]
        rw [Session.write_extending hwrite, ihr hsbehind ho (by omega) (Nesting.wellNested_fill hn)
          (hwrite.write _ [closing.blank])]
        cases behind.contents engine context with
        | error e => rfl
        | ok contents =>
          have hend : position + body.lines.length + 2 + behind.lines.length =
              position + (opening :: (body.lines ++ closing :: behind.lines)).length := by
            simp
            omega
          simp only [Except.bind]
          rw [Stack.write_write rest name _ (by simp; omega),
            Stack.write_write rest name _ (by simp; omega), hend]
          simp [Nesting.left, Nesting.consumed]

end Render

end Stencil
