import Stencil.Proofs.Inheritance.Page
import Stencil.Proofs.Inheritance.Redefinition
import Stencil.Proofs.Nesting.Extent

/-!
# Walking a template that redefines blocks

When a template that redefines blocks is walked, it takes in its parent first, which then covers it:
from there on a block of the template is put into a slot or dropped, and never shown where it stands
(`outcome_endBlock_covered`). So every line is blank after its turn, and of the lines that were not
consumed by a directive only those outside of blocks are left (`exists_consumed_of_redefines`).

This holds as long as no capture is open that some body has left open (`Render.ClosesAll`).
-/

namespace Stencil

open Layer (OnlyBlocks outside)

theorem Stack.head?_names {stack : Stack} {name : Text} (h : stack.position? name = some 0) :
    stack.names.head? = some name := by
  obtain ⟨layers⟩ := stack
  cases layers with
  | nil => cases h
  | cons entry rest =>
    by_cases hn : entry.1 = name
    · simp [Stack.names, hn]
    · simp [Stack.position?, List.findIdx?_cons, hn] at h

/-- **The layer is covered** by a parent that was extended after the layer was put on the stack. -/
def Session.Covered (engine : Engine) (name : Text) (session : Session) : Prop :=
  ∃ newer cover older, session.extended = newer ++ cover :: older ∧
    (engine.loadLines cover []).isOk = true ∧
    ∀ parent, parentLayer parent = name → parent ∈ older

namespace Session

variable {engine : Engine} {active : Chain} {tail : List (Text × LayerKind)} {taken : Nat}
  {session after : Session} {name : Text} {layer : Layer}

theorem Covered.mono (h : session.Covered engine name)
    (hx : session.extended <:+ after.extended) : after.Covered engine name := by
  obtain ⟨newer, cover, older, heq, hok, hall⟩ := h
  obtain ⟨new, hnew⟩ := hx
  exact ⟨new ++ newer, cover, older, by rw [← hnew, heq, List.append_assoc], hok, hall⟩

/-- **A layer that is covered is not in front.** -/
theorem Covered.position_ne (h : session.Covered engine name)
    (hs : session.Stands engine active tail taken) : session.layers.position? name ≠ some 0 := by
  intro hp
  obtain ⟨newer, cover, older, heq, hok, hall⟩ := h
  have hhead := Stack.head?_names hp
  have hnodup := hs.nodup_extended
  rw [heq] at hnodup
  rw [Stack.names_eq_outline, hs.outline_eq, heq, parentLayers_append] at hhead
  -- in front is the cover, or a parent that was extended after it
  have hfront : ∃ parent ∈ newer ++ [cover], parentLayer parent = name := by
    cases hn : newer.filter fun parent => (engine.loadLines parent []).isOk with
    | nil =>
      refine ⟨cover, by simp, ?_⟩
      simpa [parentLayers, hn, hok] using hhead
    | cons parent rest =>
      have hm : parent ∈ newer := (List.mem_filter.1 (hn ▸ List.mem_cons_self)).1
      refine ⟨parent, by simp [hm], ?_⟩
      simpa [parentLayers, hn] using hhead
  obtain ⟨parent, hm, hname⟩ := hfront
  rw [← List.singleton_append, ← List.append_assoc, List.nodup_append] at hnodup
  exact hnodup.2.2 parent hm parent (hall parent hname) rfl

/-- A block of a layer that is covered is not shown where it stands. -/
theorem Covered.showsInPlace_eq (h : session.Covered engine name)
    (hs : session.Stands engine active tail taken) (hg : session.layers.get? name = some layer)
    (hk : layer.kind = .main ∨ layer.kind = .parent) :
    Render.showsInPlace session [name] = false := by
  have hd : layer.kind.isDocument = true := by
    rcases hk with hk | hk <;> rw [hk] <;> rfl
  have hdoc : session.document? [name] = some (name, layer.kind) := by
    simp [document?, hg, hd]
  have hpos := h.position_ne hs
  unfold Render.showsInPlace
  rw [hdoc]
  rcases hk with hk | hk <;> rw [hk] <;> simpa using hpos

theorem not_isInside (hg : session.layers.get? name = some layer)
    (hk : layer.kind = .main ∨ layer.kind = .parent) : session.isInside [name] .block = false := by
  have hne : layer.kind ≠ .block := by
    rcases hk with hk | hk <;> rw [hk] <;> decide
  simp [isInside, hg, hne]

end Session

namespace Render

variable {engine : Engine} {context : Context} {walker : Walker} {depth : Nat}
  {tail : List (Text × LayerKind)} {taken : Nat} {session after : Session} {name : Text}
  {kind : LayerKind} {line line' : Line} {lines : List Line}

/-- **No body of the lines leaves a capture open**: where a line closes one, no capture is open
behind it. -/
def ClosesAll (engine : Engine) (context : Context) (walker : Walker) (name : Text) :
    (position : Nat) → List Line → Session → Prop
  | _, [], _ => True
  | position, line :: rest, session =>
    match outcome (handle engine context walker [name] line) session with
    | .error _ => True
    | .ok (line', after) =>
      ((∃ capture ∈ session.capture, capture.depthAfter line = 0) → after.capture = none) ∧
        ClosesAll engine context walker name (position + 1) rest (after.write name position [line'])

instance decidableClosesAll (engine : Engine) (context : Context) (walker : Walker) (name : Text) :
    (position : Nat) → (lines : List Line) → (session : Session) →
      Decidable (ClosesAll engine context walker name position lines session)
  | _, [], _ => inferInstanceAs (Decidable True)
  | position, line :: rest, session =>
    match h : outcome (handle engine context walker [name] line) session with
    | .error _ => isTrue (by rw [ClosesAll, h]; trivial)
    | .ok (line', after) =>
      have := decidableClosesAll engine context walker name (position + 1) rest
        (after.write name position [line'])
      decidable_of_iff
        (((∃ capture ∈ session.capture, capture.depthAfter line = 0) → after.capture = none) ∧
          ClosesAll engine context walker name (position + 1) rest (after.write name position [line']))
        (by rw [ClosesAll, h])

/-! ## One line -/

/-- Where `depth` blocks are open, the outermost of them is being captured. -/
def Opened (session : Session) (depth : Nat) : Prop :=
  (depth = 0 ∧ session.capture = none) ∨
    (0 < depth ∧ ∃ block buffer, session.capture = some ⟨.block block, depth, buffer⟩)

theorem outcome_handle_of_isBlank (hc : session.capture = none)
    (h : Text.isBlank line.text = true) {chain : Chain} :
    outcome (handle engine context walker chain line) session = .ok (line, session) := by
  rw [outcome_handle_idle hc, outcome_dispatch_of_isBlank h]

/-- A line that begins a block is consumed. -/
theorem outcome_handle_begins_block (hc : session.capture = none) (h : line.BeginsBlock)
    {chain : Chain} :
    outcome (handle engine context walker chain line) session =
      .ok (line.blank, session.capturing { construct := .block (line.argument .block) }) := by
  rw [outcome_handle_idle hc, Directive.order, outcome_dispatch_skip _ h.inherits,
    outcome_dispatch_skip _ h.includes, outcome_dispatch_body rfl h.not_rendered hc, h.block]
  rfl

/-- **A block that is closed** in a layer that is covered is not shown there. -/
theorem outcome_endBlock_covered (hs : session.Stands engine [name] tail taken)
    (hcover : session.Covered engine name) (hg : session.layers.get? name = some ⟨kind, lines⟩)
    (hk : kind = .main ∨ kind = .parent) {block : Text} {body : List Line}
    (h : outcome (endBlock (walk engine context depth) [name] block body line) session =
      .ok (line', after)) : line' = line.blank := by
  rw [endBlock] at h
  obtain ⟨content, between, ht, h⟩ := outcome_bind_eq_ok_iff.1 h
  -- the layer and its cover are still there when the body has been rendered
  have hstands : between.Stands engine [name] tail taken :=
    (keeps_transient (fun chain hs => keeps_walk hs depth chain) hs [name] block
      (by simp)).of_outcome_ok ht
  have hspares := ((guarantee_spares engine).transient_part
    ((guarantee_spares engine).walk depth) (by simp) block session).of_outcome_ok ht hs.isApart
  obtain ⟨layer, hget, -, hkept⟩ := hspares.spared name _ hg (by simp)
  obtain rfl := hkept (by simp)
  have hcovered : between.Covered engine name := by
    obtain ⟨parents, hx, -⟩ := hspares.taken
    exact hcover.mono ⟨parents, hx.symm⟩
  rw [outcome_bind, outcome_get] at h
  simp only [Except.bind, Session.not_isInside hget hk, Bool.false_eq_true, ↓reduceIte,
    hcovered.showsInPlace_eq hstands hget hk] at h
  split at h <;> cases h <;> rfl

/-- **One line of a layer that is covered**, outside of blocks or in a block. Unless it is a blank
line outside of blocks, it is consumed. -/
theorem handle_covered (hs : session.Stands engine [name] tail taken)
    (hcover : session.Covered engine name) (hg : session.layers.get? name = some ⟨kind, lines⟩)
    (hk : kind = .main ∨ kind = .parent) {opened : Nat} (ho : Opened session opened)
    (hline : opened = 0 → Text.isBlank line.text = true ∨ line.BeginsBlock)
    (h : outcome (handle engine context (walk engine context depth) [name] line) session =
      .ok (line', after))
    (hclosed : (∃ capture ∈ session.capture, capture.depthAfter line = 0) → after.capture = none) :
    Opened after (line.spanDepth opened) ∧
      if opened = 0 ∧ Text.isBlank line.text = true then line' = line else line' = line.blank := by
  rcases ho with ⟨rfl, hc⟩ | ⟨hpos, block, buffer, hc⟩
  · rcases hline rfl with hb | hb
    · rw [outcome_handle_of_isBlank hc hb] at h
      cases h
      rw [if_pos ⟨rfl, hb⟩]
      exact ⟨.inl ⟨Line.spanDepth_of_isBlank hb, hc⟩, rfl⟩
    · rw [outcome_handle_begins_block hc hb] at h
      cases h
      rw [if_neg (by simp [hb.not_isBlank]), hb.spanDepth_eq]
      exact ⟨.inr ⟨Nat.one_pos, _, _, rfl⟩, rfl⟩
  · have hopen : session = session.released.capturing ⟨.block block, opened, buffer⟩ := by
      cases session
      simp only at hc
      simp [Session.released, Session.capturing, hc]
    have hafter := Capture.depthAfter_eq ⟨.block block, opened, buffer⟩ line
    rw [if_neg (by omega), Line.spanDepth_of_pos hpos]
    rcases Nat.eq_zero_or_pos (line.depthBehind .block opened) with hzero | hheld
    · -- the line closes the block
      have hreleased : session.released.Stands engine [name] tail taken := hs.congr rfl rfl rfl rfl
      refine ⟨.inl ⟨hzero, hclosed ⟨_, hc, hafter.trans hzero⟩⟩, ?_⟩
      rw [hopen, outcome_handle_closes rfl (hafter.trans hzero)] at h
      exact outcome_endBlock_covered hreleased hcover hg hk h
    · have hne : Capture.depthAfter ⟨.block block, opened, buffer⟩ line ≠ 0 := by
        rw [hafter]
        exact hheld.ne'
      rw [hopen, outcome_handle_held _ hne] at h
      cases h
      exact ⟨.inr ⟨hheld, block, buffer ++ [line], by rw [hafter]; rfl⟩, rfl⟩

/-! ## The lines of a layer -/

/-- **The first of some lines** is handled and stored: the other lines of the layer stay as they
are. -/
theorem exists_handled_of_cons {before rest : List Line}
    (hs : session.Stands engine [name] tail taken)
    (hg : session.layers.get? name = some ⟨kind, before ++ line :: rest⟩)
    (hclosed : ClosesAll engine context (walk engine context depth) name before.length (line :: rest)
      session)
    (h : outcome (handleFrom engine context (walk engine context depth) [name] name before.length
      (line :: rest)) session = .ok ((), after)) :
    ∃ line' between stored, outcome (handle engine context (walk engine context depth) [name] line)
        session = .ok (line', between) ∧
      ((∃ capture ∈ session.capture, capture.depthAfter line = 0) → between.capture = none) ∧
      between.write name before.length [line'] = stored ∧ stored.Stands engine [name] tail taken ∧
      session.extended <:+ stored.extended ∧
      stored.layers.get? name = some ⟨kind, (before ++ [line']) ++ rest⟩ ∧
      ClosesAll engine context (walk engine context depth) name (before ++ [line']).length rest
        stored ∧
      outcome (handleFrom engine context (walk engine context depth) [name] name
        (before ++ [line']).length rest) stored = .ok ((), after) := by
  rw [outcome_handleFrom_cons] at h
  obtain ⟨⟨line', between⟩, hh, h⟩ := Except.bind_eq_ok_iff.1 h
  rw [ClosesAll, hh] at hclosed
  have hstands : between.Stands engine [name] tail taken :=
    (keeps_handle (fun chain hs => keeps_walk hs depth chain) hs [name] line).of_outcome_ok hh
  have hspares := ((guarantee_spares engine).handle ((guarantee_spares engine).walk depth) line
    session).of_outcome_ok hh hs.isApart
  obtain ⟨layer, hget, -, hkept⟩ := hspares.spared name _ hg (by simp)
  obtain rfl := hkept (by simp)
  obtain ⟨parents, hx, -⟩ := hspares.taken
  have hlength : before.length + 1 = (before ++ [line']).length := by simp
  rw [hlength] at hclosed
  simp only [hlength] at h
  refine ⟨line', between, _, hh, hclosed.1, rfl,
    hstands.congr rfl rfl rfl (Stack.outline_modify _ _ fun _ => rfl), ⟨parents, hx.symm⟩, ?_,
    hclosed.2, h⟩
  rw [Session.write, Stack.get?_write, if_pos rfl, hget, Option.map_some]
  simp [Layer.writeFrom, Layer.modify, Layer.modify_length]

/-- **The lines behind the tag that names the parent** are consumed, and what is left of them is the
blank lines outside of blocks. -/
theorem exists_consumed {before : List Line} (hs : session.Stands engine [name] tail taken)
    (hcover : session.Covered engine name)
    (hg : session.layers.get? name = some ⟨kind, before ++ lines⟩)
    (hk : kind = .main ∨ kind = .parent) {opened : Nat} (ho : Opened session opened)
    (hlines : OnlyBlocks opened lines)
    (hclosed : ClosesAll engine context (walk engine context depth) name before.length lines session)
    (h : outcome (handleFrom engine context (walk engine context depth) [name] name before.length
      lines) session = .ok ((), after)) :
    ∃ out, after.layers.get? name = some ⟨kind, before ++ out⟩ ∧
      Layer.Consumed out (outside opened lines) := by
  induction lines generalizing before opened session with
  | nil =>
    cases h
    exact ⟨[], hg, .nil⟩
  | cons line rest ih =>
    obtain ⟨line', between, stored, hh, hend, rfl, hstands, hx, hget, hclosed, h⟩ :=
      exists_handled_of_cons hs hg hclosed h
    obtain ⟨hopened, hline⟩ := handle_covered hs hcover hg hk ho hlines.1 hh hend
    obtain ⟨out, hout, hconsumed⟩ := ih hstands (hcover.mono hx) hget hopened hlines.2 hclosed h
    refine ⟨line' :: out, by rw [hout]; simp, ?_⟩
    rw [outside]
    split
    · next hb =>
      rw [if_pos hb] at hline
      subst hline
      obtain ⟨rfl, hb⟩ := hb
      rw [Line.spanDepth_of_isBlank hb] at hconsumed
      exact hconsumed.keep hb
    · next hb =>
      rw [if_neg hb] at hline
      subst hline
      exact hconsumed.drop rfl rfl

/-- **The lines of a template that redefines blocks** are consumed. -/
theorem exists_consumed_of_redefines {before : List Line}
    (hs : session.Stands engine [name] tail taken)
    (hg : session.layers.get? name = some ⟨kind, before ++ lines⟩)
    (hk : kind = .main ∨ kind = .parent) (hidle : session.capture = none)
    (hname : ∀ parent, parentLayer parent = name → parent ∈ session.extended)
    (hlines : Layer.Redefines lines)
    (hclosed : ClosesAll engine context (walk engine context depth) name before.length lines session)
    (h : outcome (handleFrom engine context (walk engine context depth) [name] name before.length
      lines) session = .ok ((), after)) :
    ∃ out, after.layers.get? name = some ⟨kind, before ++ out⟩ ∧
      Layer.Consumed out (outside 0 lines) := by
  induction lines generalizing before session with
  | nil => exact absurd hlines id
  | cons line rest ih =>
    obtain ⟨line', between, stored, hh, -, rfl, hstands, -, hget, hclosed, h⟩ :=
      exists_handled_of_cons hs hg hclosed h
    rcases hlines with ⟨hb, hlines⟩ | ⟨he, hlines⟩
    · -- a blank line before the tag that names the parent
      rw [outcome_handle_of_isBlank hidle hb] at hh
      cases hh
      obtain ⟨out, hout, hconsumed⟩ := ih hstands hget hidle hname hlines hclosed h
      refine ⟨line :: out, by rw [hout]; simp, ?_⟩
      rw [outside, if_pos ⟨rfl, hb⟩]
      exact hconsumed.keep hb
    · obtain ⟨tag, htag⟩ := Option.isSome_iff_exists.1 he.names
      obtain ⟨parent, hparent⟩ : ∃ parent, (Directive.inherits.find? line.text).map
          (fun tag => unquote tag.argument) = some parent := ⟨_, by rw [htag]; rfl⟩
      rw [outcome_handle_inherits he.not_rendered hparent he.blank hidle] at hh
      split at hh
      · cases hh
      · obtain ⟨source, hl, hh⟩ := Except.map_eq_ok_iff.1 hh
        cases hh
        -- the parent is in front of the layer now
        have hcover : ((session.taking parent source).write name before.length
            [line.inherited]).Covered engine name :=
          ⟨[], parent, session.extended, rfl, by rw [hl]; rfl, hname⟩
        obtain ⟨out, hout, hconsumed⟩ := exists_consumed hstands hcover hget hk
          (.inl ⟨rfl, hidle⟩) hlines hclosed h
        refine ⟨line.inherited :: out, by rw [hout]; simp, ?_⟩
        rw [outside, if_neg (by simp [he.not_isBlank]), Line.spanDepth, if_pos rfl, he.opensBody]
        exact hconsumed.drop he.blank (Bool.and_eq_true_iff.2 ⟨rfl, he.blank⟩)

/-- **The turn of a layer is contained**, if it redefines blocks: no capture is open before it, and
none of its bodies leaves one open. -/
def ContainedTurn (engine : Engine) (context : Context) (depth : Nat) (name : Text)
    (session : Session) : Prop :=
  ∀ layer ∈ session.layers.get? name, Layer.Redefines layer.lines → session.capture = none ∧
    ClosesAll engine context (walk engine context (depth - 1)) name 0 layer.lines
      (session.entered name)

instance (engine : Engine) (context : Context) (depth : Nat) (name : Text) (session : Session) :
    Decidable (ContainedTurn engine context depth name session) :=
  inferInstanceAs (Decidable (∀ layer ∈ session.layers.get? name, _))

/-- **The walk of a template that redefines blocks** leaves its blank lines outside of blocks. -/
theorem exists_consumed_of_turn {layer : Layer} (hs : session.Stands engine [] tail taken)
    (hg : session.layers.get? name = some layer) (hk : layer.kind = .main ∨ layer.kind = .parent)
    (hname : ∀ parent, parentLayer parent = name → parent ∈ session.extended)
    (hr : Layer.Redefines layer.lines) (hc : ContainedTurn engine context depth name session)
    (h : outcome (walk engine context depth [name]) session = .ok ((), after)) :
    ∃ out, after.layers.get? name = some ⟨layer.kind, out⟩ ∧
      Layer.Consumed out (outside 0 layer.lines) := by
  obtain ⟨hidle, hclosed⟩ := hc layer hg hr
  cases depth with
  | zero => cases h
  | succ depth =>
    obtain ⟨last, hrun, rfl⟩ := (outcome_walk_eq_ok_iff hg).1 h
    have hentered : (session.entered name).layers.get? name =
        some ⟨layer.kind, [] ++ layer.lines⟩ := hg
    obtain ⟨out, hout, hconsumed⟩ := exists_consumed_of_redefines (hs.entering name) hentered hk
      hidle hname hr hclosed hrun
    exact ⟨out, hout, hconsumed⟩

end Render

end Stencil
