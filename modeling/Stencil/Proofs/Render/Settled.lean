import Stencil.Proofs.Render.Handling

/-!
# What a load leaves behind

While layers are walked, the stack holds the parents, the most recent one first, and behind them a
tail that does not change: the template asked for, and the layers that are walked for a while
(`Session.Stands`). Every part of a render keeps this, also if it fails, and a part that fails has
no capture open (`Render.Keeps`). There is one lemma for each part, and the induction on the depth is in
`keeps_walk`.

It follows what a session is like after any number of loads (`settled_load`).
-/

namespace Stencil

namespace Stack

/-- The names of the layers with their kinds. -/
def outline (stack : Stack) : List (Text × LayerKind) :=
  stack.layers.map fun entry => (entry.1, entry.2.kind)

theorem names_eq_outline (stack : Stack) : stack.names = stack.outline.map Prod.fst := by
  simp [names, outline]

theorem outline_modify (stack : Stack) (name : Text) {f : Layer → Layer}
    (h : ∀ layer, (f layer).kind = layer.kind) : (stack.modify name f).outline = stack.outline := by
  simp only [outline, modify, List.map_map]
  refine List.map_congr_left fun entry _ => ?_
  simp only [Function.comp]
  split <;> simp [h]

theorem outline_replace {stack : Stack} {name : Text} (layer : Layer)
    (h : ∀ entry ∈ stack.outline, entry.1 = name → entry.2 = layer.kind) :
    (stack.modify name fun _ => layer).outline = stack.outline := by
  simp only [outline, modify, List.map_map]
  refine List.map_congr_left fun entry he => ?_
  simp only [Function.comp]
  split
  · next hname =>
    have hkind := h (entry.1, entry.2.kind) (List.mem_map.2 ⟨entry, he, rfl⟩) hname
    rw [← hkind]
  · rfl

theorem outline_insert_of_not_contains {stack : Stack} {name : Text}
    (h : stack.contains name = false) (layer : Layer) :
    (stack.insert name layer).outline = stack.outline ++ [(name, layer.kind)] := by
  simp [insert_of_not_contains h, outline]

theorem outline_erase (stack : Stack) (name : Text) :
    (stack.erase name).outline = stack.outline.eraseP (·.1 = name) := by
  simp only [outline, erase, List.eraseP_map]
  rfl

theorem outline_insertFront (stack : Stack) (name : Text) (layer : Layer) :
    (stack.insertFront name layer).outline =
      (name, layer.kind) :: stack.outline.eraseP (·.1 = name) := by
  rw [← outline_erase]
  rfl

end Stack

theorem eraseP_of_not_mem {outline : List (Text × LayerKind)} {name : Text}
    (h : name ∉ outline.map Prod.fst) : outline.eraseP (·.1 = name) = outline := by
  refine List.eraseP_of_forall_not fun entry he hname => h ?_
  exact List.mem_map.2 ⟨entry, he, by simpa using hname⟩

namespace Session

/-- The layers of the parents that could be loaded, of those that were extended. -/
def parentLayers (engine : Engine) (extended : List Text) : List (Text × LayerKind) :=
  (extended.filter fun parent => (engine.loadLines parent []).isOk).map fun parent =>
    (parentLayer parent, .parent)

/-- **While layers are walked**, the parents stand in front of the layers of `tail`, and `taken` of
them at most wait no longer. -/
structure Stands (engine : Engine) (active : Chain) (tail : List (Text × LayerKind)) (taken : Nat)
    (session : Session) : Prop where
  active_eq : session.active = active
  nodup_extended : session.extended.Nodup
  nodup_tail : (tail.map Prod.fst).Nodup
  apart : ∀ parent, parentLayer parent ∉ tail.map Prod.fst
  outline_eq : session.layers.outline = parentLayers engine session.extended ++ tail
  pending_le : session.pending.length + taken ≤ (parentLayers engine session.extended).length

variable {engine : Engine} {active : Chain} {tail : List (Text × LayerKind)} {taken : Nat}
  {session : Session}

theorem mem_map_parentLayers {extended : List Text} {name : Text} :
    name ∈ (parentLayers engine extended).map Prod.fst ↔
      ∃ parent ∈ extended, (engine.loadLines parent []).isOk = true ∧ parentLayer parent = name := by
  simp [parentLayers, and_assoc]

namespace Stands

theorem names_nodup (h : session.Stands engine active tail taken) : session.layers.names.Nodup := by
  rw [Stack.names_eq_outline, h.outline_eq, List.map_append, List.nodup_append]
  refine ⟨?_, h.nodup_tail, ?_⟩
  · rw [parentLayers, List.map_map]
    refine List.pairwise_map.2 ((h.nodup_extended.filter _).imp ?_)
    intro p q hne heq
    exact hne (parentLayer_injective heq)
  · rintro name hp name' ht rfl
    obtain ⟨parent, -, -, rfl⟩ := mem_map_parentLayers.1 hp
    exact h.apart parent ht

/-- What a session stands on does not depend on its capture or on the lines of its layers. -/
theorem congr {session' : Session} (h : session.Stands engine active tail taken)
    (ha : session'.active = session.active) (hx : session'.extended = session.extended)
    (hp : session'.pending = session.pending)
    (ho : session'.layers.outline = session.layers.outline) :
    session'.Stands engine active tail taken where
  active_eq := ha.trans h.active_eq
  nodup_extended := hx ▸ h.nodup_extended
  nodup_tail := h.nodup_tail
  apart := h.apart
  outline_eq := by rw [ho, h.outline_eq, hx]
  pending_le := by
    rw [hp, hx]
    exact h.pending_le

theorem topped (h : session.Stands engine active tail taken) (name : Text) {layer : Layer}
    (hk : ∀ x parent, Stack.fullName (some (layer.kind.label?.getD "layer".toList)) x ≠
      parentLayer parent) :
    (session.topped name layer).Stands engine active
      (tail ++ [(session.transientName name layer, layer.kind)]) taken := by
  have hfree := session.contains_transientName name layer
  have hnew : session.transientName name layer ∉ session.layers.names :=
    Stack.contains_eq_false_iff.1 hfree
  rw [Stack.names_eq_outline, h.outline_eq, List.map_append, List.mem_append, not_or] at hnew
  refine ⟨h.active_eq, h.nodup_extended, ?_, ?_, ?_, h.pending_le⟩
  · rw [List.map_append, List.nodup_append]
    refine ⟨h.nodup_tail, by simp, ?_⟩
    rintro x hx y hy rfl
    obtain rfl : x = session.transientName name layer := by simpa using hy
    exact hnew.2 hx
  · intro parent
    rw [List.map_append, List.mem_append, not_or]
    refine ⟨h.apart parent, ?_⟩
    intro hp
    have heq : parentLayer parent = session.transientName name layer := by simpa using hp
    exact hk _ parent heq.symm
  · rw [Session.topped, placing, Stack.outline_insert_of_not_contains hfree, h.outline_eq,
      List.append_assoc]

theorem removing {name : Text} {kind : LayerKind}
    (h : session.Stands engine active (tail ++ [(name, kind)]) taken) :
    (session.removing name).Stands engine active tail taken := by
  have hnodup := h.nodup_tail
  rw [List.map_append, List.nodup_append] at hnodup
  have htail : name ∉ tail.map Prod.fst := fun hm => hnodup.2.2 name hm name (by simp) rfl
  refine ⟨h.active_eq, h.nodup_extended, hnodup.1, ?_, ?_, h.pending_le⟩
  · intro parent hp
    exact h.apart parent (by simp only [List.map_append, List.mem_append]; exact .inl hp)
  · have hparents : name ∉ (parentLayers engine session.extended).map Prod.fst := by
      intro hm
      obtain ⟨parent, -, -, hp⟩ := mem_map_parentLayers.1 hm
      exact h.apart parent (by simp [hp])
    have hfront : name ∉ (parentLayers engine session.extended ++ tail).map Prod.fst := by
      rw [List.map_append, List.mem_append, not_or]
      exact ⟨hparents, htail⟩
    rw [Session.removing, Stack.outline_erase, h.outline_eq, ← List.append_assoc,
      List.eraseP_append_right _ (fun entry he hname => hfront
        (List.mem_map.2 ⟨entry, he, by simpa using hname⟩))]
    simp

/-- A parent that was not extended before is put in front, if it can be loaded. -/
theorem taking (h : session.Stands engine active tail taken) {parent : Text} {lines : List Text}
    (hx : parent ∉ session.extended) (hl : engine.loadLines parent [] = .ok lines) :
    (session.taking parent lines).Stands engine active tail taken := by
  have hfree : parentLayer parent ∉
      (parentLayers engine session.extended ++ tail).map Prod.fst := by
    rw [List.map_append, List.mem_append, not_or]
    refine ⟨fun hm => ?_, h.apart parent⟩
    obtain ⟨p, hp, -, heq⟩ := mem_map_parentLayers.1 hm
    exact hx (parentLayer_injective heq ▸ hp)
  have hparents : parentLayers engine (parent :: session.extended) =
      (parentLayer parent, .parent) :: parentLayers engine session.extended := by
    simp [parentLayers, hl, Except.isOk, Except.toBool]
  refine ⟨h.active_eq, List.nodup_cons.2 ⟨hx, h.nodup_extended⟩, h.nodup_tail, h.apart, ?_, ?_⟩
  · rw [Session.taking, Stack.outline_insertFront, h.outline_eq, eraseP_of_not_mem hfree, hparents]
    rfl
  · have hle := h.pending_le
    rw [Session.taking]
    simp only [hparents, List.length_append, List.length_cons, List.length_nil]
    omega

/-- A parent that cannot be loaded counts as extended, and is not on the stack. -/
theorem refused (h : session.Stands engine active tail taken) {parent : Text} {e : Error}
    (hx : parent ∉ session.extended) (hl : engine.loadLines parent [] = .error e) :
    { session with extended := parent :: session.extended }.Stands engine active tail taken := by
  have hparents : parentLayers engine (parent :: session.extended) =
      parentLayers engine session.extended := by
    simp [parentLayers, hl, Except.isOk, Except.toBool]
  refine ⟨h.active_eq, List.nodup_cons.2 ⟨hx, h.nodup_extended⟩, h.nodup_tail, h.apart, ?_, ?_⟩
  · rw [h.outline_eq, hparents]
  · rw [hparents]
    exact h.pending_le

/-- A parent whose turn has come waits no longer. -/
theorem popping (h : session.Stands engine active tail taken) {name : Text} {rest : List Text}
    (hp : session.pending = name :: rest) :
    { session with pending := rest }.Stands engine active tail (taken + 1) where
  active_eq := h.active_eq
  nodup_extended := h.nodup_extended
  nodup_tail := h.nodup_tail
  apart := h.apart
  outline_eq := h.outline_eq
  pending_le := by
    have hle := h.pending_le
    rw [hp, List.length_cons] at hle
    simp only
    omega

theorem weaken (h : session.Stands engine active tail taken) {fewer : Nat} (hle : fewer ≤ taken) :
    session.Stands engine active tail fewer where
  active_eq := h.active_eq
  nodup_extended := h.nodup_extended
  nodup_tail := h.nodup_tail
  apart := h.apart
  outline_eq := h.outline_eq
  pending_le := Nat.le_trans (Nat.add_le_add_left hle _) h.pending_le

theorem entering (h : session.Stands engine active tail taken) (name : Text) :
    (session.entered name).Stands engine (name :: active) tail taken where
  active_eq := by rw [Session.entered, h.active_eq]
  nodup_extended := h.nodup_extended
  nodup_tail := h.nodup_tail
  apart := h.apart
  outline_eq := h.outline_eq
  pending_le := h.pending_le

theorem leaving {name : Text} (h : session.Stands engine (name :: active) tail taken) :
    { session with active := session.active.tail }.Stands engine active tail taken where
  active_eq := by rw [h.active_eq, List.tail_cons]
  nodup_extended := h.nodup_extended
  nodup_tail := h.nodup_tail
  apart := h.apart
  outline_eq := h.outline_eq
  pending_le := h.pending_le

end Stands

/-- What an error leaves behind: no capture is open, unless the layers were nested too deep. -/
structure Stops (engine : Engine) (active : Chain) (tail : List (Text × LayerKind)) (taken : Nat)
    (e : Error) (session : Session) : Prop where
  stands : session.Stands engine active tail taken
  idle : e ≠ .tooDeep → session.capture = none

end Session

theorem fullName_ne_parentLayer {kind : LayerKind} (h : kind ≠ .parent) (x parent : Text) :
    Stack.fullName (some (kind.label?.getD "layer".toList)) x ≠ parentLayer parent := by
  intro heq
  have hhead := congrArg List.head? heq
  cases kind with
  | parent => exact h rfl
  | _ => simp [Stack.fullName, parentLayer, LayerKind.label?] at hhead

namespace Render

variable {α : Type} {engine : Engine} {context : Context} {active : Chain}
  {tail : List (Text × LayerKind)} {taken : Nat} {session : Session}

/-- **A part of a render keeps** what the session stands on. -/
def Keeps (engine : Engine) (active : Chain) (tail : List (Text × LayerKind)) (taken : Nat)
    (part : Render α) (session : Session) : Prop :=
  Ends part session (fun _ after => after.Stands engine active tail taken)
    (fun e after => after.Stops engine active tail taken e)

/-- A part of a render keeps what the session stands on, and leaves no capture open. -/
def KeepsIdle (engine : Engine) (active : Chain) (tail : List (Text × LayerKind)) (taken : Nat)
    (part : Render α) (session : Session) : Prop :=
  Ends part session (fun _ after => after.Stands engine active tail taken ∧ after.capture = none)
    (fun e after => after.Stops engine active tail taken e)

theorem KeepsIdle.keeps {part : Render α} (h : KeepsIdle engine active tail taken part session) :
    Keeps engine active tail taken part session :=
  h.mono (fun _ _ ha => ha.1) fun _ _ hb => hb

theorem keeps_pure (h : session.Stands engine active tail taken) (a : α) :
    Keeps engine active tail taken (pure a) session := Ends.pure h

theorem keepsIdle_inherit (h : session.Stands engine active tail taken) (hc : session.capture = none)
    (line : Line) : KeepsIdle engine active tail taken (inherit engine line) session := by
  unfold inherit
  split
  · exact Ends.pure ⟨h, hc⟩
  · next tag _ =>
    refine Ends.get_bind ?_
    cases hx : session.extended.contains (unquote tag.argument) with
    | true => exact Ends.bind (Ends.throw ⟨h, fun _ => hc⟩)
    | false =>
      have hnew : unquote tag.argument ∉ session.extended := by simpa using hx
      refine Ends.bind (Ends.modify (Ends.bind ?_))
      unfold source
      cases hl : engine.loadLines (unquote tag.argument) [] with
      | error e => exact Ends.throw ⟨h.refused hnew hl, fun _ => hc⟩
      | ok lines =>
        exact Ends.pure (Ends.bind (Ends.modify (Ends.pure ⟨h.taking hnew hl, hc⟩)))

theorem keeps_beginCapture (h : session.Stands engine active tail taken) (hc : session.capture = none)
    (construct : Construct) (line : Line) :
    Keeps engine active tail taken (do beginCapture construct; return line) session := by
  refine Ends.bind ?_
  unfold beginCapture
  refine Ends.get_bind ?_
  rw [hc]
  exact Ends.bind (Ends.pure (Ends.modify (Ends.pure (h.congr rfl rfl rfl rfl))))

section Walker

variable {walker : Walker}
  (hw : ∀ {active : Chain} {tail : List (Text × LayerKind)} {taken : Nat} {session : Session}
    (chain : Chain),
    session.Stands engine active tail taken → Keeps engine active tail taken (walker chain) session)
include hw

theorem keeps_transient (h : session.Stands engine active tail taken) (chain : Chain) (name : Text)
    {layer : Layer} (hk : layer.kind ≠ .parent) :
    Keeps engine active tail taken (transient walker chain name layer) session := by
  refine Ends.transient ?_
  rintro full rfl
  refine (hw _ (h.topped name (fullName_ne_parentLayer hk))).mono ?_ ?_
  · intro _ after ha text
    exact ha.removing
  · intro e after ha
    exact ⟨ha.stands.removing, ha.idle⟩

theorem keepsIdle_included (h : session.Stands engine active tail taken) (hc : session.capture = none)
    (chain : Chain) (name : Text) :
    KeepsIdle engine active tail taken (included engine walker chain name) session := by
  unfold included
  split
  · exact Ends.pure ⟨h, hc⟩
  · split
    · exact Ends.pure ⟨h, hc⟩
    · refine Ends.abandoning ((keeps_transient hw h chain name (by simp [Layer.ofSource])).mono ?_ ?_)
      · intro _ after ha
        exact ⟨ha.congr rfl rfl rfl rfl, rfl⟩
      · intro e after ha
        exact ⟨ha.stands.congr rfl rfl rfl rfl, fun _ => rfl⟩

theorem keepsIdle_splice (h : session.Stands engine active tail taken) (hc : session.capture = none)
    (chain : Chain) (tags : List (Tag × Text)) :
    KeepsIdle engine active tail taken (splice engine walker chain tags) session := by
  induction tags with
  | nil => exact Ends.pure ⟨h, hc⟩
  | cons entry rest ih =>
    refine Ends.bind (ih.mono ?_ fun _ _ hb => hb)
    rintro _ after ⟨ha, hidle⟩
    exact Ends.bind ((keepsIdle_included hw ha hidle chain _).mono (fun _ _ hp => Ends.pure hp)
      fun _ _ hb => hb)

theorem keeps_apply (h : session.Stands engine active tail taken) (hc : session.capture = none)
    (chain : Chain) (line : Line) (d : Directive) :
    Keeps engine active tail taken (apply engine context walker chain line d) session := by
  cases d with
  | inherits => exact (keepsIdle_inherit h hc line).keeps
  | includes =>
    refine Ends.bind ((keepsIdle_splice hw h hc chain _).mono ?_ fun _ _ hb => hb)
    rintro _ after ⟨ha, -⟩
    exact Ends.pure ha
  | block =>
    rw [apply]
    split
    · exact keeps_pure h _
    · exact keeps_beginCapture h hc _ _
  | loop =>
    rw [apply]
    split
    · exact keeps_pure h _
    · exact keeps_beginCapture h hc _ _
  | condition =>
    rw [apply]
    split
    · exact keeps_pure h _
    · exact keeps_beginCapture h hc _ _
  | asset => exact keeps_pure h _
  | route => exact keeps_pure h _
  | interpolation => exact keeps_pure h _

theorem keeps_dispatch (h : session.Stands engine active tail taken) (chain : Chain)
    (ds : List Directive) (line : Line) :
    Keeps engine active tail taken (dispatch engine context walker chain ds line) session := by
  induction ds generalizing line session with
  | nil => exact keeps_pure h _
  | cons d ds ih =>
    refine Ends.get_bind ?_
    cases hstop : line.rendered || session.capture.isSome with
    | true => exact keeps_pure h _
    | false =>
      have hc : session.capture = none := by
        rw [Bool.or_eq_false_iff] at hstop
        simpa using hstop.2
      simp only [Bool.false_eq_true, ↓reduceIte]
      split
      · refine Ends.bind ((keeps_apply hw h hc chain line d).mono ?_ fun _ _ hb => hb)
        intro line' after ha
        exact ih ha _
      · exact Ends.bind (Ends.pure (ih h _))

theorem keeps_endBlock (h : session.Stands engine active tail taken) (chain : Chain) (name : Text)
    (body : List Line) (line : Line) :
    Keeps engine active tail taken (endBlock walker chain name body line) session := by
  refine Ends.bind ((keeps_transient hw h chain name (by simp)).mono ?_ fun _ _ hb => hb)
  intro content after ha
  refine Ends.get_bind ?_
  split
  · exact Ends.pure ha
  · split
    · refine Ends.bind (Ends.modifyLayers (Ends.pure ?_))
      exact ha.congr rfl rfl rfl (Stack.outline_modify _ _ fun _ => rfl)
    · exact Ends.pure ha

theorem keeps_iterations (h : session.Stands engine active tail taken) (chain : Chain)
    (header : LoopHeader) (body : List Line) (position : Nat) (keys : List Text) :
    Keeps engine active tail taken (iterations context walker chain header body position keys)
      session := by
  induction keys generalizing position session with
  | nil => exact keeps_pure h _
  | cons key rest ih =>
    refine Ends.bind ((keeps_transient hw h chain _ (by simp)).mono ?_ fun _ _ hb => hb)
    intro text after ha
    exact Ends.bind ((ih ha _).mono (fun _ _ hb => Ends.pure hb) fun _ _ hb => hb)

theorem keeps_close (h : session.Stands engine active tail taken) (hc : session.capture = none)
    (chain : Chain) (body : List Line) (line : Line) (construct : Construct) :
    Keeps engine active tail taken (close context walker chain body line construct) session := by
  cases construct with
  | block name => exact keeps_endBlock hw h chain name body line
  | loop variableName collection =>
    rw [close]
    unfold endLoop
    split
    · exact Ends.throw ⟨h, fun _ => hc⟩
    · exact Ends.bind ((keeps_iterations hw h chain _ body 0 _).mono (fun _ _ ha => Ends.pure ha)
        fun _ _ hb => hb)
  | condition expression =>
    rw [close]
    unfold endCondition
    split
    · exact Ends.bind ((keeps_transient hw h chain _ (by simp)).mono (fun _ _ ha => Ends.pure ha)
        fun _ _ hb => hb)
    · exact keeps_pure h _
    · exact keeps_pure h _

theorem keeps_handle (h : session.Stands engine active tail taken) (chain : Chain) (line : Line) :
    Keeps engine active tail taken (handle engine context walker chain line) session := by
  refine Ends.get_bind ?_
  split
  · exact keeps_dispatch hw h chain _ line
  · split
    · exact Ends.bind (Ends.modify (Ends.pure (h.congr rfl rfl rfl rfl)))
    · have hreleased : session.released.Stands engine active tail taken := h.congr rfl rfl rfl rfl
      exact Ends.bind (Ends.modify (keeps_close hw hreleased rfl chain _ line _))

theorem keeps_handleFrom (h : session.Stands engine active tail taken) (chain : Chain) (name : Text)
    (position : Nat) (lines : List Line) :
    Keeps engine active tail taken (handleFrom engine context walker chain name position lines)
      session := by
  induction lines generalizing position session with
  | nil => exact keeps_pure h _
  | cons line rest ih =>
    refine Ends.bind ((keeps_handle hw h chain line).mono ?_ fun _ _ hb => hb)
    intro line' after ha
    refine Ends.bind (Ends.modifyLayers (ih ?_ _))
    exact ha.congr rfl rfl rfl (Stack.outline_modify _ _ fun _ => rfl)

end Walker

/-- **A walk keeps** what the session stands on, however deep it goes. -/
theorem keeps_walk (h : session.Stands engine active tail taken) (depth : Nat) (chain : Chain) :
    Keeps engine active tail taken (walk engine context depth chain) session := by
  induction depth generalizing active tail taken session chain with
  | zero => exact Ends.throw ⟨h, fun hne => absurd rfl hne⟩
  | succ depth ih =>
    cases chain with
    | nil => exact keeps_pure h _
    | cons name outer =>
      refine Ends.entering (Ends.get_bind ?_)
      split
      · exact Ends.pure (h.entering name).leaving
      · refine (keeps_handleFrom (fun chain hs => ih hs chain) (h.entering name) _ _ _ _).mono ?_ ?_
        · intro _ after ha
          exact ha.leaving
        · intro e after ha
          exact ⟨ha.stands.leaving, ha.idle⟩

/-! ## Loading templates one after the other -/

theorem keeps_walkParents (h : session.Stands engine active tail taken) (depth count : Nat) :
    Keeps engine active tail taken (walkParents engine context depth count) session := by
  induction count generalizing session with
  | zero =>
    refine Ends.get_bind ?_
    split
    · exact keeps_pure h _
    · exact Ends.throw ⟨h, fun hne => absurd rfl hne⟩
  | succ count ih =>
    refine Ends.get_bind ?_
    split
    · exact keeps_pure h _
    · next name rest hp =>
      have hpopped : { session with pending := rest }.Stands engine active tail taken :=
        (h.popping hp).weaken (Nat.le_succ taken)
      refine Ends.bind (Ends.modify (Ends.get_bind (Ends.bind ?_)))
      exact (keeps_walk hpopped depth _).mono (fun _ _ ha => ih ha) fun _ _ hb => hb

/-- The layer of the template asked for, if it is there. -/
def IsMain (tail : List (Text × LayerKind)) : Prop := tail = [] ∨ tail = [(mainName, .main)]

theorem stands_loading (h : session.Stands engine active tail taken) (hm : IsMain tail)
    (lines : List Text) :
    (session.loading lines).Stands engine active [(mainName, .main)] taken := by
  have hapart : ∀ parent, parentLayer parent ∉ [(mainName, LayerKind.main)].map Prod.fst := by
    intro parent hp
    have heq : parentLayer parent = mainName := by simpa using hp
    exact mainName_ne_parentLayer parent heq.symm
  refine ⟨h.active_eq, h.nodup_extended, by simp, hapart, ?_, h.pending_le⟩
  have hnot : mainName ∉ (Session.parentLayers engine session.extended).map Prod.fst := by
    intro hp
    obtain ⟨parent, -, -, heq⟩ := Session.mem_map_parentLayers.1 hp
    exact mainName_ne_parentLayer parent heq.symm
  rcases hm with rfl | rfl
  · have hfree : session.layers.contains mainName = false := by
      rw [Stack.contains_eq_false_iff, Stack.names_eq_outline, h.outline_eq, List.append_nil]
      exact hnot
    rw [Session.loading, Stack.outline_insert_of_not_contains hfree, h.outline_eq, List.append_nil]
    rfl
  · have hthere : session.layers.contains mainName = true := by
      rw [Stack.contains_iff, Stack.names_eq_outline, h.outline_eq]
      simp
    rw [Session.loading, Stack.insert, if_pos hthere, Stack.outline_replace _, h.outline_eq]
    -- the layer of that name is the main layer already
    intro entry he hname
    rw [h.outline_eq, List.mem_append] at he
    rcases he with hp | hmain
    · exact absurd (List.mem_map.2 ⟨entry, hp, hname⟩) hnot
    · rw [List.mem_singleton.1 hmain]
      rfl

theorem stands_clean (h : session.Stands engine active [(mainName, .main)] taken) :
    ∃ tail, IsMain tail ∧
      { session with layers := session.layers.clean mainName }.Stands engine active tail taken := by
  unfold Stack.clean
  split
  · exact ⟨_, .inr rfl, h⟩
  · split
    · exact ⟨_, .inr rfl, h.congr rfl rfl rfl (Stack.outline_modify _ _ fun _ => rfl)⟩
    · have hnil : session.Stands engine active ([] ++ [(mainName, .main)]) taken := h
      exact ⟨[], .inl rfl, hnil.removing⟩

/-- **A load keeps** the parents in front of the template asked for, also if it fails. -/
theorem ends_load (context : Context) (h : session.Stands engine active tail taken) (hm : IsMain tail)
    (depth : Nat) (name : Text) :
    Ends (load engine context depth name) session
      (fun _ after => ∃ tail, IsMain tail ∧ after.Stands engine active tail taken)
      (fun e after => (∃ tail, IsMain tail ∧ after.Stands engine active tail taken) ∧
        ∀ lines, engine.loadLines name [] = .ok lines → e ≠ .tooDeep → after.capture = none) := by
  refine Ends.bind ?_
  unfold source
  cases hl : engine.loadLines name [] with
  | error e => exact Ends.throw ⟨⟨tail, hm, h⟩, fun lines hl' => nomatch hl'⟩
  | ok lines =>
    refine Ends.pure (Ends.bind (Ends.modifyLayers (Ends.get_bind (Ends.bind ?_))))
    have hloading := stands_loading h hm lines
    refine (keeps_walk hloading depth _).mono ?_ ?_
    · intro _ after ha
      obtain ⟨tail', hm', hclean⟩ := stands_clean ha
      refine Ends.bind (Ends.modifyLayers ((keeps_walkParents hclean depth depth).mono ?_ ?_))
      · intro _ final hf
        exact ⟨tail', hm', hf⟩
      · intro e final hf
        exact ⟨⟨tail', hm', hf.stands⟩, fun _ _ => hf.idle⟩
    · intro e after ha
      exact ⟨⟨_, .inr rfl, ha.stands⟩, fun _ _ => ha.idle⟩

/-- The session after loads one after the other, each within its depth. After one that fails the
next one goes on with what is left of the session. -/
def loadAll (engine : Engine) (context : Context) (calls : List (Nat × Text))
    (session : Session) : Session :=
  calls.foldl (fun session call => (load engine context call.1 call.2 session).2) session

theorem exists_stands_loadAll (context : Context) (calls : List (Nat × Text)) (hm : IsMain tail)
    (h : session.Stands engine active tail taken) :
    ∃ tail, IsMain tail ∧ (loadAll engine context calls session).Stands engine active tail taken := by
  induction calls generalizing session tail with
  | nil => exact ⟨tail, hm, h⟩
  | cons call rest ih =>
    have hload := ends_load context h hm call.1 call.2
    unfold loadAll
    rw [List.foldl_cons]
    cases hrun : load engine context call.1 call.2 session with
    | mk result after =>
      cases result with
      | ok u =>
        obtain ⟨tail', hm', ha⟩ := hload.of_ok hrun
        exact ih hm' ha
      | error e =>
        obtain ⟨⟨tail', hm', ha⟩, -⟩ := hload.of_error hrun
        exact ih hm' ha

end Render

/-- **Between two loads**: no layer is being walked, and what is left on the stack is the parents,
the most recent one first, and behind them the template asked for, if anything is left of it. -/
structure Session.Settled (engine : Engine) (session : Session) : Prop where
  idle : session.active = []
  names_nodup : session.layers.names.Nodup
  kind : ∀ entry ∈ session.layers.layers, entry.2.kind = .main ∨ entry.2.kind = .parent
  order : ∃ main, (main = [] ∨ main = [(mainName, LayerKind.main)]) ∧
    session.layers.outline = parentLayers engine session.extended ++ main

namespace Session

variable {engine : Engine}

theorem Stands.settled {session : Session} {tail : List (Text × LayerKind)}
    (h : session.Stands engine [] tail taken) (hm : Render.IsMain tail) : session.Settled engine where
  idle := h.active_eq
  names_nodup := h.names_nodup
  kind := by
    intro entry he
    have hmem : (entry.1, entry.2.kind) ∈ session.layers.outline := List.mem_map.2 ⟨entry, he, rfl⟩
    rw [h.outline_eq, List.mem_append] at hmem
    rcases hmem with hp | ht
    · obtain ⟨parent, -, heq⟩ := List.mem_map.1 hp
      exact .inr (Prod.mk.inj heq).2.symm
    · rcases hm with rfl | rfl
      · cases ht
      · exact .inl (Prod.mk.inj (List.mem_singleton.1 ht)).2
  order := ⟨tail, hm, h.outline_eq⟩

/-- A session in which nothing was loaded yet. -/
theorem stands_empty (engine : Engine) : ({} : Session).Stands engine [] [] 0 where
  active_eq := rfl
  nodup_extended := List.nodup_nil
  nodup_tail := List.nodup_nil
  apart := by simp
  outline_eq := rfl
  pending_le := Nat.le_refl 0

end Session

namespace Render

/-- **After each load**, whatever was loaded before and whether it fails or not, the session is
settled; and if the load fails after its own template was loaded, then no capture is open. -/
theorem settled_load (engine : Engine) (context : Context) (calls : List (Nat × Text))
    (depth : Nat) (name : Text) :
    (load engine context depth name (loadAll engine context calls {})).2.Settled engine ∧
    ∀ e lines, (load engine context depth name (loadAll engine context calls {})).1 = .error e →
      engine.loadLines name [] = .ok lines → e ≠ .tooDeep →
      (load engine context depth name (loadAll engine context calls {})).2.capture = none := by
  obtain ⟨tail, hm, hstands⟩ :=
    exists_stands_loadAll context calls (.inl rfl) (Session.stands_empty engine)
  have hload := ends_load context hstands hm depth name
  cases hrun : load engine context depth name (loadAll engine context calls {}) with
  | mk result after =>
    cases result with
    | ok u =>
      obtain ⟨tail', hm', ha⟩ := hload.of_ok hrun
      refine ⟨ha.settled hm', fun e lines he => ?_⟩
      cases he
    | error e =>
      obtain ⟨⟨tail', hm', ha⟩, hidle⟩ := hload.of_error hrun
      refine ⟨ha.settled hm', ?_⟩
      intro e' lines he hl hne
      obtain rfl := Except.error.inj he
      exact hidle lines hl hne

/-- Templates of which one fails in the middle of an inclusion, inside a loop, in a parent. -/
def nested : Engine where
  templates :=
    [("t".toList, "\x7b% extends \"p\" %\x7d\x7b% if xs %\x7d".toList),
      ("p".toList, "\x7b% for x in xs %\x7d\x7b% include \"i\" %\x7d\x7b% endfor %\x7d".toList),
      ("includes/i".toList, "\x7b% for y in ys %\x7d\x7b% endfor %\x7d".toList),
      ("u".toList, "\x7b% endif %\x7d\x7b% extends \"q\" %\x7d".toList), ("q".toList, "q".toList)]

/-- A collection for the outer loop, and none for the inner one. -/
def halfGiven : Context := Context.ofList [("xs".toList, .list [.int 1])]

/-- The first load leaves a condition open that takes in all of its parent. The second load closes
it and fails in an inclusion, inside a loop, inside the condition. -/
theorem settled_load_nested :
    let before := loadAll nested halfGiven [(6, "t".toList)] {}
    let after := load nested halfGiven 6 "u".toList before
    before.capture.isSome = true ∧ after.1 = .error (.missingCollection "ys".toList) ∧
      after.2.layers.outline = [("extends.p".toList, .parent), (mainName, .main)] ∧
      after.2.capture = none := by
  have hfail : (load nested halfGiven 6 "u".toList
      (loadAll nested halfGiven [(6, "t".toList)] {})).1 =
        .error (.missingCollection "ys".toList) := by
    decide +kernel
  have hidle := (settled_load nested halfGiven [(6, "t".toList)] 6 "u".toList).2 _
    (splitLines "\x7b% endif %\x7d\x7b% extends \"q\" %\x7d".toList) hfail (by decide +kernel)
    (by decide)
  exact ⟨by decide +kernel, hfail, by decide +kernel, hidle⟩

end Render

end Stencil
