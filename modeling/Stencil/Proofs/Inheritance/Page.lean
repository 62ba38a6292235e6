import Stencil.Proofs.Inheritance.Chain
import Stencil.Proofs.Layer.Slot
import Stencil.Proofs.Render.Handling

/-!
# The page of a template that extends another one

Parents are walked one after the other, each of them over the next one. `render_eq_of_descends` says
what comes of it for a chain of any length: the page is the base with the overrides of the chain in
its slots, and behind it the blank lines that are left of the templates in between. Of the template
asked for nothing is left, since its layer is taken off when it shows nothing.

For a single parent, `render_child_eq` puts this as a substitution into the page of the parent.
-/

namespace Stencil

/-- The session once it has taken in a parent, apart from its layers. -/
def Session.inheriting (session : Session) (parent : Text) : Session :=
  { session with
    pending := session.pending ++ [parentLayer parent]
    extended := parent :: session.extended }

/-! ## Walking one template -/

namespace Render

variable {engine : Engine} {context : Context} {walker : Walker} {chain : Chain}

theorem outcome_dispatch_of_isBlank {line : Line} (h : Text.isBlank line.text = true)
    (ds : List Directive) (session : Session) :
    outcome (dispatch engine context walker chain ds line) session = .ok (line, session) := by
  induction ds with
  | nil => rfl
  | cons d ds ih => rw [outcome_dispatch_skip ds (Directive.occursIn_of_isBlank h d), ih]

/-- **A line that names a parent**, and shows nothing else, takes in the parent, and nothing of the
line is left. -/
theorem outcome_handle_inherits {line : Line} {parent : Text} (hr : line.rendered = false)
    (hn : (Directive.inherits.find? line.text).map (fun tag => unquote tag.argument) = some parent)
    (hb : Text.isBlank (Directive.inherits.pattern.dropFirst line.text) = true)
    {session : Session} (hc : session.capture = none) :
    outcome (handle engine context walker chain line) session =
      if session.extended.contains parent then .error (.inheritanceCycle parent)
      else (engine.loadLines parent []).map fun lines =>
        (line.inherited, session.taking parent lines) := by
  obtain ⟨tag, htag, rfl⟩ := Option.map_eq_some_iff.1 hn
  have hocc : Directive.inherits.occursIn line.text = true := by
    have hsome := Pattern.isSome_find? Directive.inherits.pattern line.text
    rw [← Directive.find?, htag] at hsome
    exact hsome.symm
  rw [outcome_handle_idle hc, Directive.order, outcome_dispatch_cons _ hr hc, if_pos hocc, apply,
    outcome_inherit_eq htag]
  split
  · rfl
  · cases engine.loadLines (unquote tag.argument) [] with
    | error e => rfl
    | ok lines => exact outcome_dispatch_of_isBlank hb _ _

/-- A line that extends a template, if that template can be taken in. -/
theorem outcome_handle_extends {line : Line} {parent : Text} (h : line.Extends parent)
    {session : Session} (hc : session.capture = none) (hnew : parent ∉ session.extended)
    (hfree : session.layers.contains (parentLayer parent) = false) {source : List Text}
    (hl : engine.loadLines parent [] = .ok source) :
    outcome (handle engine context walker chain line) session =
      .ok (line.inherited, (session.inheriting parent).extending session.layers
        (parentLayer parent) (Layer.ofSource .parent source).lines) := by
  have hx : session.extended.contains parent = false := by simpa using hnew
  rw [outcome_handle_inherits h.not_rendered h.names h.blank hc, hx, hl]
  simp only [Bool.false_eq_true, ↓reduceIte, Except.map, Session.taking,
    Stack.insertFront_of_not_contains hfree]
  rfl

/-- **A template that extends another one is walked**: its blocks are put into the slots of the
parent, which is in front now, and of its own lines only blank ones are left. -/
theorem outcome_walk_derived {parent : Text} {extending : Line} {blocks : Nesting}
    (he : extending.Extends parent) (hs : blocks.Sound context) (ho : blocks.OnlyBlocks)
    {depth : Nat} (hd : blocks.height ≤ depth) {session : Session} (hc : session.capture = none)
    {name : Text} {kind : LayerKind} (hkind : kind = .main ∨ kind = .parent)
    (hget : session.layers.get? name = some ⟨kind, extending :: blocks.lines⟩)
    (hother : ∀ entry ∈ session.layers.layers, entry.1 ≠ name → ∀ x, entry.2.slot? x = none)
    (hnew : parent ∉ session.extended) (hfree : session.layers.contains (parentLayer parent) = false)
    {source : List Text} (hl : engine.loadLines parent [] = .ok source) {head : List Line}
    (hhead : ∀ x, ∀ line ∈ head, Layer.opensBlock x line = false) {n : Nesting}
    (hn : n.WellNested) (hlines : (Layer.ofSource .main source).lines = head ++ n.lines) :
    outcome (walk engine context (depth + 1) [name]) session =
      (blocks.contents engine context).map fun contents => ((),
        (session.inheriting parent).extending
          (session.layers.write name 0 (extending.inherited :: blocks.left)) (parentLayer parent)
          (head ++ (n.fillAll contents).lines)) := by
  have hbehind : session.layers.Behind (parentLayer parent) name :=
    ⟨hfree, ⟨_, hget, hkind⟩, hother⟩
  have hstored := hbehind.write 0 [extending.inherited]
  have hsource : (Layer.ofSource .parent source).lines = head ++ n.lines := hlines
  have hentered : (session.entered name).capture = none := hc
  have hextends : outcome (handle engine context (walk engine context depth) [name] extending)
      (session.entered name) = _ := outcome_handle_extends he hentered hnew hfree hl
  have hidle : ((session.entered name).inheriting parent).capture = none := hc
  have hwalk : outcome (handleFrom engine context (walk engine context depth) [name] name 1
      (blocks.lines ++ [])) _ = _ :=
    outcome_handleFrom_onlyBlocks hs ho hd hidle hhead [] hn hstored 1
  rw [List.append_nil] at hwalk
  rw [outcome_walk_of_get? hget, outcome_handleFrom_cons, hextends]
  simp only [Except.bind, Session.layers_entered]
  rw [Session.write_extending hbehind, hsource, hwalk]
  cases blocks.contents engine context with
  | error e => rfl
  | ok contents =>
    simp only [Except.bind, Except.map]
    have hlength : 1 = 0 + [extending.inherited].length := rfl
    rw [Stack.write_write session.layers name blocks.left hlength]
    rfl

end Render

/-! ## Walking the parents -/

/-- **Between two templates of a chain**: a parent is in front and waits for its turn, and the
layers behind it are done with. The templates that were extended have chains at least as long as
what comes behind the parent. -/
structure Session.Waits (engine : Engine) (count : Nat) (rest : Stack) (front : Text)
    (lines : List Line) (session : Session) : Prop where
  layers : session.layers = rest.push front ⟨.parent, lines⟩
  capture : session.capture = none
  pending : session.pending = [front]
  active : session.active = []
  free : rest.contains front = false
  slotless : ∀ entry ∈ rest.layers, ∀ x, entry.2.slot? x = none
  names : ∀ name ∈ front :: rest.names, ∃ parent ∈ session.extended, name = parentLayer parent
  extended : ∀ parent ∈ session.extended, ∃ source chain base,
    engine.loadLines parent [] = .ok source ∧ Descends engine source chain base ∧
      count ≤ chain.length

namespace Session

variable {engine : Engine} {count : Nat} {rest : Stack} {front : Text} {lines : List Line}
  {session : Session}

/-- The session while the parent in front is walked. -/
def popped (session : Session) : Session := { session with pending := [] }

theorem Waits.layers_popped (h : session.Waits engine count rest front lines) :
    session.popped.layers = rest.push front ⟨.parent, lines⟩ := h.layers

theorem Waits.get?_front (h : session.Waits engine count rest front lines) :
    session.popped.layers.get? front = some ⟨.parent, lines⟩ := by
  rw [h.layers_popped, Stack.get?_push_self]

/-- The parent in front shows its blocks in place if nothing extends it any more. -/
theorem Waits.inPlace (h : session.Waits engine count rest front lines) :
    session.popped.InPlace [front] := by
  refine .inr ⟨fun x => ?_, ?_⟩
  · rw [h.layers_popped, Render.slot?, List.findSome?_eq_none_iff]
    intro entry he
    rcases List.mem_cons.1 he with rfl | he
    · simp
    · simp [h.slotless entry he x]
  · have hdoc : session.popped.document? [front] = some (front, .parent) := by
      simp [document?, h.get?_front, LayerKind.isDocument]
    have hpos : session.popped.layers.position? front = some 0 := by
      simp [h.layers_popped, Stack.push, Stack.position?, List.findIdx?_cons]
    unfold Render.showsInPlace
    rw [hdoc]
    simp only [hpos]
    rfl

/-- No layer but the one in front has a slot. -/
theorem Waits.slotless_popped (h : session.Waits engine count rest front lines) :
    ∀ entry ∈ session.popped.layers.layers, entry.1 ≠ front → ∀ x, entry.2.slot? x = none := by
  rw [h.layers_popped]
  intro entry he hne x
  rcases List.mem_cons.1 he with rfl | he
  · exact absurd rfl hne
  · exact h.slotless entry he x

/-- All lines of the parent in front are stored. -/
theorem Waits.write_front (h : session.Waits engine count rest front lines) {out : List Line}
    (hlen : out.length = lines.length) :
    session.popped.layers.write front 0 out = rest.push front ⟨.parent, out⟩ := by
  rw [h.layers_popped, Stack.write, Stack.modify_push h.free, Layer.writeFrom_zero _ hlen]

/-- The parent of the template asked for waits when that template is done with. -/
theorem waits_first {t : Derived} {parent : List Text} {chain : List Derived} {base : Nesting}
    (hd : Descends engine parent chain base) (hl : engine.loadLines t.parent [] = .ok parent)
    (lines : List Line) :
    ((inheriting {} t.parent).extending {} (parentLayer t.parent) lines).Waits engine chain.length
      {} (parentLayer t.parent) lines where
  layers := rfl
  capture := rfl
  pending := rfl
  active := rfl
  free := rfl
  slotless := by simp
  names := by
    intro name hm
    exact ⟨t.parent, List.mem_cons_self, List.mem_singleton.1 hm⟩
  extended := by
    intro p hm
    obtain rfl := List.mem_singleton.1 hm
    exact ⟨parent, chain, base, hl, hd, Nat.le_refl _⟩

section Step

variable {t : Derived} {blocks : Nesting} {parent : List Text} {chain : List Derived}
  {base : Nesting}
  (h : session.Waits engine (chain.length + 1) rest front (t.extending :: blocks.lines))
  (hd : Descends engine parent chain base) (hl : engine.loadLines t.parent [] = .ok parent)
include h hd hl

/-- **A chain does not come back** to a template that it has been through. -/
theorem Waits.not_mem_extended : t.parent ∉ session.extended := by
  intro hm
  obtain ⟨source, chain', base', hl', hd', hlen⟩ := h.extended t.parent hm
  obtain rfl := Except.ok.inj (hl.symm.trans hl')
  have := hd.length_eq hd'
  omega

theorem Waits.not_contains (out : List Line) :
    (rest.push front ⟨.parent, out⟩).contains (parentLayer t.parent) = false := by
  rw [Stack.contains_eq_false_iff]
  intro hm
  obtain ⟨p, hp, heq⟩ := h.names _ hm
  rw [← parentLayer_injective heq] at hp
  exact h.not_mem_extended hd hl hp

/-- **The parent that was in front is done with**, and the next one waits. -/
theorem Waits.next {out : List Line} (hout : ∀ line ∈ out, Text.isBlank line.text = true)
    (lines : List Line) :
    ((session.popped.inheriting t.parent).extending (rest.push front ⟨.parent, out⟩)
      (parentLayer t.parent) lines).Waits engine chain.length (rest.push front ⟨.parent, out⟩)
        (parentLayer t.parent) lines where
  layers := rfl
  capture := h.capture
  pending := rfl
  active := h.active
  free := h.not_contains hd hl out
  slotless := by
    intro entry he x
    rcases List.mem_cons.1 he with rfl | he
    · exact Layer.slot?_of_isBlank hout x
    · exact h.slotless entry he x
  names := by
    intro name hm
    rcases List.mem_cons.1 hm with rfl | hm
    · exact ⟨t.parent, List.mem_cons_self, rfl⟩
    · obtain ⟨p, hp, heq⟩ := h.names name hm
      exact ⟨p, List.mem_cons_of_mem _ hp, heq⟩
  extended := by
    intro p hp
    rcases List.mem_cons.1 hp with rfl | hp
    · exact ⟨parent, chain, base, hl, hd, Nat.le_refl _⟩
    · obtain ⟨source, chain', base', hl', hd', hlen⟩ := h.extended p hp
      exact ⟨source, chain', base', hl', hd', by omega⟩

end Step

end Session

namespace Derived

/-- Nothing that is left of a template is visible, whatever its slots were filled with. -/
theorem isBlank_of_mem (t : Derived) (contents : List (Text × Text)) :
    ∀ line ∈ t.extending.inherited :: (t.blocks.fillAll contents).left,
      Text.isBlank line.text = true := by
  intro line hl
  rcases List.mem_cons.1 hl with rfl | hl
  · exact t.extends_parent.blank
  · exact Nesting.isBlank_of_mem_left (Nesting.onlyBlocks_fillAll t.onlyBlocks contents) line hl

/-- The text of the layer that is left of a template. -/
theorem render_left (t : Derived) (contents : List (Text × Text)) :
    Layer.render ⟨.parent, t.extending.inherited :: (t.blocks.fillAll contents).left⟩ =
      t.leftover := by
  have hdiscarded : ∀ line ∈ [t.extending.inherited], line.discarded = true := by
    intro line hl
    obtain rfl := List.mem_singleton.1 hl
    exact Bool.and_eq_true_iff.2 ⟨rfl, t.extends_parent.blank⟩
  have hstart : ∀ (broken : Bool) (ls : List Line),
      Layer.renderFrom false broken ls = Layer.renderFrom false false ls := by
    intro broken ls
    induction ls generalizing broken with
    | nil => rfl
    | cons line ls ih => simp [Layer.renderFrom, ih (broken || !line.glued), ih (!line.glued)]
  rw [Layer.render, ← List.singleton_append, Layer.renderFrom_discarded hdiscarded, hstart]
  exact Nesting.outText_left_fillAll t.blocks contents

end Derived

namespace Render

variable {engine : Engine} {context : Context} {session : Session}

theorem outcome_walkParents_succ {front : Text} (h : session.pending = [front])
    (ha : session.active = []) (depth count : Nat) :
    outcome (walkParents engine context depth (count + 1)) session =
      (outcome (walk engine context depth [front]) session.popped).bind fun p =>
        outcome (walkParents engine context depth count) p.2 := by
  have hchain : front :: session.active = [front] := by rw [ha]
  rw [outcome_walkParents_cons h, hchain]
  rfl

/-- **Walking all parents** puts the overrides of the chain into the slots of the base. The layers
that the parents leave behind them come before those that were there already. -/
theorem outcome_walkParents {source : List Text} {chain : List Derived} {base : Nesting}
    (hd : Descends engine source chain base) (hf : ∀ t ∈ chain, t.blocks.Fillable context)
    (hb : base.Fillable context) {depth : Nat} (hdepth : ∀ t ∈ chain, t.blocks.height ≤ depth)
    (hbase : base.height ≤ depth) {count : Nat} (hcount : chain.length < count)
    {contents : List (Text × Text)} {rest : Stack} {front : Text}
    (h : session.Waits engine chain.length rest front
      (Descends.head chain ++ ((Descends.slots base chain).fillAll contents).lines)) :
    (outcome (walkParents engine context (depth + 1) count) session).map (fun p => p.2.page) =
      (overrides engine context chain contents).bind fun contents =>
        ((base.fillAll contents).render engine context fun _ => none).map fun out =>
          Nesting.outText out ++ (chain.reverse.flatMap Derived.leftover ++ rest.join) := by
  induction hd generalizing count contents session rest front with
  | @base source base hn hw =>
    obtain ⟨count, rfl⟩ : ∃ c, count = c + 1 := ⟨count - 1, by omega⟩
    have hwaits : session.Waits engine 0 rest front (base.fillAll contents).lines := h
    have hidle : session.popped.capture = none := hwaits.capture
    have hheight : (base.fillAll contents).height < depth + 1 :=
      Nat.lt_succ_of_le (Nat.le_trans (Nesting.height_fillAll_le base contents) hbase)
    have hsimulates : Simulates engine context (base.fillAll contents) :=
      simulates_of_sound (hb contents)
    have hwalk := outcome_walk_simulates hsimulates hheight hidle hwaits.inPlace hwaits.get?_front
    rw [outcome_walkParents_succ h.pending h.active, hwalk, overrides]
    simp only [Except.bind]
    cases hr : (base.fillAll contents).render engine context fun _ => none with
    | error e => rfl
    | ok out =>
      have hlen := Nesting.length_render hr
      simp only [Except.map]
      rw [outcome_walkParents_of_empty (by rfl)]
      simp only [Session.page, Session.write, hwaits.write_front hlen, Stack.join_push]
      rfl
  | @step source parent t chain base hn hl hd ih =>
    obtain ⟨count, rfl⟩ : ∃ c, count = c + 1 := ⟨count - 1, by omega⟩
    have hsound := hf t List.mem_cons_self contents
    have honly := Nesting.onlyBlocks_fillAll t.onlyBlocks contents
    have hheight : (t.blocks.fillAll contents).height ≤ depth :=
      Nat.le_trans (Nesting.height_fillAll_le t.blocks contents) (hdepth t List.mem_cons_self)
    have hwaits : session.Waits engine (chain.length + 1) rest front
        (t.extending :: (t.blocks.fillAll contents).lines) := h
    have hidle : session.popped.capture = none := hwaits.capture
    have hfree : session.popped.layers.contains (parentLayer t.parent) = false := by
      rw [hwaits.layers_popped]
      exact hwaits.not_contains hd hl _
    have hlen : (t.extending.inherited :: (t.blocks.fillAll contents).left).length =
        (t.extending :: (t.blocks.fillAll contents).lines).length := by simp
    have hwalk := outcome_walk_derived t.extends_parent hsound honly hheight hidle (.inr rfl)
      hwaits.get?_front hwaits.slotless_popped (hwaits.not_mem_extended hd hl) hfree hl
      (Descends.opensBlock_head chain) hd.wellNested_slots (hd.lines_eq .main)
    rw [outcome_walkParents_succ h.pending h.active, hwalk, overrides, hwaits.write_front hlen]
    cases hcs : (t.blocks.fillAll contents).contents engine context with
    | error e => rfl
    | ok contents' =>
      have hnext := hwaits.next hd hl (t.isBlank_of_mem contents)
        (Descends.head chain ++ ((Descends.slots base chain).fillAll contents').lines)
      have hrun := ih (fun t ht => hf t (List.mem_cons_of_mem _ ht)) hb
        (fun t ht => hdepth t (List.mem_cons_of_mem _ ht)) hbase
        (Nat.lt_of_succ_lt_succ hcount) hnext
      refine hrun.trans ?_
      simp only [Except.bind, Stack.join_push, Derived.render_left, List.reverse_cons,
        List.flatMap_append, List.flatMap_cons, List.flatMap_nil, List.append_nil,
        List.append_assoc]
      rfl

end Render

/-! ## The page -/

namespace Engine

variable {engine : Engine} {context : Context}

/-- **The template asked for goes off the stack** if it shows nothing but the blocks that it has put
into its parent. -/
theorem clean_push_mainOnly {out : List Line} (h : ∀ line ∈ out, Text.isBlank line.text = true)
    {front : Text} (hne : mainName ≠ front) (layer : Layer) :
    ((mainOnly out).push front layer).clean mainName = ({} : Stack).push front layer := by
  have hget : ((mainOnly out).push front layer).get? mainName = some ⟨.main, out⟩ := by
    rw [Stack.get?_push_of_ne hne, get?_mainOnly]
  rw [Stack.clean_of_isBlank hget h]
  simp [Stack.erase, Stack.push, mainOnly, hne.symm]

/-- **The page of a template that extends another one**: the base with the overrides of the chain in
its slots, and the blank lines left of the templates in between. -/
theorem render_eq_of_descends {name : Text} {source : List Text}
    (hl : engine.loadLines name [] = .ok source) {t : Derived} {chain : List Derived}
    {base : Nesting} (hd : Descends engine source (t :: chain) base)
    (hf : ∀ t' ∈ t :: chain, t'.blocks.Fillable context) (hb : base.Fillable context) :
    engine.render name context =
      (overrides engine context (t :: chain) []).bind fun contents =>
        ((base.fillAll contents).render engine context fun _ => none).map fun out =>
          Nesting.outText out ++ chain.reverse.flatMap Derived.leftover := by
  obtain ⟨hbase, hheight⟩ := hd.height_le hl
  have hlen := hd.length_le hl
  cases hd with
  | @step _ parent _ _ _ hn hp hd =>
    obtain ⟨depth, hdepth, hlimit⟩ : ∃ depth, engine.sourceSize ≤ depth ∧
        engine.depthLimit = depth + 1 := ⟨engine.sourceSize + 999, by omega, rfl⟩
    have hwalk : Render.outcome (Render.walk engine context (depth + 1) [mainName])
        { layers := mainOnly t.lines } = _ :=
      Render.outcome_walk_derived t.extends_parent (hf t List.mem_cons_self []) t.onlyBlocks
        (Nat.le_trans (hheight t List.mem_cons_self) hdepth) rfl (.inl rfl) (get?_mainOnly t.lines)
        (by simp [mainOnly]) (by simp)
        (by simp [Stack.contains, mainOnly, mainName_ne_parentLayer]) hp
        (Descends.opensBlock_head chain) hd.wellNested_slots (hd.lines_eq .main)
    have hstored : (mainOnly t.lines).write mainName 0 (t.extending.inherited :: t.blocks.left) =
        mainOnly (t.extending.inherited :: t.blocks.left) :=
      write_mainOnly (by simp [Derived.lines])
    have hblank : ∀ line ∈ t.extending.inherited :: t.blocks.left,
        Text.isBlank line.text = true := t.isBlank_of_mem []
    rw [render_eq_outcome, hlimit, Render.outcome_load_eq, hl]
    simp only [Except.bind, loading_mainOnly, hn]
    rw [hwalk, overrides, Nesting.fillAll_nil, hstored]
    cases hcs : t.blocks.contents engine context with
    | error e => rfl
    | ok contents =>
      have hwaits := Session.waits_first (t := t) hd hp
        (Descends.head chain ++ ((Descends.slots base chain).fillAll contents).lines)
      have hcount : chain.length < depth + 1 := by
        rw [List.length_cons] at hlen
        omega
      have hrun := Render.outcome_walkParents hd (fun t ht => hf t (List.mem_cons_of_mem _ ht)) hb
        (fun t ht => Nat.le_trans (hheight t (List.mem_cons_of_mem _ ht)) hdepth)
        (Nat.le_trans hbase hdepth) hcount hwaits
      simp only [Stack.join, List.flatMap_nil, List.append_nil] at hrun
      simp only [Except.map, Session.layers_extending]
      rw [clean_push_mainOnly hblank (mainName_ne_parentLayer t.parent)]
      exact hrun

end Engine

end Stencil
