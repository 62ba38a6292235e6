import Stencil.Proofs.Inheritance.Consumption

/-!
# What a chain of templates adds to the page of its root

The page is the text of the parents, the one that was extended last first, and behind it the text of
the template asked for. A template that redefines blocks, and nothing else, shows nothing, but only
that of the template asked for goes off the stack: any other leaves the line ends between its blank
lines, and the blanks on them (`Engine.render_of_redefines`).

Between two turns a parent waits, with its source or with slots of it filled, or its turn is over and
of its lines only the blank ones are left (`Session.Queued`). `Queued.spared` says that this is kept
while another layer is walked, and `Queued.turn` what one turn does.
-/

namespace Stencil

theorem Layer.Fills.kind_eq {layer filled : Layer} (h : layer.Fills filled) :
    filled.kind = layer.kind := by
  induction h with
  | refl => rfl
  | fill _ _ _ ih => exact ih

namespace Session

variable {engine : Engine} {context : Context} {chain : Chain} {busy waiting walked : List Text}
  {tail : List (Text × LayerKind)} {taken depth : Nat} {session after : Session}
  {name parent : Text}

/-- The text that the layer of a name adds to the page. -/
def share (session : Session) (name : Text) : Text :=
  ((session.layers.get? name).map Layer.render).getD []

/-- **Between two turns**, the parents that were extended wait for their turn, in order, or they are
done with, except for those whose layers are `busy`. -/
structure Queued (engine : Engine) (busy waiting walked : List Text) (session : Session) : Prop where
  extended_eq : session.extended.filter (fun parent => (engine.loadLines parent []).isOk) =
    waiting.reverse ++ walked
  pending_eq : session.pending = waiting.map parentLayer
  waits : ∀ parent ∈ waiting, parentLayer parent ∉ busy ∧
    ∀ lines, engine.loadLines parent [] = .ok lines →
      ∃ layer, session.layers.get? (parentLayer parent) = some layer ∧
        (Layer.ofSource .parent lines).Fills layer
  consumed : ∀ parent ∈ walked, parentLayer parent ∉ busy →
    ∀ lines, engine.loadLines parent [] = .ok lines →
      Layer.Redefines (Layer.ofSource .parent lines).lines →
      ∃ layer, session.layers.get? (parentLayer parent) = some layer ∧
        Layer.Consumed layer.lines (Layer.outside 0 (Layer.ofSource .parent lines).lines)

namespace Queued

/-- **Other layers are walked**: new parents join the queue. -/
theorem spared (h : session.Queued engine busy waiting walked)
    (hs : session.Spares engine chain busy after) (hn : after.extended.Nodup)
    (hb : ∀ parent, parentLayer parent ∈ busy → parent ∈ session.extended) :
    ∃ new, after.Queued engine busy (waiting ++ new) walked := by
  obtain ⟨parents, hx, hp⟩ := hs.taken
  have hnew : ∀ parent ∈ parents, parent ∉ session.extended := by
    intro parent hm hold
    rw [hx, List.nodup_append] at hn
    exact hn.2.2 parent hm parent hold rfl
  refine ⟨(parents.filter fun parent => (engine.loadLines parent []).isOk).reverse, ?_, ?_, ?_, ?_⟩
  · rw [hx, List.filter_append, h.extended_eq, List.reverse_append, List.reverse_reverse,
      List.append_assoc]
  · rw [hp, h.pending_eq, List.map_append, List.map_reverse, parentLayers, List.map_map]
    rfl
  · intro parent hm
    rcases List.mem_append.1 hm with hm | hm
    · obtain ⟨hfree, hwaits⟩ := h.waits parent hm
      refine ⟨hfree, fun lines hl => ?_⟩
      obtain ⟨layer, hg, hf⟩ := hwaits lines hl
      obtain ⟨filled, hg', hf', -⟩ := hs.spared _ layer hg hfree
      exact ⟨filled, hg', hf.trans hf'⟩
    · have hm' : parent ∈ parents := (List.mem_filter.1 (List.mem_reverse.1 hm)).1
      refine ⟨fun hbusy => hnew parent hm' (hb parent hbusy), fun lines hl => ?_⟩
      exact hs.sources parent lines (by simp [hx, hm']) (hnew parent hm') hl
  · intro parent hm hfree lines hl hr
    obtain ⟨layer, hg, hconsumed⟩ := h.consumed parent hm hfree lines hl hr
    obtain ⟨filled, hg', hf, -⟩ := hs.spared _ layer hg hfree
    -- blank lines have no slots
    obtain rfl := Layer.eq_of_fills hf hconsumed.isBlank
    exact ⟨_, hg', hconsumed⟩

/-- **A layer is walked**, which is the only busy one. -/
theorem of_walk (h : session.Queued engine [name] waiting walked)
    (hs : session.Stands engine [] tail taken)
    (hname : ∀ parent, parentLayer parent = name → parent ∈ session.extended)
    (hrun : Render.outcome (Render.walk engine context depth [name]) session = .ok ((), after)) :
    ∃ new, after.Queued engine [name] (waiting ++ new) walked := by
  have hwalked := ((Render.guarantee_spares engine).walk depth name [] session).of_outcome_ok hrun
  have hafter : after.Stands engine [] tail taken :=
    (Render.keeps_walk hs depth _).of_outcome_ok hrun
  exact h.spared (Render.spares_walked hwalked hs.isApart hname) hafter.nodup_extended
    fun parent hp => hname parent (List.mem_singleton.1 hp)

/-- A parent that waits was extended. -/
theorem mem_extended (h : session.Queued engine busy waiting walked) (hm : parent ∈ waiting) :
    parent ∈ session.extended := by
  have hfilter : parent ∈ session.extended.filter
      (fun parent => (engine.loadLines parent []).isOk) := by simp [h.extended_eq, hm]
  exact (List.mem_filter.1 hfilter).1

/-- **The first in the queue** is taken, and its layer is busy now. -/
theorem popping (h : session.Queued engine [] (parent :: waiting) walked)
    (hn : session.extended.Nodup) :
    { session with pending := waiting.map parentLayer }.Queued engine [parentLayer parent] waiting
      (parent :: walked) := by
  have hnodup := hn.filter fun parent => (engine.loadLines parent []).isOk
  rw [h.extended_eq, List.reverse_cons, List.append_assoc, List.singleton_append] at hnodup
  refine ⟨by simp [h.extended_eq], rfl, fun p hp => ⟨fun hbusy => ?_, ?_⟩, fun p hp hfree => ?_⟩
  · obtain rfl := parentLayer_injective (List.mem_singleton.1 hbusy)
    exact (List.nodup_append.1 hnodup).2.2 p (List.mem_reverse.2 hp) p List.mem_cons_self rfl
  · exact (h.waits p (List.mem_cons_of_mem _ hp)).2
  · rcases List.mem_cons.1 hp with rfl | hp
    · exact absurd List.mem_cons_self hfree
    · exact h.consumed p hp (by simp)

/-- **The turn of a parent.** -/
theorem turn (h : session.Queued engine [] (parent :: waiting) walked)
    (hs : { session with pending := waiting.map parentLayer }.Stands engine [] tail taken)
    (hc : Render.ContainedTurn engine context depth (parentLayer parent)
      { session with pending := waiting.map parentLayer })
    (hrun : Render.outcome (Render.walk engine context depth [parentLayer parent])
      { session with pending := waiting.map parentLayer } = .ok ((), after)) :
    ∃ new, after.Queued engine [] (waiting ++ new) (parent :: walked) := by
  have hname : ∀ p, parentLayer p = parentLayer parent → p ∈ session.extended :=
    fun p heq => parentLayer_injective heq ▸ h.mem_extended List.mem_cons_self
  obtain ⟨new, hqueued⟩ := (h.popping hs.nodup_extended).of_walk hs hname hrun
  refine ⟨new, hqueued.extended_eq, hqueued.pending_eq, fun p hp => ⟨by simp, (hqueued.waits p hp).2⟩,
    fun p hp _ lines hl hr => ?_⟩
  by_cases hp' : parentLayer p = parentLayer parent
  · obtain rfl := parentLayer_injective hp'
    obtain ⟨layer, hg, hf⟩ := (h.waits p List.mem_cons_self).2 lines hl
    obtain ⟨hiff, hout⟩ := Layer.redefines_of_fills hf
    obtain ⟨out, hget, hconsumed⟩ := Render.exists_consumed_of_turn hs hg (.inr hf.kind_eq) hname
      (hiff.2 hr) hc hrun
    exact ⟨_, hget, hout ▸ hconsumed⟩
  · exact hqueued.consumed p hp (by simpa using hp') lines hl hr

end Queued

/-! ## What the layers add to the page -/

theorem share_of_not_mem (h : name ∉ session.layers.names) : session.share name = [] := by
  rw [share, Stack.get?_eq_none_iff.2 (Stack.contains_eq_false_iff.2 h)]
  rfl

/-- **The page is what its layers add to it**, from front to back. -/
theorem page_eq_flatMap_share (h : session.layers.names.Nodup) :
    session.page = session.layers.names.flatMap session.share :=
  Stack.join_eq_flatMap h

/-- A template that went off the stack adds nothing. -/
theorem Stands.share_main (h : session.Stands engine [] [] taken) : session.share mainName = [] := by
  refine share_of_not_mem fun hmem => ?_
  rw [Stack.names_eq_outline, h.outline_eq, List.append_nil] at hmem
  obtain ⟨parent, -, -, heq⟩ := mem_map_parentLayers.1 hmem
  exact mainName_ne_parentLayer parent heq.symm

/-- **A parent that redefines blocks**, once its turn is over, adds the blank lines outside of them. -/
theorem Queued.share_eq (h : session.Queued engine [] [] walked) (hm : parent ∈ session.extended)
    (hr : engine.Redefines parent) :
    session.share (parentLayer parent) = engine.spacing parent := by
  cases hl : engine.loadLines parent [] with
  | error e => rw [Engine.Redefines, hl] at hr; exact absurd hr id
  | ok lines =>
    rw [Engine.Redefines, hl] at hr
    have hwalked : parent ∈ walked := by
      have hfilter : parent ∈ session.extended.filter
          (fun parent => (engine.loadLines parent []).isOk) :=
        List.mem_filter.2 ⟨hm, by rw [hl]; rfl⟩
      rw [h.extended_eq] at hfilter
      exact hfilter
    obtain ⟨layer, hget, hconsumed⟩ := h.consumed parent hwalked List.not_mem_nil lines hl hr
    rw [share, hget]
    exact Engine.render_of_consumed hl hconsumed

/-- A parent that cannot be loaded has no layer. -/
theorem Stands.share_of_not_isOk (h : session.Stands engine [] tail taken)
    (hl : (engine.loadLines parent []).isOk = false) : session.share (parentLayer parent) = [] := by
  refine share_of_not_mem fun hmem => ?_
  rw [Stack.names_eq_outline, h.outline_eq, List.map_append, List.mem_append] at hmem
  rcases hmem with hmem | hmem
  · obtain ⟨p, -, hok, heq⟩ := mem_map_parentLayers.1 hmem
    rw [parentLayer_injective heq, hl] at hok
    cases hok
  · exact h.apart parent hmem

/-- **The page after a load**: the parents, the most recent one first, and the template asked for. -/
theorem Stands.page_eq (h : session.Stands engine [] tail taken) (hm : Render.IsMain tail) :
    session.page = (session.extended.flatMap fun parent => session.share (parentLayer parent)) ++
      session.share mainName := by
  have hnames : session.layers.names =
      (parentLayers engine session.extended).map Prod.fst ++ tail.map Prod.fst := by
    rw [Stack.names_eq_outline, h.outline_eq, List.map_append]
  rw [page_eq_flatMap_share h.names_nodup, hnames, List.flatMap_append]
  congr 1
  · rw [parentLayers, List.map_map, List.flatMap_map]
    induction session.extended with
    | nil => rfl
    | cons parent extended ih =>
      cases hl : (engine.loadLines parent []).isOk with
      | false =>
        rw [List.filter_cons_of_neg (by simp [hl]), ih, List.flatMap_cons, h.share_of_not_isOk hl,
          List.nil_append]
      | true =>
        rw [List.filter_cons_of_pos (p := fun parent => (engine.loadLines parent []).isOk) hl,
          List.flatMap_cons, ih, List.flatMap_cons]
        rfl
  · rcases hm with rfl | rfl
    · rw [h.share_main]
      rfl
    · simp

end Session

namespace Render

variable {engine : Engine} {context : Context} {depth count : Nat} {waiting walked : List Text}
  {tail : List (Text × LayerKind)} {taken : Nat} {session final : Session}

/-- **The turns of the parents are contained**, of which there may be at most `count`. -/
def ContainedParents (engine : Engine) (context : Context) (depth : Nat) :
    (count : Nat) → Session → Prop
  | 0, _ => True
  | count + 1, session =>
    match session.pending with
    | [] => True
    | name :: rest =>
      ContainedTurn engine context depth name { session with pending := rest } ∧
        match outcome (walk engine context depth (name :: session.active))
          { session with pending := rest } with
        | .error _ => True
        | .ok (_, after) => ContainedParents engine context depth count after

instance decidableContainedParents (engine : Engine) (context : Context) (depth : Nat) :
    (count : Nat) → (session : Session) →
      Decidable (ContainedParents engine context depth count session)
  | 0, _ => inferInstanceAs (Decidable True)
  | count + 1, session =>
    match hp : session.pending with
    | [] => isTrue (by rw [ContainedParents, hp]; trivial)
    | name :: rest =>
      match hw : outcome (walk engine context depth (name :: session.active))
        { session with pending := rest } with
      | .error _ =>
        decidable_of_iff (ContainedTurn engine context depth name { session with pending := rest })
          (by rw [ContainedParents, hp]; simp only [hw, and_true])
      | .ok (_, after) =>
        have := decidableContainedParents engine context depth count after
        decidable_of_iff
          (ContainedTurn engine context depth name { session with pending := rest } ∧
            ContainedParents engine context depth count after)
          (by rw [ContainedParents, hp]; simp only [hw])

/-- **All parents have had their turn** when they have been walked. -/
theorem exists_queued_of_walkParents (h : session.Queued engine [] waiting walked)
    (hs : session.Stands engine [] tail taken)
    (hc : ContainedParents engine context depth count session)
    (hrun : outcome (walkParents engine context depth count) session = .ok ((), final)) :
    final.Stands engine [] tail taken ∧ ∃ walked, final.Queued engine [] [] walked := by
  induction count generalizing session waiting walked with
  | zero =>
    cases waiting with
    | nil =>
      rw [outcome_walkParents_of_empty (by simp [h.pending_eq])] at hrun
      cases hrun
      exact ⟨hs, walked, h⟩
    | cons parent waiting =>
      rw [outcome_walkParents_zero h.pending_eq] at hrun
      cases hrun
  | succ count ih =>
    cases waiting with
    | nil =>
      rw [outcome_walkParents_of_empty (by simp [h.pending_eq])] at hrun
      cases hrun
      exact ⟨hs, walked, h⟩
    | cons parent waiting =>
      have hpending : session.pending = parentLayer parent :: waiting.map parentLayer := h.pending_eq
      have hchain : parentLayer parent :: session.active = [parentLayer parent] := by rw [hs.active_eq]
      rw [outcome_walkParents_cons hpending, hchain] at hrun
      rw [ContainedParents, hpending] at hc
      simp only [hchain] at hc
      obtain ⟨hturn, hc⟩ := hc
      have hpopped : { session with pending := waiting.map parentLayer }.Stands engine [] tail taken :=
        (hs.popping hpending).weaken (Nat.le_succ taken)
      obtain ⟨walked, hw, hrun⟩ := Except.bind_eq_ok_iff.1 hrun
      rw [hw] at hc
      obtain ⟨new, hqueued⟩ := h.turn hpopped hturn hw
      exact ih hqueued ((keeps_walk hpopped depth _).of_outcome_ok hw) hc hrun

/-- **What the template asked for leaves behind** when it goes off the stack or stays there. -/
theorem exists_queued_of_main {lines : List Text} {after : Session}
    (hrun : outcome (walk engine context depth [mainName]) (({} : Session).loading lines) =
      .ok ((), after)) :
    (∃ waiting, { after with layers := after.layers.clean mainName }.Queued engine [] waiting []) ∧
    ∃ tail, IsMain tail ∧
      { after with layers := after.layers.clean mainName }.Stands engine [] tail 0 ∧
      (Layer.Redefines (Layer.ofSource .main lines).lines →
        ContainedTurn engine context depth mainName (({} : Session).loading lines) → tail = []) := by
  have hs : (({} : Session).loading lines).Stands engine [] [(mainName, .main)] 0 :=
    stands_loading (Session.stands_empty engine) (.inl rfl) lines
  have hname : ∀ parent, parentLayer parent = mainName →
      parent ∈ (({} : Session).loading lines).extended :=
    fun parent heq => absurd heq.symm (mainName_ne_parentLayer parent)
  have hafter : after.Stands engine [] [(mainName, .main)] 0 :=
    (keeps_walk hs depth _).of_outcome_ok hrun
  have hloading : (({} : Session).loading lines).Queued engine [mainName] [] [] :=
    ⟨rfl, rfl, by simp, by simp⟩
  obtain ⟨waiting, hqueued⟩ := hloading.of_walk hs hname hrun
  have hother : ∀ parent, (after.layers.clean mainName).get? (parentLayer parent) =
      after.layers.get? (parentLayer parent) :=
    fun parent => Stack.get?_clean_of_ne (mainName_ne_parentLayer parent).symm _
  refine ⟨⟨waiting, hqueued.extended_eq, hqueued.pending_eq, fun p hp => ⟨by simp, ?_⟩, by simp⟩, ?_⟩
  · simpa only [hother] using (hqueued.waits p hp).2
  obtain ⟨tail, hm, hclean⟩ := stands_clean hafter
  refine ⟨tail, hm, hclean, fun hr hc => ?_⟩
  have hget : (({} : Session).loading lines).layers.get? mainName = some (Layer.ofSource .main lines) :=
    Stack.get?_insert_self ..
  obtain ⟨out, hout, hconsumed⟩ := exists_consumed_of_turn hs hget (.inl rfl) hname hr hc hrun
  -- nothing of the template is visible, and so it goes off the stack
  have hgone : mainName ∉ (after.layers.clean mainName).names := by
    rw [Stack.clean_of_isBlank hout hconsumed.isBlank, Stack.names_erase]
    exact hafter.names_nodup.not_mem_erase
  rcases hm with rfl | rfl
  · rfl
  · refine absurd ?_ hgone
    rw [Stack.names_eq_outline, hclean.outline_eq]
    simp

end Render

namespace Engine

variable {engine : Engine} {context : Context} {name page : Text}

/-- **The templates that redefine blocks are contained**: when the turn of one of them comes no
capture is open, and none of its bodies leaves one open. -/
def Contained (engine : Engine) (context : Context) (name : Text) : Prop :=
  match engine.loadLines name [] with
  | .error _ => True
  | .ok lines =>
    Render.ContainedTurn engine context engine.depthLimit mainName (({} : Session).loading lines) ∧
      match Render.outcome (Render.walk engine context engine.depthLimit [mainName])
        (({} : Session).loading lines) with
      | .error _ => True
      | .ok (_, after) =>
        Render.ContainedParents engine context engine.depthLimit engine.depthLimit
          { after with layers := after.layers.clean mainName }

instance (engine : Engine) (context : Context) (name : Text) :
    Decidable (engine.Contained context name) :=
  match hl : engine.loadLines name [] with
  | .error _ => isTrue (by rw [Contained, hl]; trivial)
  | .ok lines =>
    match hw : Render.outcome (Render.walk engine context engine.depthLimit [mainName])
      (({} : Session).loading lines) with
    | .error _ =>
      decidable_of_iff (Render.ContainedTurn engine context engine.depthLimit mainName
        (({} : Session).loading lines)) (by rw [Contained, hl]; simp only [hw, and_true])
    | .ok (_, after) =>
      decidable_of_iff
        (Render.ContainedTurn engine context engine.depthLimit mainName
            (({} : Session).loading lines) ∧
          Render.ContainedParents engine context engine.depthLimit engine.depthLimit
            { after with layers := after.layers.clean mainName })
        (by rw [Contained, hl]; simp only [hw])

/-- **What a template adds to the page** if it redefines blocks and does nothing else. The template
asked for adds nothing. A parent adds its blank lines outside of blocks, one below the other, and so
it adds nothing if and only if there is none, or a single one without blanks. The page is the text of
the root, with what the templates between the root and the one asked for add behind it. -/
theorem render_of_redefines (h : engine.render name context = .ok page)
    (hc : engine.Contained context name) :
    ∃ final, Render.outcome (Render.load engine context engine.depthLimit name) {} =
        .ok ((), final) ∧
      page = (final.extended.flatMap fun parent => final.share (parentLayer parent)) ++
        final.share mainName ∧
      (engine.Redefines name → final.share mainName = []) ∧
      (∀ parent ∈ final.extended, engine.Redefines parent →
        final.share (parentLayer parent) = engine.spacing parent ∧
        (final.share (parentLayer parent) = [] ↔
          engine.blankLines parent = [] ∨ engine.blankLines parent = [[]])) ∧
      ∀ root between, final.extended = root :: between → engine.Redefines name →
        (∀ parent ∈ between, engine.Redefines parent) →
        page = final.share (parentLayer root) ++ between.flatMap engine.spacing := by
  rw [render_eq_outcome] at h
  cases hload : Render.outcome (Render.load engine context engine.depthLimit name) {} with
  | error e => rw [hload] at h; cases h
  | ok p =>
    obtain ⟨u, final⟩ := p
    rw [hload] at h
    obtain rfl : final.page = page := Except.ok.inj h
    obtain ⟨lines, after, hl, hw, hwalk⟩ := Render.outcome_load_eq_ok_iff.1 hload
    have hw : Render.outcome (Render.walk engine context engine.depthLimit [mainName])
        (({} : Session).loading lines) = .ok ((), after) := hw
    rw [Contained, hl] at hc
    simp only [hw] at hc
    obtain ⟨⟨waiting, hqueued⟩, tail, hm, hstands, htail⟩ := Render.exists_queued_of_main hw
    obtain ⟨hfinal, walked, hdone⟩ :=
      Render.exists_queued_of_walkParents hqueued hstands hc.2 hwalk
    have hpage := hfinal.page_eq hm
    have hmain : engine.Redefines name → final.share mainName = [] := by
      intro hr
      rw [Redefines, hl] at hr
      obtain rfl := htail hr hc.1
      exact hfinal.share_main
    refine ⟨final, rfl, hpage, hmain, fun parent hp hr => ⟨hdone.share_eq hp hr, ?_⟩, ?_⟩
    · rw [hdone.share_eq hp hr]
      exact spacing_eq_nil_iff
    · intro root between hx hr hall
      rw [hpage, hmain hr, List.append_nil, hx, List.flatMap_cons]
      congr 1
      refine List.flatMap_congr fun parent hp => ?_
      exact hdone.share_eq (by simp [hx, hp]) (hall parent hp)

/-- A template that redefines a block of one that redefines a block, with two blank lines around it. -/
def spaced : Engine where
  templates :=
    [("t".toList, "\x7b% extends \"m\" %\x7d\n\n\x7b% block a %\x7dx\x7b% endblock %\x7d\n".toList),
      ("m".toList, "\x7b% extends \"b\" %\x7d\n\n\x7b% block a %\x7dy\x7b% endblock %\x7d\n".toList),
      ("b".toList, "[\x7b% block a %\x7dz\x7b% endblock %\x7d]".toList)]

/-- Of the blank lines of the template asked for nothing is left, and between those of its parent there
is a line end. -/
theorem render_of_redefines_spaced :
    spaced.render "t".toList {} = .ok "[x]\n".toList ∧ spaced.Contained {} "t".toList ∧
      spaced.Redefines "t".toList ∧ spaced.Redefines "m".toList ∧
      ∃ final, Render.outcome (Render.load spaced {} spaced.depthLimit "t".toList) {} =
          .ok ((), final) ∧ final.share mainName = [] ∧
        final.share (parentLayer "m".toList) = ['\n'] ∧
        "[x]\n".toList = final.share (parentLayer "b".toList) ++ ['\n'] := by
  have hrender : spaced.render "t".toList {} = .ok "[x]\n".toList := by decide +kernel
  have hcontained : spaced.Contained {} "t".toList := by decide +kernel
  have hmain : spaced.Redefines "t".toList := by decide +kernel
  have hbetween : spaced.Redefines "m".toList := by decide +kernel
  have hspacing : spaced.spacing "m".toList = ['\n'] := by decide +kernel
  have hextended : (Render.outcome (Render.load spaced {} spaced.depthLimit "t".toList) {}).map
      (fun p => p.2.extended) = .ok ["b".toList, "m".toList] := by decide +kernel
  obtain ⟨final, hload, -, hshare, hparent, hpage⟩ := render_of_redefines hrender hcontained
  have hx : final.extended = ["b".toList, "m".toList] := by
    rw [hload] at hextended
    exact Except.ok.inj hextended
  refine ⟨hrender, hcontained, hmain, hbetween, final, hload, hshare hmain, ?_, ?_⟩
  · rw [(hparent _ (by simp [hx]) hbetween).1, hspacing]
  · have hroot := hpage _ _ hx hmain fun parent hp => by rw [List.mem_singleton.1 hp]; exact hbetween
    rwa [List.flatMap_singleton, hspacing] at hroot

end Engine

end Stencil
