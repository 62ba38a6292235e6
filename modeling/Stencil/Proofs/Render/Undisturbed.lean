import Stencil.Proofs.Render.Failure
import Stencil.Proofs.Render.Footprint

/-!
# Layers that are being walked

Whatever a line leads to while it is handled, the layers that are being walked stay as they are:
their own walks are still to store what became of the line at which they stand. So a walk could just
as well look each of its lines up on the stack when its turn comes (`Render.Rereads`): it would find
the line there as it was when the walk began, and store it where no other change has been made.

What a line guarantees of these layers (`Session.Resumes`) and where a walk stands among its lines
(`Session.Progress`) give this for one walk. `Render.Descends` says which walks a walk leads to, and
`Session.Begins` and `Session.Stays` say what holds when one of them begins and when it comes to a
line. `walk_undisturbed` puts this together for every walk that loads come to.
-/

namespace Stencil

namespace Session

variable {engine : Engine} {chain : Chain} {session between after : Session} {name : Text}
  {layer : Layer}

/-- The layers of the chain are as they were. -/
def Undisturbed (chain : Chain) (session after : Session) : Prop :=
  ∀ name ∈ chain, ∀ layer, session.layers.get? name = some layer →
    after.layers.get? name = some layer

/-- **The walks of the chain can go on**: their layers are as they were, and still the ones being
walked. -/
structure Resumes (chain : Chain) (session after : Session) : Prop where
  apart : after.Apart
  active_eq : after.active = session.active
  undisturbed : session.Undisturbed chain after

/-- What holds when the walk of the first layer of the chain begins. -/
structure Begins (chain : Chain) (start : Session) : Prop where
  apart : start.Apart
  active_eq : start.active = chain.tail
  nodup : chain.Nodup
  there : ∀ name ∈ chain.tail, start.layers.contains name = true

/-- What holds when a line of the first layer of the chain is to be handled: the layers being walked
are those of the chain, each of them once, and they are on the stack, under names of their own. -/
structure Stays (chain : Chain) (session : Session) : Prop where
  apart : session.Apart
  active_eq : session.active = chain
  nodup : chain.Nodup
  there : ∀ name ∈ chain, session.layers.contains name = true

theorem Begins.not_mem {outer : Chain} (h : session.Begins (name :: outer)) : name ∉ outer :=
  (List.nodup_cons.1 h.nodup).1

namespace Undisturbed

theorem of_layers_eq (h : after.layers = session.layers) : session.Undisturbed chain after :=
  fun _ _ _ hg => h ▸ hg

theorem trans (h : session.Undisturbed chain between) (h' : between.Undisturbed chain after) :
    session.Undisturbed chain after :=
  fun name hm layer hg => h' name hm layer (h name hm layer hg)

theorem mono {inner : Chain} (h : session.Undisturbed chain after) (hsub : inner ⊆ chain) :
    session.Undisturbed inner after :=
  fun name hm layer hg => h name (hsub hm) layer hg

theorem contains_of_mem (h : session.Undisturbed chain after) (hm : name ∈ chain)
    (hc : session.layers.contains name = true) : after.layers.contains name = true := by
  rw [← Stack.isSome_get?] at hc ⊢
  obtain ⟨layer, hg⟩ := Option.isSome_iff_exists.1 hc
  rw [h name hm layer hg]
  rfl

/-- A layer that is put on top has a name of its own. -/
theorem topped (session : Session) (chain : Chain) (name : Text) (layer : Layer) :
    session.Undisturbed chain (session.topped name layer) := by
  intro other _ old hg
  have hne : other ≠ session.transientName name layer :=
    Stack.ne_of_get? (session.contains_transientName name layer) hg
  exact (Stack.get?_insert_of_ne _ hne _).trans hg

end Undisturbed

theorem Spares.undisturbed (h : session.Spares engine chain [] after) :
    session.Undisturbed chain after := by
  intro name hm layer hg
  obtain ⟨filled, hg', -, heq⟩ := h.spared name layer hg (by simp)
  rw [hg', heq hm]

/-- **Where the walk of a layer stands**: behind the lines `done`, with those of `rest` as they were,
and the layers whose walks it is a part of left alone. -/
structure Progress (name : Text) (outer : Chain) (kind : LayerKind) (start : Session)
    (done rest : List Line) (session : Session) : Prop where
  apart : session.Apart
  active_eq : session.active = start.active
  layer_eq : session.layers.get? name = some ⟨kind, done ++ rest⟩
  undisturbed : start.Undisturbed outer session

/-- The walk of a layer begins in front of its first line. -/
theorem Begins.progress {outer : Chain} (h : session.Begins (name :: outer))
    (hg : session.layers.get? name = some layer) :
    Progress name outer layer.kind (session.entered name) [] layer.lines (session.entered name) where
  apart := ⟨h.apart.names_nodup, h.apart.mem_extended⟩
  active_eq := rfl
  layer_eq := hg
  undisturbed := .of_layers_eq rfl

theorem Progress.stays {outer : Chain} {kind : LayerKind} {start : Session} {done rest : List Line}
    (h : Progress name outer kind (start.entered name) done rest session)
    (hb : start.Begins (name :: outer)) : session.Stays (name :: outer) where
  apart := h.apart
  active_eq := h.active_eq.trans (congrArg (name :: ·) hb.active_eq)
  nodup := hb.nodup
  there := by
    intro other hm
    rcases List.mem_cons.1 hm with rfl | hm
    · rw [← Stack.isSome_get?, h.layer_eq]
      rfl
    · exact h.undisturbed.contains_of_mem hm (hb.there other hm)

/-- A line that was handled is stored where it was, and the walk stands behind it. -/
theorem Progress.stored {outer : Chain} {kind : LayerKind} {start : Session}
    {done rest : List Line} {line : Line}
    (h : Progress name outer kind start done (line :: rest) session) (hnot : name ∉ outer)
    (hr : session.Resumes (name :: outer) after) (line' : Line) :
    Progress name outer kind start (done ++ [line']) rest
      (after.write name done.length [line']) where
  apart := hr.apart.of_sublist (by rw [Session.write, Stack.names_write]) (List.Subset.refl _)
  active_eq := hr.active_eq.trans h.active_eq
  layer_eq := by
    have hg := hr.undisturbed name List.mem_cons_self _ h.layer_eq
    have hbefore : (Layer.mk kind (done ++ line :: rest)).lines = done ++ line :: rest := rfl
    have hlength : [line'].length ≤ (line :: rest).length := by simp
    have hlines := Layer.lines_writeFrom _ hbefore hlength
    have hkind := Layer.kind_writeFrom ⟨kind, done ++ line :: rest⟩ done.length [line']
    rw [Session.write, Stack.get?_write, if_pos rfl, hg, Option.map_some]
    cases hw : Layer.writeFrom ⟨kind, done ++ line :: rest⟩ done.length [line'] with
    | mk k ls =>
      rw [hw] at hlines hkind
      simp only at hlines hkind
      rw [hlines, hkind]
      rfl
  undisturbed := by
    intro other hm layer hg
    have hne : other ≠ name := by
      rintro rfl
      exact hnot hm
    rw [Session.write, Stack.get?_write, if_neg hne]
    exact hr.undisturbed other (List.mem_cons_of_mem _ hm) layer (h.undisturbed other hm layer hg)

end Session

namespace Render

variable {engine : Engine} {context : Context} {chain : Chain} {depth : Nat}
  {session after : Session} {name : Text} {line : Line} {layer : Layer}

/-! ## One line -/

/-- What a part of a render guarantees of the layers being walked, if they are told apart. -/
def Resuming (engine : Engine) (chain : Chain) (session after : Session) : Prop :=
  Sparing engine chain session after ∧ after.active = session.active

theorem guarantee_resuming (engine : Engine) : Guarantee engine (Resuming engine) :=
  (guarantee_spares engine).and (guarantee_active engine)

theorem Resuming.resumes (h : Resuming engine chain session after) (ha : session.Apart) :
    session.Resumes chain after :=
  ⟨(h.1 ha).apart, h.2, (h.1 ha).undisturbed⟩

/-- **While a line is handled** the layers of the chain are left alone, also if it fails. -/
theorem resumes_handle (ha : session.Apart) (chain : Chain) (line : Line) :
    Ends (handle engine context (walk engine context depth) chain line) session
      (fun _ after => session.Resumes chain after) (fun _ after => session.Resumes chain after) :=
  ((guarantee_resuming engine).handle ((guarantee_resuming engine).walk depth) line session).mono
    (fun _ _ h => h.resumes ha) fun _ _ h => h.resumes ha

theorem Starts.resumes (h : Starts engine context (walk engine context depth) chain session line name
    layer after) (ha : session.Apart) : session.Resumes chain after :=
  Resuming.resumes ((guarantee_resuming engine).starts h) ha

/-- The layers of bodies and of partial templates have names that no parent has. -/
theorem Starts.kind_ne_parent {walker : Walker}
    (h : Starts engine context walker chain session line name layer after) :
    layer.kind ≠ .parent := by
  cases h with
  | closing _ hs => cases hs <;> simp
  | inclusion => simp [Layer.ofSource]

/-! ## The lines of a layer -/

/-- **The loop that looks each line up on the stack** when its turn comes, and stores it there: the
lines that it handles, how it ends, and the session that it leaves. -/
inductive Rereads (engine : Engine) (context : Context) (walker : Walker) (chain : Chain)
    (name : Text) : (position : Nat) → Session → (handled : List Line) → Except Error Unit →
    Session → Prop
  /-- There is no line at the position. -/
  | ended {position : Nat} {session : Session}
    (hl : ((session.layers.get? name).bind fun layer => layer.lines[position]?) = none) :
    Rereads engine context walker chain name position session [] (.ok ()) session
  /-- The line at the position fails. -/
  | failed {position : Nat} {session after : Session} {line : Line} {e : Error}
    (hl : ((session.layers.get? name).bind fun layer => layer.lines[position]?) = some line)
    (hh : handle engine context walker chain line session = (.error e, after)) :
    Rereads engine context walker chain name position session [line] (.error e) after
  /-- The line at the position is handled and stored, and the loop goes on behind it. -/
  | stored {position : Nat} {session after last : Session} {line line' : Line}
    {handled : List Line} {result : Except Error Unit}
    (hl : ((session.layers.get? name).bind fun layer => layer.lines[position]?) = some line)
    (hh : handle engine context walker chain line session = (.ok line', after))
    (hr : Rereads engine context walker chain name (position + 1)
      (after.write name position [line']) handled result last) :
    Rereads engine context walker chain name position session (line :: handled) result last

variable {outer : Chain} {kind : LayerKind} {start : Session} {done : List Line}

/-- The walk of a layer has handled some lines, and stands behind them. -/
theorem exists_progress {lines behind : List Line} (hnot : name ∉ outer)
    (hp : Session.Progress name outer kind start done (lines ++ behind) session)
    (h : outcome (handleFrom engine context (walk engine context depth) (name :: outer) name
      done.length lines) session = .ok ((), after)) :
    ∃ out, out.length = lines.length ∧
      Session.Progress name outer kind start (done ++ out) behind after := by
  induction lines generalizing done session with
  | nil =>
    cases h
    exact ⟨[], rfl, by simpa using hp⟩
  | cons line rest ih =>
    rw [outcome_handleFrom_cons] at h
    obtain ⟨⟨line', between⟩, hh, h⟩ := Except.bind_eq_ok_iff.1 h
    have hr := (resumes_handle hp.apart (name :: outer) line).of_outcome_ok hh
    have hstored := hp.stored hnot hr line'
    obtain ⟨out, hlen, hout⟩ := ih hstored (by simpa using h)
    exact ⟨line' :: out, by simp [hlen], by simpa using hout⟩

/-- **A walk is the loop that looks each line up**: it handles the lines of the layer as they were
when it began, each of them once and in their order, as far as none fails. -/
theorem exists_rereads (engine : Engine) (context : Context) (depth : Nat) {lines : List Line}
    (hnot : name ∉ outer)
    (hp : Session.Progress name outer kind start done lines session) :
    ∃ handled result last,
      Rereads engine context (walk engine context depth) (name :: outer) name done.length session
        handled result last ∧
      handleFrom engine context (walk engine context depth) (name :: outer) name done.length lines
        session = (result, last) ∧
      handled <+: lines ∧ (result = .ok () → handled = lines) := by
  induction lines generalizing done session with
  | nil =>
    refine ⟨[], .ok (), session, .ended ?_, rfl, List.nil_prefix, fun _ => rfl⟩
    rw [hp.layer_eq]
    simp
  | cons line rest ih =>
    have hl : ((session.layers.get? name).bind fun layer => layer.lines[done.length]?) =
        some line := by
      rw [hp.layer_eq]
      simp
    cases hh : handle engine context (walk engine context depth) (name :: outer) line session with
    | mk result after =>
      cases result with
      | error e =>
        refine ⟨[line], .error e, after, .failed hl hh, bind_of_error hh, ⟨rest, rfl⟩, ?_⟩
        intro he
        cases he
      | ok line' =>
        have hr := (resumes_handle hp.apart (name :: outer) line).of_ok hh
        obtain ⟨handled, result, last, hreads, hrun, hprefix, hall⟩ := ih (hp.stored hnot hr line')
        rw [List.length_append] at hreads hrun
        refine ⟨line :: handled, result, last, .stored hl hh hreads, ?_, ?_, ?_⟩
        · rw [handleFrom, bind_of_ok hh]
          exact hrun
        · exact List.prefix_cons_inj line |>.2 hprefix
        · exact fun he => congrArg (line :: ·) (hall he)

/-- The walk of a layer comes to what its lines come to, with the layer among those being walked. -/
theorem walk_of_handleFrom {result : Except Error Unit} {last : Session}
    (hg : start.layers.get? name = some layer)
    (hrun : handleFrom engine context (walk engine context depth) (name :: outer) name 0 layer.lines
      (start.entered name) = (result, last)) :
    walk engine context (depth + 1) (name :: outer) start =
      (result, { last with active := last.active.tail }) := by
  rw [walk, entering]
  have hget : ∀ (f : Session → Render Unit) (session : Session),
      ((MonadState.get : Render Session) >>= f) session = f session session := fun _ _ => rfl
  simp only [hget, hg]
  exact congrArg (fun ended : Except Error Unit × Session =>
    (ended.1, { ended.2 with active := ended.2.active.tail })) hrun

/-! ## The walks that a walk leads to -/

/-- **The walks that a walk leads to**, to any depth: itself, and those that the lines it comes to
start. -/
inductive Descends (engine : Engine) (context : Context) :
    (depth : Nat) → Chain → Session → (depth' : Nat) → Chain → Session → Prop
  | self {depth : Nat} {chain : Chain} {start : Session} :
    Descends engine context depth chain start depth chain start
  | inner {depth depth' : Nat} {chain chain' : Chain} {start between started start' : Session}
    {line : Line} {name : Text} {layer : Layer}
    (hc : Comes engine context depth chain start line between)
    (hs : Starts engine context (walk engine context depth) chain between line name layer started)
    (hd : Descends engine context depth (started.transientName name layer :: chain)
      (started.topped name layer) depth' chain' start') :
    Descends engine context (depth + 1) chain start depth' chain' start'

/-- A line that the walk comes to is a line of the layer, and the walk stands in front of it. -/
theorem exists_of_comes (hb : start.Begins (name :: outer))
    (hg : start.layers.get? name = some layer)
    (hc : Comes engine context depth (name :: outer) start line session) :
    ∃ before done rest, layer.lines = before ++ line :: rest ∧ done.length = before.length ∧
      Session.Progress name outer layer.kind (start.entered name) done (line :: rest) session := by
  cases hc with
  | @intro _ _ _ _ layer' _ before rest hg' hl hrun =>
    obtain rfl := Option.some.inj (hg.symm.trans hg')
    have hp : Session.Progress name outer layer.kind (start.entered name) []
        (before ++ line :: rest) (start.entered name) := hl ▸ hb.progress hg
    obtain ⟨done, hlen, hdone⟩ := exists_progress hb.not_mem hp hrun
    exact ⟨before, done, rest, hl, hlen, by simpa using hdone⟩

theorem stays_of_comes (hb : start.Begins chain)
    (hc : Comes engine context depth chain start line session) :
    session.Stays chain ∧ start.Undisturbed chain.tail session := by
  cases hc with
  | @intro name outer _ _ layer _ _ _ hg hl hrun =>
    obtain ⟨-, done, rest, -, -, hp⟩ := exists_of_comes hb hg (.intro hg hl hrun)
    exact ⟨hp.stays hb, hp.undisturbed⟩

/-- **A walk that a line starts** begins with the layers being walked as they were, and works on a
layer of its own. -/
theorem Starts.begins (h : Starts engine context (walk engine context depth) chain session line name
    layer after) (hs : session.Stays chain) :
    (after.topped name layer).Begins (after.transientName name layer :: chain) ∧
      session.Undisturbed chain (after.topped name layer) := by
  have hr := h.resumes hs.apart
  have htopped := hr.undisturbed.trans (.topped after chain name layer)
  have hthere : ∀ other ∈ chain, (after.topped name layer).layers.contains other = true :=
    fun other hm => htopped.contains_of_mem hm (hs.there other hm)
  refine ⟨⟨hr.apart.topped h.kind_ne_parent name, hr.active_eq.trans hs.active_eq, ?_, hthere⟩,
    htopped⟩
  -- a layer of the chain is on the stack, and the new name is on it nowhere
  refine List.nodup_cons.2 ⟨fun hm => ?_, hs.nodup⟩
  have hfree := after.contains_transientName name layer
  rw [hr.undisturbed.contains_of_mem hm (hs.there _ hm)] at hfree
  cases hfree

/-- **However deep the walks go**, those within which they lie are left as they are. -/
theorem Descends.begins {depth' : Nat} {chain' : Chain} {start' : Session}
    (h : Descends engine context depth chain start depth' chain' start')
    (hb : start.Begins chain) :
    start'.Begins chain' ∧ chain <:+ chain' ∧ start.Undisturbed chain.tail start' := by
  induction h with
  | self => exact ⟨hb, List.suffix_rfl, .of_layers_eq rfl⟩
  | @inner depth _ chain _ _ between started _ _ name layer hc hs _ ih =>
    obtain ⟨hstays, hbefore⟩ := stays_of_comes hb hc
    obtain ⟨hbegins, hstarted⟩ := hs.begins hstays
    obtain ⟨hb', hsuffix, hinner⟩ := ih hbegins
    refine ⟨hb', (List.suffix_cons _ chain).trans hsuffix, hbefore.trans ?_⟩
    exact (hstarted.trans hinner).mono (List.tail_sublist chain).subset

/-! ## The walks that loads come to -/

/-- **The walk of the chain begins in the session**, somewhere in a load that follows others, whether
they fail or not. -/
def Reaches (engine : Engine) (context : Context) (calls : List (Nat × Text)) (depth : Nat)
    (chain : Chain) (start : Session) : Prop :=
  ∃ limit name first begun,
    Turn engine context limit name (loadAll engine context calls {}) first begun ∧
    Descends engine context limit first begun depth chain start

theorem begins_of_stands {tail : List (Text × LayerKind)} {taken : Nat}
    (h : start.Stands engine [] tail taken) (name : Text) : start.Begins (name :: start.active) where
  apart := h.isApart
  active_eq := rfl
  nodup := by
    rw [h.active_eq]
    simp
  there := by
    rw [h.active_eq]
    simp

theorem ParentTurn.begins {count : Nat} {tail : List (Text × LayerKind)} {taken : Nat}
    (h : ParentTurn engine context depth count session chain start)
    (hs : session.Stands engine [] tail taken) : start.Begins chain := by
  induction h generalizing taken with
  | first hp => exact begins_of_stands (hs.popping hp) _
  | later hp hw _ ih => exact ih ((keeps_walk (hs.popping hp) depth _).of_outcome_ok hw)

theorem Turn.begins {tail : List (Text × LayerKind)} {taken : Nat}
    (h : Turn engine context depth name session chain start)
    (hs : session.Stands engine [] tail taken) (hm : IsMain tail) : start.Begins chain := by
  cases h with
  | main => exact begins_of_stands (stands_loading hs hm _) mainName
  | parent _ hw ht =>
    have hwalked := (keeps_walk (stands_loading hs hm _) depth _).of_outcome_ok hw
    obtain ⟨tail', -, hclean⟩ := stands_clean hwalked
    exact ht.begins hclean

theorem Reaches.begins {calls : List (Nat × Text)}
    (h : Reaches engine context calls depth chain start) : start.Begins chain := by
  obtain ⟨limit, name, first, begun, hturn, hd⟩ := h
  obtain ⟨tail, hm, hs⟩ :=
    exists_stands_loadAll context calls (.inl rfl) (Session.stands_empty engine)
  exact (hd.begins (hturn.begins hs hm)).1

/-- **A layer that is being walked is left alone**, whatever templates were loaded and however deep
the walk lies within others. The walk handles the lines of the layer as they were when it began, one
after the other and each of them once, as if it looked each up when its turn comes. When it comes to
a line,

- the layers being walked are those of the chain, each of them once, and they are on the stack; of
  the layer itself the line and those behind it are as they were;
- whatever the line does, and if it fails too, all these layers stay as they are, so that to store
  what became of the line replaces the line and nothing else;
- each layer that the line puts on top gets a name that no layer has, and at any line that its walk
  leads to, to any depth, the layers of the chain are still as they were and still being walked. -/
theorem walk_undisturbed {calls : List (Nat × Text)}
    (h : Reaches engine context calls (depth + 1) (name :: outer) start)
    (hg : start.layers.get? name = some layer) :
    (∃ handled result last,
      Rereads engine context (walk engine context depth) (name :: outer) name 0 (start.entered name)
        handled result last ∧
      walk engine context (depth + 1) (name :: outer) start =
        (result, { last with active := last.active.tail }) ∧
      handled <+: layer.lines ∧ (result = .ok () → handled = layer.lines)) ∧
    ∀ line session, Comes engine context depth (name :: outer) start line session →
      session.Stays (name :: outer) ∧
      (∃ before done rest, layer.lines = before ++ line :: rest ∧ done.length = before.length ∧
        session.layers.get? name = some ⟨layer.kind, done ++ line :: rest⟩ ∧
        Ends (handle engine context (walk engine context depth) (name :: outer) line) session
          (fun line' after => session.Resumes (name :: outer) after ∧
            (after.write name before.length [line']).layers.get? name =
              some ⟨layer.kind, done ++ line' :: rest⟩)
          (fun _ after => session.Resumes (name :: outer) after)) ∧
      ∀ inner added started,
        Starts engine context (walk engine context depth) (name :: outer) session line inner added
          started →
        started.layers.contains (started.transientName inner added) = false ∧
        session.Undisturbed (name :: outer) (started.topped inner added) ∧
        ∀ depth' chain' start' line' session',
          Descends engine context depth (started.transientName inner added :: name :: outer)
            (started.topped inner added) (depth' + 1) chain' start' →
          Comes engine context depth' chain' start' line' session' →
          name :: outer <:+ chain' ∧ session'.Stays chain' ∧
            session.Undisturbed (name :: outer) session' := by
  have hb := h.begins
  constructor
  · obtain ⟨handled, result, last, hreads, hrun, hprefix, hall⟩ :=
      exists_rereads engine context depth hb.not_mem (hb.progress hg)
    exact ⟨handled, result, last, hreads, walk_of_handleFrom hg hrun, hprefix, hall⟩
  · intro line session hc
    have hstays := (stays_of_comes hb hc).1
    obtain ⟨before, done, rest, hl, hlen, hp⟩ := exists_of_comes hb hg hc
    refine ⟨hstays, ⟨before, done, rest, hl, hlen, hp.layer_eq, ?_⟩, ?_⟩
    · refine (resumes_handle hstays.apart _ line).mono ?_ fun _ _ hr => hr
      intro line' after hr
      refine ⟨hr, ?_⟩
      rw [← hlen, (hp.stored hb.not_mem hr line').layer_eq, List.append_assoc]
      rfl
    · intro inner added started hs
      obtain ⟨hbegins, htopped⟩ := hs.begins hstays
      refine ⟨started.contains_transientName inner added, htopped, ?_⟩
      intro depth' chain' start' line' session' hd hc'
      obtain ⟨hb', hsuffix, hdown⟩ := hd.begins hbegins
      obtain ⟨hstays', hbefore⟩ := stays_of_comes hb' hc'
      have hsub : name :: outer ⊆ chain'.tail := by
        obtain ⟨upper, rfl⟩ := hsuffix
        cases upper <;> simp
      exact ⟨(List.suffix_cons _ _).trans hsuffix, hstays',
        htopped.trans (hdown.trans (hbefore.mono hsub))⟩

/-- The lines of a template that includes another one on a condition. -/
def guardedLines : List Text :=
  ["\x7b% if q %\x7d".toList, "\x7b% include \"i\" %\x7d".toList, "\x7b% endif %\x7d".toList]

/-- The line that closes the condition. -/
def guardEnd : Line := { text := "\x7b% endif %\x7d".toList }

/-- The layer of the body. -/
def guardedBranch : Layer := Layer.ofSource .branch ["\x7b% include \"i\" %\x7d".toList]

/-- An engine with the template and the one that it includes. -/
def guarded : Engine where
  templates :=
    [("t".toList, "\x7b% if q %\x7d\n\x7b% include \"i\" %\x7d\n\x7b% endif %\x7d".toList),
      ("includes/i".toList, "card".toList)]

/-- The condition holds. -/
def affirming : Context := Context.ofList [("q".toList, .int 1)]

/-- The body of the condition is walked while the template is. -/
theorem walk_undisturbed_branch :
    ∃ name start last,
      Reaches guarded affirming [] 5 [name, mainName] start ∧
      start.layers.get? name = some guardedBranch ∧
      Rereads guarded affirming (walk guarded affirming 4) [name, mainName] name 0
        (start.entered name) guardedBranch.lines (.ok ()) last := by
  have hl : guarded.loadLines "t".toList [] = .ok guardedLines := by decide +kernel
  have hlines : (Layer.ofSource .main guardedLines).lines =
      (Layer.ofSource .main guardedLines).lines.take 2 ++ guardEnd :: [] := by
    decide +kernel
  have hends : (outcome (handleFrom guarded affirming (walk guarded affirming 5) [mainName] mainName
      0 ((Layer.ofSource .main guardedLines).lines.take 2))
      ((({} : Session).loading guardedLines).entered mainName)).map (fun p => (p.2.capture,
        (walk guarded affirming 5 [p.2.released.transientName "q".toList guardedBranch, mainName]
          (p.2.released.topped "q".toList guardedBranch)).1)) =
      .ok (some { construct := .condition "q".toList, buffer := guardedBranch.lines }, .ok ()) := by
    decide +kernel
  cases hrun : outcome (handleFrom guarded affirming (walk guarded affirming 5) [mainName] mainName
      0 ((Layer.ofSource .main guardedLines).lines.take 2))
      ((({} : Session).loading guardedLines).entered mainName) with
  | error e => rw [hrun] at hends; cases hends
  | ok p =>
    rw [hrun] at hends
    obtain ⟨hcapture, hok⟩ := Prod.mk.inj (Except.ok.inj hends)
    have hcomes : Comes guarded affirming 5 [mainName] (({} : Session).loading guardedLines) guardEnd
        p.2 :=
      .intro (Stack.get?_insert_self ..) hlines hrun
    have hstarts : Starts guarded affirming (walk guarded affirming 5) [mainName] p.2 guardEnd
        "q".toList guardedBranch p.2.released :=
      .closing ⟨_, hcapture, by decide +kernel⟩ (.branch (by decide +kernel))
    have hreaches : Reaches guarded affirming [] 5
        [p.2.released.transientName "q".toList guardedBranch, mainName]
        (p.2.released.topped "q".toList guardedBranch) :=
      ⟨6, "t".toList, [mainName], _, .main hl, .inner hcomes hstarts .self⟩
    have hlayer : (p.2.released.topped "q".toList guardedBranch).layers.get?
        (p.2.released.transientName "q".toList guardedBranch) = some guardedBranch :=
      Stack.get?_insert_self ..
    obtain ⟨⟨handled, result, last, hreads, hwalk, -, hall⟩, -⟩ := walk_undisturbed hreaches hlayer
    rw [hwalk] at hok
    obtain rfl : result = .ok () := hok
    rw [hall rfl] at hreads
    exact ⟨_, _, last, hreaches, hlayer, hreads⟩

end Render

end Stencil
