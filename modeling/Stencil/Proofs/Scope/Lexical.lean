import Stencil.Proofs.Scope.Substitution

/-!
# Lexical scoping

The renderer never binds a variable: it resolves the variables of nested loops in the text of their
bodies, from the outermost to the innermost. The induction is on the size of the nest, since an
iteration is not a part of the loop but a nest of its own, and the substitution lemma carries it. So
a template that is a nest of loops renders by lexical scoping (`Engine.render_eq_boundPage`), as
long as the variables are told apart (`Engine.render_ne_boundPage`).
-/

namespace Stencil

open Tag

namespace Nesting

/-! ## What the renderer makes of a nest -/

theorem wellNested_of_isLoops {n : Nesting} (h : n.IsLoops) : n.WellNested := by
  induction n with
  | done => trivial
  | text line rest ih =>
    exact ⟨.inr ⟨opened_eq_nil h.1.2.no_keyword, closed_eq_nil h.1.2.no_keyword⟩, ih h.2⟩
  | span d opening body closing rest ihb ihr =>
    obtain ⟨⟨rfl, ho, hc⟩, hb, hr⟩ := h
    exact ⟨ho.opens, ihb hb, hc.closes, ihr hr⟩

theorem iterationTexts_eq_elementTexts {value : Value} {run : Nat → Text → Except Error Text}
    {run' : Nat → Value → Except Error Text} {keys : List Text} {elements : List Value}
    (hkeys : keys.map (fun key => value.step? key) = elements.map some)
    (hrun : ∀ key ∈ keys, ∀ x, value.step? key = some x → ∀ i, run i key = run' i x)
    (position : Nat) :
    iterationTexts run position keys = elementTexts run' position elements := by
  induction keys generalizing elements position with
  | nil =>
    obtain rfl : elements = [] := by simpa using hkeys.symm
    rfl
  | cons key keys ih =>
    cases elements with
    | nil => cases hkeys
    | cons x elements =>
      obtain ⟨hstep, hkeys⟩ := List.cons.inj hkeys
      rw [iterationTexts, elementTexts, hrun key (by simp) x hstep,
        ih hkeys fun k hk => hrun k (List.mem_cons_of_mem key hk)]

/-- The keys of a sequence are positions. -/
theorem exists_ofNat_of_mem {value : Value} (h : value.IsSequence) {key : Text}
    (hk : key ∈ iterationKeys value) : ∃ i, key = Text.ofNat i := by
  cases value with
  | list items =>
    obtain ⟨i, -, hi⟩ := List.mem_map.1 hk
    exact ⟨i, hi.symm⟩
  | dict entries => cases h
  | _ => cases hk

theorem map_step?_of_isSequence {value : Value} (h : value.IsSequence) :
    (iterationKeys value).map (fun key => value.step? key) = value.elements.map some := by
  cases value with
  | list items => exact Value.map_step?_iterationKeys h
  | dict entries => cases h
  | _ => rfl

theorem mem_elements_of_step? {value : Value} (h : value.IsSequence) {key : Text}
    (hk : key ∈ iterationKeys value) {x : Value} (hx : value.step? key = some x) :
    x ∈ value.elements := by
  have hm : some x ∈ value.elements.map some := by
    rw [← map_step?_of_isSequence h]
    exact List.mem_map.2 ⟨key, hk, hx⟩
  simpa using hm

theorem exists_step?_of_mem {value : Value} (h : value.IsSequence) {key : Text}
    (hk : key ∈ iterationKeys value) : ∃ x, value.step? key = some x := by
  have hm : value.step? key ∈ value.elements.map some := by
    rw [← map_step?_of_isSequence h]
    exact List.mem_map_of_mem hk
  obtain ⟨x, -, hx⟩ := List.mem_map.1 hm
  exact ⟨x, hx.symm⟩

/-- A loop renders to the texts of its iterations. -/
theorem render_loop {engine : Engine} {context : Context} {opening : Line} {header : LoopHeader}
    (h : opening.header? = some header) (body : Nesting) (closing : Line) (rest : Nesting) :
    (span .loop opening body closing rest).render engine context (fun _ => none) =
      ((Render.loopKeys context header).bind (iterationTexts (fun i key =>
          ((body.expand (Render.iteration context header key i) 0).render engine context
            (fun _ => none)).map outText) 0)).bind fun texts =>
        (rest.render engine context (fun _ => none)).map fun behind =>
          consumed opening body (closing.fill (Text.join (Render.separator body.lines) texts)) ++
            behind := by
  have hconstruct : opening.construct? .loop =
      some (.loop header.variableName header.collection) := by
    rw [Line.construct?, h]
    rfl
  rw [render_span_of_some hconstruct, closeLine]
  cases Render.loopKeys context header with
  | error e => rfl
  | ok keys =>
    show Except.bind (Except.bind (iterationTexts ..) _) _ = Except.bind (iterationTexts ..) _
    cases iterationTexts _ 0 keys <;> rfl

theorem loopLines_eq_bind (context : Context) (header : LoopHeader) (opening : Line)
    (body : Nesting) (closing : Line) (run : Nat → Value → Except Error Text) :
    loopLines context header opening body closing run =
      ((header.elements context).bind (elementTexts run 0)).map fun texts =>
        consumed opening body (closing.fill (Text.join (Render.separator body.lines) texts)) := by
  unfold loopLines
  cases header.elements context with
  | error e => rfl
  | ok elements => cases elementTexts run 0 elements <;> rfl

theorem exists_of_mem_loopKeys {context : Context} {header : LoopHeader} {keys : List Text}
    (hk : Render.loopKeys context header = .ok keys) {key : Text} (hkey : key ∈ keys) :
    ∃ value, context.get? header.collection = some value ∧ key ∈ iterationKeys value := by
  unfold Render.loopKeys at hk
  split at hk
  · next value hvalue =>
    obtain rfl := Except.ok.inj hk
    exact ⟨value, hvalue, hkey⟩
  · split at hk
    · obtain rfl := Except.ok.inj hk
      cases hkey
    · cases hk

/-- The iterations of a loop over a list are those for its elements. -/
theorem loopKeys_bind_iterationTexts {header : LoopHeader} {context : Context}
    {run : Nat → Text → Except Error Text} {run' : Nat → Value → Except Error Text}
    (hs : ∀ value, context.get? header.collection = some value → value.IsSequence)
    (hrun : ∀ value, context.get? header.collection = some value →
      ∀ key ∈ iterationKeys value, ∀ x, value.step? key = some x → ∀ i, run i key = run' i x) :
    (Render.loopKeys context header).bind (iterationTexts run 0) =
      (header.elements context).bind (elementTexts run' 0) := by
  unfold Render.loopKeys LoopHeader.elements
  cases hvalue : context.get? header.collection with
  | some value =>
    exact iterationTexts_eq_elementTexts (map_step?_of_isSequence (hs value hvalue))
      (hrun value hvalue) 0
  | none =>
    by_cases hnested : header.isNested
    · simp [hnested, Except.bind, iterationTexts, elementTexts]
    · simp [hnested, Except.bind]

/-- **An iteration of a loop over a list** resolves what binding the variable to its element binds. -/
theorem iteration_spec {header : LoopHeader} {outer : List LoopHeader} (h : header.IsApart outer)
    (hc : LoopHeader.isPath header.collection = true) {context : Context} {value : Value}
    (hvalue : context.get? header.collection = some value) (hs : value.IsSequence) {key : Text}
    (hk : key ∈ iterationKeys value) {x : Value} (hx : value.step? key = some x) (i : Nat) :
    (Render.iteration context header key i).IsIndexed ∧
      (Render.iteration context header key i).Binds context
        (context.insert header.variableName x) := by
  have hkey := exists_ofNat_of_mem hs hk
  have hindexed : (Render.iteration context header key i).IsIndexed :=
    ⟨h.identifier, h.not_keyword, hc, hkey⟩
  have hdot := hindexed.isProper.key_dotless
  exact ⟨hindexed, .of_insert hdot ((Render.get?_element hvalue hdot).trans hx)⟩

/-- A loop renders as in the scope if its iterations and what stands behind it do. -/
theorem loop_eq_renderBound {engine : Engine} {context : Context} {opening closing : Line}
    {body rest : Nesting} (ho : opening.OpensLoop) (hc : closing.ClosesLoop) (hb : body.IsLoops)
    {header : LoopHeader} (hheader : opening.header? = some header)
    (hs : ∀ value, context.get? header.collection = some value → value.IsSequence)
    (hiteration : ∀ value, context.get? header.collection = some value →
      ∀ key ∈ iterationKeys value, ∀ x, value.step? key = some x → ∀ i,
        (body.expand (Render.iteration context header key i) 0).Sound context ∧
        (body.expand (Render.iteration context header key i) 0).render engine context
            (fun _ => none) =
          body.renderBound engine context [(header.variableName, x)] i)
    (hsound : rest.Sound context) {position : Nat}
    (hrest : rest.render engine context (fun _ => none) =
      rest.renderBound engine context [] position) :
    (span .loop opening body closing rest).Sound context ∧
      (span .loop opening body closing rest).render engine context (fun _ => none) =
        (span .loop opening body closing rest).renderBound engine context [] position := by
  refine ⟨.span ho.opens (wellNested_of_isLoops hb) hc.closes (fun hnone => ?_) ?_ hsound, ?_⟩
  · rw [hnone rfl] at hheader
    cases hheader
  · intro _ header' keys hheader' hkeys key hkey i
    obtain rfl := Option.some.inj (hheader.symm.trans hheader')
    obtain ⟨value, hvalue, hkey⟩ := exists_of_mem_loopKeys hkeys hkey
    obtain ⟨x, hx⟩ := exists_step?_of_mem (hs value hvalue) hkey
    exact (hiteration value hvalue key hkey x hx i).1
  · have htexts := loopKeys_bind_iterationTexts hs fun value hvalue key hkey x hx i =>
      congrArg (Except.map outText) (hiteration value hvalue key hkey x hx i).2
    rw [render_loop hheader, renderBound_span_of_some hheader, loopLines_eq_bind, htexts, hrest,
      Context.withScope_nil]
    cases (header.elements context).bind (elementTexts _ 0) <;> rfl

/-- **The renderer scopes lexically**: what it makes of a nest of loops, by resolving variables in
the text of the bodies, is what the nest renders to with the variables bound. -/
theorem render_eq_renderBound {n : Nesting} (hn : n.IsLoops) (ha : n.Apart []) {context : Context}
    (hl : n.OverLists context) (engine : Engine) (position : Nat) :
    n.Sound context ∧
      n.render engine context (fun _ => none) = n.renderBound engine context [] position := by
  -- an iteration is a nest of the size of the body, and no part of the loop
  induction hsize : n.size using Nat.strongRecOn generalizing n position with
  | _ size ih =>
    subst hsize
    cases n with
    | done => exact ⟨.done, by rw [render_done, renderBound]⟩
    | text line rest =>
      obtain ⟨hsound, hrender⟩ := ih rest.size (by simp [size]) hn.2 ha.2 hl position rfl
      refine ⟨.text (wellNested_of_isLoops hn).1 hsound, ?_⟩
      rw [render_text, renderBound, hrender, List.map_nil, Line.numberedIn_nil]
      cases rest.renderBound engine context [] position <;> rfl
    | span d opening body closing rest =>
      obtain ⟨⟨rfl, ho, hc⟩, hb, hr⟩ := hn
      obtain ⟨hloop, harest⟩ := ha
      obtain ⟨hlists, hlrest⟩ := hl
      obtain ⟨header, hheader⟩ := Option.isSome_iff_exists.1 ho.header
      obtain ⟨hapart, habody⟩ := hloop header hheader
      obtain ⟨-, -, -, -, -, -, hpath⟩ := ho.exists_words hheader
      obtain ⟨hsound, hrest⟩ := ih rest.size (by simp only [size]; omega) hr harest hlrest position rfl
      have hs : ∀ value, context.get? header.collection = some value → value.IsSequence :=
        fun value hvalue => (hlists header hheader value hvalue).1
      refine loop_eq_renderBound ho hc hb hheader hs (fun value hvalue key hkey x hx i => ?_)
        hsound hrest
      obtain ⟨hindexed, hbinds⟩ := iteration_spec hapart hpath hvalue (hs value hvalue) hkey hx i
      have hbound := (hlists header hheader value hvalue).2 x
        (mem_elements_of_step? (hs value hvalue) hkey hx)
      obtain ⟨hsound, hrender⟩ := ih body.size (by simp only [size]; omega)
        (isLoops_expand hindexed [] hb habody 0)
        (apart_expand hindexed [] hb (by simp) habody 0)
        (overLists_expand hindexed [] hb habody hbinds hbound 0) 0 (size_expand _ body 0)
      refine ⟨hsound, hrender.trans ?_⟩
      exact renderBound_expand hindexed [] [] rfl hb habody hbinds engine 0

end Nesting

/-! ## The page of a nest of loops -/

namespace Engine

variable {engine : Engine} {context : Context}

/-- **Nested loops are lexically scoped.** A template that is a nest of loops over lists, with
variables that are told apart, renders as if each loop bound its variable to the current element in
its body. There a path that begins with the variable of a loop around it names what its other
segments lead to from the current element of the innermost such loop, and any other path what it
names outside the loops. -/
theorem render_eq_boundPage {name : Text} {source : List Text}
    (hl : engine.loadLines name [] = .ok source) {n : Nesting}
    (hn : (Layer.ofSource .main source).lines = n.lines) (hloops : n.IsLoops)
    (ha : n.Apart []) (hlists : n.OverLists context) :
    engine.render name context = n.boundPage engine context ∧
    ∀ (scope : List (Text × Value)) (p : Text), LoopHeader.isPath p = true →
      ∀ root rest, Context.segments p = root :: rest →
        (context.withScope scope).evaluate p = displayed (match scope.lookup root with
          | some x => Context.follow? x rest
          | none => context.get? p) := by
  refine ⟨?_, fun scope p hp root rest hsegments => ?_⟩
  · obtain ⟨hsound, hrender⟩ := Nesting.render_eq_renderBound hloops ha hlists engine 0
    rw [render_eq_page_of_sound hl hn (Nesting.wellNested_of_isLoops hloops) hsound, Nesting.page,
      hrender]
    rfl
  · exact (evaluate_content (isContent_of_isPath hp)).trans
      (congrArg displayed (Context.get?_withScope scope hsegments))

/-- Rows with their cells, and behind them the heads of the columns: two loops inside one, side by
side and with one variable. -/
def table : Nesting :=
  .span .loop { text := "{% for row in table.rows %}".toList }
    (.text { text := "{{ index }}. {{ row.name }}".toList }
      (.span .loop { text := "{% for cell in row.cells %}".toList }
        (.text { text := "{{ index }}: {{ cell.name }} of {{ row.name }}".toList } .done)
        { text := "{% endfor %}".toList }
        (.span .loop { text := "{% for cell in heads %}".toList }
          (.text { text := "{{ cell }}".toList, glued := true } .done)
          { text := "{% endfor %}".toList, glued := true } .done)))
    { text := "{% endfor %}".toList } (.text { text := "{{ cell }}".toList } .done)

/-- A table of two rows. -/
def tables : Context := Context.ofList
  [("table".toList, .dict [("rows".toList, .list
      [.dict [("name".toList, .str "a".toList),
          ("cells".toList, .list [.dict [("name".toList, .int 1)], .dict []])],
        .dict [("name".toList, .str "{{ cell }}".toList), ("cells".toList, .list [])]])]),
    ("heads".toList, .list [.str "x".toList, .str "y".toList]), ("cell".toList, .str "z".toList)]

theorem render_eq_boundPage_table :
    (table.IsLoops ∧ table.Apart [] ∧ table.OverLists tables) ∧
    (ofNesting table).render mainName tables = .ok
      "1. a\n1: 1 of a\n2: Unknown key of a\nxy\n2. {{ cell }}\nxy\nz".toList := by
  have hloops : table.IsLoops := by decide +kernel
  have ha : table.Apart [] := by decide +kernel
  have hlists : table.OverLists tables := by decide +kernel
  have hl : (ofNesting table).loadLines mainName [] = .ok (splitLines table.source) := by
    decide +kernel
  have hn : (Layer.ofSource .main (splitLines table.source)).lines = table.lines := by
    decide +kernel
  refine ⟨⟨hloops, ha, hlists⟩, (render_eq_boundPage hl hn hloops ha hlists).1.trans ?_⟩
  decide +kernel

/-- A line inside two loops. -/
def twoLoops (outer inner line : String) : Nesting :=
  .span .loop { text := outer.toList }
    (.span .loop { text := inner.toList, glued := true }
      (.text { text := line.toList, glued := true } .done)
      { text := "{% endfor %}".toList, glued := true } .done)
    { text := "{% endfor %}".toList, glued := true } .done

/-- A loop over columns inside one over rows, whose variable is a segment of a path to the row. -/
def columns : Nesting :=
  twoLoops "{% for row in rows %}" "{% for cell in cols %}" "{{ row.cell }}"

/-- Nests that break one condition each: the variables are the same, the inner one is a segment of
the outer collection, the outer one is a segment of the inner collection, is the word of the inner
tag, or stands before a dot that ends a path. -/
def mistakenNests : List Nesting :=
  [twoLoops "{% for row in rows %}" "{% for row in cols %}" "{{ row }}",
    twoLoops "{% for row in rows %}" "{% for rows in cols %}" "{{ row.cell }}",
    twoLoops "{% for col in cols %}" "{% for x in heads.col %}" "{{ x }}",
    twoLoops "{% for in in rows %}" "{% for x in in.cells %}" "{{ x }}",
    twoLoops "{% for row in rows %}" "{% for x in cols %}" "{{ row. }}"]

/-- One row and one column. -/
def oneCell : Context := Context.ofList
  [("rows".toList, .list
      [.dict [("cell".toList, .str "c".toList), ("title".toList, .str "t".toList),
        ("cells".toList, .list [.int 1])]]),
    ("cols".toList, .list [.str "title".toList]),
    ("heads".toList, .dict [("col".toList, .list [.int 1]), ("title".toList, .list [.int 2])])]

/-- **The variables have to be told apart**: one that stands behind another in a path is replaced
there too, by the text of its element. None of the other conditions can be left out either. -/
theorem render_ne_boundPage :
    (columns.source =
        "{% for row in rows %}{% for cell in cols %}{{ row.cell }}{% endfor %}{% endfor %}".toList ∧
      (ofNesting columns).loadLines mainName [] = .ok (splitLines columns.source) ∧
      (Layer.ofSource .main (splitLines columns.source)).lines = columns.lines ∧
      columns.IsLoops ∧ columns.OverLists oneCell ∧
      (ofNesting columns).render mainName oneCell = .ok "t".toList ∧
      columns.boundPage (ofNesting columns) oneCell = .ok "c".toList) ∧
    ∀ n ∈ mistakenNests, n.IsLoops ∧ n.OverLists oneCell ∧
      (ofNesting n).render mainName oneCell ≠ n.boundPage (ofNesting n) oneCell := by
  decide +kernel

end Engine

end Stencil
