import Stencil.Proofs.Engine.Source
import Stencil.Proofs.Layer.Output
import Stencil.Proofs.Nesting.Hygiene
import Stencil.Proofs.Nesting.Walk

/-!
# The page of a well-nested template

`render_eq_page`: the engine renders a template as the tree of its lines says, for every tree and
every context, if the loop variables are kept apart from what they could be mistaken for. Nothing
but a missing collection makes the render fail.

Two of the conditions on the variables are easy to overlook, and the page differs from the tree
without either of them (`render_ne_page`). The label of a tag that closes a block is a path like any
other, so that an iteration can rewrite it, and the tag closes nothing any more. And a variable can
be a position in the list that a loop runs through: then the text of an element is put into a tag,
where it can be anything.
-/

namespace Stencil

namespace Nesting

/-! ## Variables kept apart -/

/-- The headers of the loops that can be read. -/
def headers : Nesting → List LoopHeader
  | done => []
  | text _ rest => rest.headers
  | span d opening body _ rest =>
    (if d = .loop then opening.header?.toList else []) ++ body.headers ++ rest.headers

/-- The loop variables. -/
def loopNames (n : Nesting) : List Text := n.headers.map LoopHeader.variableName

/-- The lines that close a body. -/
def closings : Nesting → List Line
  | done => []
  | text _ rest => rest.closings
  | span _ _ body closing rest => body.closings ++ closing :: rest.closings

/-- The paths in the tags of a line. -/
def pathsOf (line : Line) : List Text := (Pattern.span.tags line.text).flatMap Tag.paths

/-- **The loop variables are kept apart** from the keywords of tags, from `keys`, and from the later
segments of all paths; and no tag holds a part of a delimiter. -/
structure KeepsApart (keys : List Text) (n : Nesting) : Prop where
  tidy : ∀ line ∈ n.lines, Text.isTidy line.text = true
  keywords : ∀ v ∈ n.loopNames, v ∉ tagKeywords
  keys : ∀ v ∈ n.loopNames, v ∉ keys
  segments : ∀ v ∈ n.loopNames, ∀ line ∈ n.lines, ∀ p ∈ pathsOf line,
    v ∉ Context.laterSegments p
  collections : ∀ v ∈ n.loopNames, ∀ header ∈ n.headers,
    v ∉ Context.laterSegments header.collection

instance (keys : List Text) (n : Nesting) : Decidable (n.KeepsApart keys) :=
  decidable_of_iff (_ ∧ _ ∧ _ ∧ _ ∧ _)
    ⟨fun ⟨a, b, c, d, e⟩ => ⟨a, b, c, d, e⟩, fun ⟨a, b, c, d, e⟩ => ⟨a, b, c, d, e⟩⟩

/-- No path in a tag that closes a body begins with a loop variable. -/
def LabelsApart (n : Nesting) : Prop :=
  ∀ v ∈ n.loopNames, ∀ line ∈ n.closings, ∀ p ∈ pathsOf line,
    (Context.segments p).head? ≠ some v

instance (n : Nesting) : Decidable n.LabelsApart :=
  inferInstanceAs (Decidable (∀ v ∈ n.loopNames, ∀ line ∈ n.closings, ∀ p ∈ pathsOf line, _))

theorem hygienic_of_forall {V : List Text} {n : Nesting}
    (hl : ∀ line ∈ n.lines, line.IsHygienic V) (hh : ∀ header ∈ n.headers, header.IsHygienic V)
    (hc : ∀ line ∈ n.closings, ∀ p ∈ pathsOf line, ∀ s ∈ Context.segments p, s ∉ V) :
    n.Hygienic V := by
  induction n with
  | done => trivial
  | text line rest ih =>
    exact ⟨fun _ => hl line (by simp [lines]), ih (fun l h => hl l (by simp [lines, h])) hh hc⟩
  | span d opening body closing rest ihb ihr =>
    refine ⟨hl opening (by simp [lines]), ?_, ?_, hl closing (by simp [lines]), ?_, ?_⟩
    · rintro rfl header hheader
      exact hh header (by simp [headers, hheader])
    · exact ihb (fun l h => hl l (by simp [lines, h])) (fun h hm => hh h (by simp [headers, hm]))
        fun l h => hc l (by simp [closings, h])
    · intro tag htag p hp
      exact hc closing (by simp [closings]) p (List.mem_flatMap.2 ⟨tag, htag, hp⟩)
    · exact ihr (fun l h => hl l (by simp [lines, h])) (fun h hm => hh h (by simp [headers, hm]))
        fun l h => hc l (by simp [closings, h])

theorem closings_subset_lines {n : Nesting} {line : Line} (h : line ∈ n.closings) :
    line ∈ n.lines := by
  induction n with
  | done => cases h
  | text l rest ih => exact List.mem_cons_of_mem _ (ih h)
  | span d opening body closing rest ihb ihr =>
    simp only [closings, lines, List.mem_append, List.mem_cons] at h ⊢
    rcases h with h | rfl | h
    · exact .inr (.inl (ihb h))
    · exact .inr (.inr (.inl rfl))
    · exact .inr (.inr (.inr (ihr h)))

theorem hygienic_of_keepsApart {keys : List Text} {n : Nesting}
    (hn : ∀ line ∈ n.lines, '\n' ∉ line.text) (ha : n.KeepsApart keys) (hl : n.LabelsApart) :
    n.Hygienic n.loopNames := by
  refine hygienic_of_forall (fun line hline => ⟨hn line hline, ha.tidy line hline, ?_⟩) ?_ ?_
  · intro tag htag p hp s hs hv
    exact ha.segments s hv line hline p (List.mem_flatMap.2 ⟨tag, htag, hp⟩) hs
  · intro header hheader
    exact ⟨.inl (List.mem_map_of_mem hheader), fun s hs hv => ha.collections s hv header hheader hs⟩
  · intro line hline p hp s hs hv
    obtain ⟨first, rest, hsplit⟩ := List.exists_cons_of_ne_nil (Text.splitOn_ne_nil '.' p)
    have hseg : Context.segments p = first :: rest := hsplit
    rw [hseg] at hs
    rcases List.mem_cons.1 hs with rfl | hs
    · exact hl s hv line hline p hp (by rw [hseg]; rfl)
    · exact ha.segments s hv line (closings_subset_lines hline) p hp
        (by rw [Context.laterSegments, hseg]; exact hs)

/-! ## Sound trees -/

section Sound

variable {context : Context} {V : List Text} (hV : ∀ v ∈ V, v ∉ tagKeywords)
  (hkeys : ∀ v ∈ V, v ∉ context.loopKeys) (hword : context.HasWordKeys)
include hV hkeys hword

theorem isHygienic_iteration {header : LoopHeader} (hh : header.IsHygienic V)
    (hp : LoopHeader.isPath header.collection = true) {keys : List Text}
    (hk : Render.loopKeys context header = .ok keys) {key : Text} (hkey : key ∈ keys)
    (position : Nat) : (Render.iteration context header key position).IsHygienic V := by
  have hmem : key ∈ context.loopKeys := by
    unfold Render.loopKeys at hk
    split at hk
    · next collection hc =>
      cases hk
      exact Context.mem_loopKeys_of_get? hc hkey
    · split at hk <;> cases hk
      cases hkey
  have hchars := hword key hmem
  refine ⟨⟨?_, (LoopHeader.isPath_iff.1 hp).2, ?_, ?_⟩, hh, fun hv => hkeys key hv hmem⟩
  · rcases hh.variable_mem with hv | hdot
    · exact hV _ hv
    · exact fun hkw => dot_not_mem_keyword (isKeyword_of_mem hkw) hdot
  · intro c hc
    simp only [isPathPart, hchars c hc, Bool.true_or]
  · intro hdot
    exact absurd (hchars '.' hdot) (by decide)

/-- **A hygienic tree is sound**: its iterations are well nested, and hygienic again. -/
theorem sound_of_hygienic {n : Nesting} (hw : n.WellNested) (hh : n.Hygienic V) :
    n.Sound context := by
  induction hs : n.size using Nat.strongRecOn generalizing n with
  | _ size ih =>
    subst hs
    cases n with
    | done => exact .done
    | text line rest =>
      exact .text hw.1 (ih rest.size (by simp [Nesting.size]) hw.2 hh.2 rfl)
    | span d opening body closing rest =>
      obtain ⟨ho, hb, hc, hr⟩ := hw
      obtain ⟨-, hheader, hhb, -, -, hhr⟩ := hh
      have hbsize : body.size < (span d opening body closing rest).size := by
        simp only [Nesting.size]
        omega
      refine .span ho hb hc (fun _ => ih _ hbsize hb hhb rfl) ?_
        (ih rest.size (by simp only [Nesting.size]; omega) hr hhr rfl)
      intro hd header keys hread hk key hkey position
      obtain ⟨tag, -, harg⟩ := Option.bind_eq_some_iff.1 hread
      have hit := isHygienic_iteration hV hkeys hword (hheader hd header hread)
        (LoopHeader.ofArgument?_eq_some_iff.1 harg).2.2 hk hkey position
      exact ih body.size hbsize (wellNested_expand hit hb hhb 0) (hygienic_expand hit hb hhb 0)
        (size_expand ..)

end Sound

/-! ## What can go wrong -/

section Errors

variable {engine : Engine} {context : Context} {replaced? : Text → Option Text} {e : Error}

theorem exists_of_iterationTexts_error {run : Nat → Text → Except Error Text} {position : Nat}
    {keys : List Text} (h : iterationTexts run position keys = .error e) :
    ∃ i key, run i key = .error e := by
  induction keys generalizing position with
  | nil => cases h
  | cons key keys ih =>
    rw [iterationTexts] at h
    rcases Except.bind_eq_error_iff.1 h with hr | ⟨text, -, h⟩
    · exact ⟨position, key, hr⟩
    · exact ih (Except.map_eq_error_iff.1 h)

theorem closeLine_error {body : Nesting} {closing : Line} {rendered : Except Error Text}
    {iterated : LoopHeader → Nat → Text → Except Error Text} {construct : Construct}
    (h : closeLine context replaced? body closing rendered iterated construct = .error e) :
    (∃ path, e = .missingCollection path) ∨ rendered = .error e ∨
      ∃ header i key, iterated header i key = .error e := by
  cases construct with
  | block name =>
    rw [closeLine] at h
    split at h
    · cases h
    · exact .inr (.inl (Except.map_eq_error_iff.1 h))
  | condition expression =>
    rw [closeLine] at h
    split at h
    · exact .inr (.inl (Except.map_eq_error_iff.1 h))
    · cases h
    · cases h
  | loop variableName collection =>
    rw [closeLine] at h
    rcases Except.bind_eq_error_iff.1 h with hk | ⟨keys, -, h⟩
    · unfold Render.loopKeys at hk
      split at hk
      · cases hk
      · split at hk <;> cases hk
        exact .inl ⟨collection, rfl⟩
    · obtain ⟨i, key, hi⟩ := exists_of_iterationTexts_error (Except.map_eq_error_iff.1 h)
      exact .inr (.inr ⟨_, i, key, hi⟩)

/-- **A tree renders unless a collection is missing.** -/
theorem exists_of_render_error {n : Nesting} (h : n.render engine context replaced? = .error e) :
    ∃ path, e = .missingCollection path := by
  induction hs : n.size using Nat.strongRecOn generalizing n e with
  | _ size ih =>
    subst hs
    cases n with
    | done => rw [render_done] at h; cases h
    | text line rest =>
      rw [render_text] at h
      exact ih rest.size (by simp [Nesting.size]) (Except.map_eq_error_iff.1 h) rfl
    | span d opening body closing rest =>
      have hbsize : body.size < (span d opening body closing rest).size := by
        simp only [Nesting.size]
        omega
      have hrsize : rest.size < (span d opening body closing rest).size := by
        simp only [Nesting.size]
        omega
      cases hcon : opening.construct? d with
      | none =>
        rw [render_span_of_none hcon] at h
        rcases Except.bind_eq_error_iff.1 h with hb | ⟨out, -, h⟩
        · exact ih _ hbsize hb rfl
        · exact ih _ hrsize (Except.map_eq_error_iff.1 h) rfl
      | some construct =>
        rw [render_span_of_some hcon] at h
        rcases Except.bind_eq_error_iff.1 h with hl | ⟨line, -, h⟩
        · rcases closeLine_error hl with hm | hb | ⟨header, i, key, hi⟩
          · exact hm
          · exact ih _ hbsize (Except.map_eq_error_iff.1 hb) rfl
          · exact ih _ hbsize (Except.map_eq_error_iff.1 hi) (size_expand ..)
        · exact ih _ hrsize (Except.map_eq_error_iff.1 h) rfl

end Errors

/-- Bodies are nested no deeper than the lines have characters. -/
theorem height_le {n : Nesting} (hw : n.WellNested) :
    n.height ≤ ((n.lines.map Line.text).flatten).length := by
  induction n with
  | done => simp [height]
  | text line rest ih =>
    have := ih hw.2
    simp only [height, lines, List.map_cons, List.flatten_cons, List.length_append]
    omega
  | span d opening body closing rest ihb ihr =>
    obtain ⟨ho, hb, -, hr⟩ := hw
    have hbody := ihb hb
    have hrest := ihr hr
    have hopen : opening.text ≠ [] := by
      intro e
      have hp := opening_infix_of_opened (t := opening.text) (d := d) (by simp [ho.opened])
      rw [e] at hp
      exact absurd (List.infix_nil.1 hp) (by decide)
    have hpos := List.length_pos_iff.2 hopen
    simp only [height, lines, List.map_cons, List.map_append, List.flatten_cons,
      List.flatten_append, List.length_append]
    omega

end Nesting

/-! ## The page -/

namespace Engine

variable {engine : Engine} {context : Context}

/-- The stack that holds nothing but the template asked for. -/
def mainOnly (lines : List Line) : Stack := { layers := [(mainName, ⟨.main, lines⟩)] }

theorem get?_mainOnly (lines : List Line) :
    (mainOnly lines).get? mainName = some ⟨.main, lines⟩ := by
  simp [mainOnly, Stack.get?]

/-- The template asked for is the first layer on the stack. -/
theorem loading_mainOnly (source : List Text) :
    Session.loading {} source = { layers := mainOnly (Layer.ofSource .main source).lines } := by
  rw [Session.loading, Stack.insert_of_not_contains rfl, mainOnly]
  rfl

theorem inPlace_mainOnly (lines : List Line) :
    Session.InPlace { layers := mainOnly lines } [mainName] := by
  refine .inr ⟨fun name => ?_, ?_⟩
  · simp [Render.slot?, mainOnly]
  · have hdoc : Session.document? { layers := mainOnly lines } [mainName] =
        some (mainName, .main) := by
      simp [Session.document?, get?_mainOnly, LayerKind.isDocument]
    have hpos : (mainOnly lines).position? mainName = some 0 := by
      simp [mainOnly, Stack.position?]
    unfold Render.showsInPlace
    rw [hdoc]
    simp only [hpos]
    rfl

theorem write_mainOnly {lines out : List Line} (h : out.length = lines.length) :
    (mainOnly lines).write mainName 0 out = mainOnly out := by
  have hw := Layer.writeFrom_zero ⟨.main, lines⟩ h
  simp only [mainOnly, Stack.write, Stack.modify, List.map_cons, List.map_nil, ↓reduceIte, hw]

/-- **Loading a template** that is a sound tree leaves the lines it renders to, and nothing else. -/
theorem outcome_load {name : Text} {source : List Text}
    (hl : engine.loadLines name [] = .ok source) {n : Nesting}
    (hn : (Layer.ofSource .main source).lines = n.lines) (hs : n.Sound context) {depth : Nat}
    (hd : n.height < depth) :
    Render.outcome (Render.load engine context depth name) {} =
      (n.render engine context fun _ => none).map fun out =>
        ((), { layers := (mainOnly out).clean mainName }) := by
  have hwalk : Render.outcome (Render.walk engine context depth [mainName])
      { layers := mainOnly n.lines } = _ :=
    Render.outcome_walk_simulates (Render.simulates_of_sound hs) hd rfl (inPlace_mainOnly _)
      (get?_mainOnly n.lines)
  rw [Render.outcome_load_eq, hl]
  simp only [Except.bind, loading_mainOnly, hn]
  rw [hwalk]
  cases hr : n.render engine context fun _ => none with
  | error e => rfl
  | ok out =>
    obtain ⟨depth, rfl⟩ : ∃ d, depth = d + 1 := ⟨depth - 1, by omega⟩
    simp only [Except.map, Session.write, write_mainOnly (Nesting.length_render hr)]
    rfl

/-- **The engine renders a sound tree** as the tree says. -/
theorem render_eq_page_of_sound {name : Text} {source : List Text}
    (hl : engine.loadLines name [] = .ok source) {n : Nesting}
    (hn : (Layer.ofSource .main source).lines = n.lines) (hw : n.WellNested)
    (hs : n.Sound context) : engine.render name context = n.page engine context := by
  have hsize := Engine.sum_length_ofSource_le hl .main
  rw [hn] at hsize
  have hd : n.height < engine.depthLimit := by
    have := Nesting.height_le hw
    unfold depthLimit
    omega
  rw [render_eq_outcome, outcome_load hl hn hs hd, Nesting.page]
  cases n.render engine context fun _ => none with
  | error e => rfl
  | ok out =>
    show Except.ok ((mainOnly out).clean mainName).join = Except.ok _
    rw [mainOnly, Stack.join_clean_singleton]
    rfl

/-- **A well-nested template renders as its tree says**, if the loop variables are kept apart from
what they could be mistaken for. Nothing but a missing collection makes the render fail. -/
theorem render_eq_page {name : Text} {source : List Text}
    (hl : engine.loadLines name [] = .ok source) {n : Nesting}
    (hn : (Layer.ofSource .main source).lines = n.lines) (hw : n.WellNested)
    (hkeys : context.HasWordKeys) (ha : n.KeepsApart context.loopKeys) (hlabels : n.LabelsApart) :
    engine.render name context = n.page engine context ∧
      ∀ e, engine.render name context = .error e → ∃ path, e = .missingCollection path := by
  have hnewline : ∀ line ∈ n.lines, '\n' ∉ line.text := by
    rw [← hn]
    exact fun line hline => newline_not_mem_of_loadLines hl hline
  have hs := Nesting.sound_of_hygienic ha.keywords ha.keys hkeys hw
    (Nesting.hygienic_of_keepsApart hnewline ha hlabels)
  have hpage := render_eq_page_of_sound hl hn hw hs
  refine ⟨hpage, fun e he => ?_⟩
  rw [hpage, Nesting.page] at he
  cases hr : n.render engine context fun _ => none with
  | error e' =>
    rw [hr] at he
    cases he
    exact Nesting.exists_of_render_error hr
  | ok out => rw [hr] at he; cases he

/-- The engine whose only template has the lines of the tree. -/
def ofNesting (n : Nesting) : Engine := { templates := [(mainName, n.source)] }

/-- A loop over rows, each of them a block with a condition and a loop of its own. -/
def rowLoop : Nesting :=
  .span .loop { text := "{% for row in rows %}".toList }
    (.span .block { text := "{% block row %}".toList }
      (.span .condition { text := "{% if row.cells %}".toList }
        (.text { text := "{{ row.name }}:".toList }
          (.span .loop { text := "{% for cell in row.cells %}".toList }
            (.text { text := "{{ cell }}".toList } .done)
            { text := "{% endfor %}".toList } .done))
        { text := "{% endif %}".toList } .done)
      { text := "{% endblock %}".toList } .done)
    { text := "{% endfor %}".toList } (.text { text := "{{ total }}".toList } .done)

/-- Three rows, one of them without cells. -/
def rows : Context := Context.ofList
  [("rows".toList, .list
    [.dict [("name".toList, .str "a".toList), ("cells".toList, .list [.int 1, .int 2])],
      .dict [("name".toList, .str "b".toList), ("cells".toList, .list [])],
      .dict [("name".toList, .str "c".toList), ("cells".toList, .list [.str "{% if %}".toList])]]),
    ("total".toList, .int 3)]

theorem render_eq_page_rowLoop :
    (rowLoop.WellNested ∧ rows.HasWordKeys ∧ rowLoop.KeepsApart rows.loopKeys ∧
      rowLoop.LabelsApart) ∧
    (ofNesting rowLoop).render mainName rows = .ok "a:\n1\n2\nc:\n{% if %}\n3".toList := by
  have hw : rowLoop.WellNested := by decide +kernel
  have hkeys : rows.HasWordKeys := by decide +kernel
  have ha : rowLoop.KeepsApart rows.loopKeys := by decide +kernel
  have hlabels : rowLoop.LabelsApart := by decide +kernel
  have hl : (ofNesting rowLoop).loadLines mainName [] = .ok (splitLines rowLoop.source) := by
    decide +kernel
  have hn : (Layer.ofSource .main (splitLines rowLoop.source)).lines = rowLoop.lines := by
    decide +kernel
  refine ⟨⟨hw, hkeys, ha, hlabels⟩, (render_eq_page hl hn hw hkeys ha hlabels).1.trans ?_⟩
  decide +kernel

/-! ## Variables that are mistaken -/

/-- A loop around a block whose closing tag has the loop variable for its label. -/
def labelledLoop : Nesting :=
  .span .loop { text := "{% for item in items %}".toList }
    (.span .block { text := "{% block item %}".toList }
      (.text { text := "{{ item }}".toList } .done)
      { text := "{% endblock item %}".toList } .done)
    { text := "{% endfor %}".toList } .done

/-- Two items. -/
def items : Context := Context.ofList
  [("items".toList, .list [.str "a".toList, .str "b".toList])]

/-- Two loops, where the variable of the inner one is a position in the list of the outer one. -/
def positionLoop : Nesting :=
  .span .loop { text := "{% for x in xs %}".toList }
    (.span .loop { text := "{% for 0 in ys %}".toList }
      (.text { text := "{{ x.name }}".toList } .done)
      { text := "{% endfor %}".toList } .done)
    { text := "{% endfor %}".toList } .done

/-- Two lists, of which the second one holds a text with a tag. -/
def lists : Context := Context.ofList
  [("xs".toList, .list [.dict [("name".toList, .str "n".toList)]]),
    ("ys".toList, .list [.str "a \x7d\x7d\x7b% if x %\x7d\x7b\x7b b".toList])]

/-- **Neither condition can be left out.** It does not suffice that the variables are kept apart from
the keys of mappings: they may be labels, or positions. -/
theorem render_ne_page :
    (labelledLoop.WellNested ∧ items.HasWordKeys ∧ labelledLoop.KeepsApart items.mappingKeys ∧
      labelledLoop.KeepsApart items.loopKeys ∧
      (ofNesting labelledLoop).loadLines mainName [] = .ok (splitLines labelledLoop.source) ∧
      (Layer.ofSource .main (splitLines labelledLoop.source)).lines = labelledLoop.lines ∧
      (ofNesting labelledLoop).render mainName items = .ok [] ∧
      labelledLoop.page (ofNesting labelledLoop) items = .ok "a\nb".toList) ∧
    (positionLoop.WellNested ∧ lists.HasWordKeys ∧ positionLoop.KeepsApart lists.mappingKeys ∧
      positionLoop.LabelsApart ∧
      (ofNesting positionLoop).loadLines mainName [] = .ok (splitLines positionLoop.source) ∧
      (Layer.ofSource .main (splitLines positionLoop.source)).lines = positionLoop.lines ∧
      (ofNesting positionLoop).render mainName lists = .ok [] ∧
      positionLoop.page (ofNesting positionLoop) lists =
        .ok "Unknown key{% if x %}Unknown key".toList) := by
  decide +kernel

end Engine

end Stencil
