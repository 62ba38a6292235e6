import Stencil.Proofs.Inheritance.Page

/-!
# Substitution of slots

For trees without loops, to render a filled tree is to render the tree with the contents in the
place of the bodies (`alike_render_fillAll`). The two outputs do not have the same lines, since the
body of a filled slot has one line more, but they read the same wherever they stand.

`render_child_eq` is about a template that extends one without a parent of its own: its page is the
page of the parent, with the contents of its blocks in the place of what the parent shows in the
slots of their names.
-/

namespace Stencil

namespace Nesting

section Render

variable {engine : Engine} {context : Context}

/-- What stands in the closing line of a slot, as its own content or as what replaces it. -/
theorem alike_shown (closing : Line) (content : Text) :
    closing.fill content.shown = closing.fill content ∨
      (closing.fill content.shown).discarded = true ∧ (closing.fill content).discarded = true := by
  unfold Text.shown
  split
  · next h => exact .inr ⟨rfl, by simp [Line.discarded, Line.fill, h]⟩
  · exact .inl rfl

/-- Two spans read the same if their closing lines do, and what comes behind them. -/
theorem alike_span {d : Directive} {opening closing : Line} (line line' : Line)
    {body body' rest rest' : Nesting} {construct : Construct} {replaced? replaced'? : Text → Option Text}
    {behind behind' : List Line} (hcon : opening.construct? d = some construct)
    (hline : closeLine context replaced? body closing
      ((body.render engine context replaced?).map outText)
      (fun header position key =>
        ((body.expand (Render.iteration context header key position) 0).render engine context
          replaced?).map outText) construct = .ok line)
    (hline' : closeLine context replaced'? body' closing
      ((body'.render engine context replaced'?).map outText)
      (fun header position key =>
        ((body'.expand (Render.iteration context header key position) 0).render engine context
          replaced'?).map outText) construct = .ok line')
    (hglued : (body.lines ++ [closing]).all Line.glued = (body'.lines ++ [closing]).all Line.glued)
    (hl : line.glued = closing.glued) (hl' : line'.glued = closing.glued)
    (h : line = line' ∨ line.discarded = true ∧ line'.discarded = true)
    (hrest : rest.render engine context replaced? = .ok behind)
    (hrest' : rest'.render engine context replaced'? = .ok behind') (hbehind : Alike behind behind') :
    ∃ out out', (span d opening body closing rest).render engine context replaced? = .ok out ∧
      (span d opening body' closing rest').render engine context replaced'? = .ok out' ∧
      Alike out out' := by
  refine ⟨consumed opening body line ++ behind, consumed opening body' line' ++ behind', ?_, ?_,
    (alike_consumed hglued hl hl' h).append hbehind⟩
  · rw [render_span_of_some hcon, hline, hrest]
    rfl
  · rw [render_span_of_some hcon, hline', hrest']
    rfl

/-- A span that is no loop is a body for something. -/
theorem exists_construct {d : Directive} {opening closing : Line} (hc : closing.Closes d)
    (hd : d ≠ .loop) : ∃ construct, opening.construct? d = some construct ∧
      (∀ v collection, construct ≠ .loop v collection) ∧
      ∀ x, construct = .block x ↔ blockName? d opening = some x := by
  have hbody := hasBody_of_closes hc
  cases d with
  | block =>
    refine ⟨_, rfl, by simp, fun x => ?_⟩
    simp [blockName?]
  | condition =>
    refine ⟨_, rfl, by simp, fun x => ?_⟩
    simp [blockName?]
  | loop => exact absurd rfl hd
  | _ => cases hbody

/-- What is put into the closing line depends on what the body renders to, and for a block on what
replaces it. -/
theorem closeLine_congr {replaced? replaced'? : Text → Option Text} {construct : Construct}
    (hloop : ∀ v collection, construct ≠ .loop v collection)
    (h : ∀ x, construct = .block x → replaced? x = replaced'? x) (body body' : Nesting)
    (closing : Line) (rendered : Except Error Text)
    (iterated iterated' : LoopHeader → Nat → Text → Except Error Text) :
    closeLine context replaced? body closing rendered iterated construct =
      closeLine context replaced'? body' closing rendered iterated' construct := by
  cases construct with
  | block x => simp only [closeLine, h x rfl]
  | loop v collection => exact absurd rfl (hloop v collection)
  | condition expression => rfl

theorem exists_closeLine {construct : Construct}
    (hloop : ∀ v collection, construct ≠ .loop v collection) (replaced? : Text → Option Text)
    (body : Nesting) (closing : Line) (text : Text)
    (iterated : LoopHeader → Nat → Text → Except Error Text) :
    ∃ line, closeLine context replaced? body closing (.ok text) iterated construct = .ok line ∧
      line.glued = closing.glued := by
  cases construct with
  | block x =>
    simp only [closeLine]
    cases replaced? x <;> exact ⟨_, rfl, rfl⟩
  | loop v collection => exact absurd rfl (hloop v collection)
  | condition expression =>
    simp only [closeLine]
    cases Condition.evaluate expression context with
    | error e => exact ⟨_, rfl, rfl⟩
    | ok holds => cases holds <;> exact ⟨_, rfl, rfl⟩

/-- A tree without loops renders. -/
theorem exists_render {n : Nesting} (hw : n.WellNested) (hl : n.LoopFree)
    (replaced? : Text → Option Text) : ∃ out, n.render engine context replaced? = .ok out := by
  induction n with
  | done => exact ⟨[], render_done⟩
  | text line rest ih =>
    obtain ⟨out, h⟩ := ih hw.2 hl
    refine ⟨line.rewrite engine context :: out, ?_⟩
    rw [render_text, h]
    rfl
  | span d opening body closing rest ihb ihr =>
    obtain ⟨-, hwb, hc, hwr⟩ := hw
    obtain ⟨hd, hlb, hlr⟩ := hl
    obtain ⟨inner, hb⟩ := ihb hwb hlb
    obtain ⟨behind, hr⟩ := ihr hwr hlr
    obtain ⟨construct, hcon, hloop, -⟩ := exists_construct (d := d) hc hd
    obtain ⟨line, hline, -⟩ := exists_closeLine hloop replaced? body closing (outText inner)
      (fun header position key =>
        ((body.expand (Render.iteration context header key position) 0).render engine context
          replaced?).map outText)
    refine ⟨consumed opening body line ++ behind, ?_⟩
    rw [render_span_of_some hcon, hb, hr]
    show (closeLine context replaced? body closing (.ok (outText inner)) _ construct).bind _ = _
    rw [hline]
    rfl

/-- **Only the names of blocks matter** for what replaces them. -/
theorem render_congr {replaced? replaced'? : Text → Option Text} {n : Nesting} (hw : n.WellNested)
    (hl : n.LoopFree) (h : ∀ x ∈ n.names, replaced? x = replaced'? x) :
    n.render engine context replaced? = n.render engine context replaced'? := by
  induction n with
  | done => rw [render_done, render_done]
  | text line rest ih => rw [render_text, render_text, ih hw.2 hl h]
  | span d opening body closing rest ihb ihr =>
    obtain ⟨-, hwb, hc, hwr⟩ := hw
    obtain ⟨hd, hlb, hlr⟩ := hl
    obtain ⟨construct, hcon, hloop, hblock⟩ := exists_construct hc hd
    have hagree : ∀ x, construct = .block x → replaced? x = replaced'? x := by
      intro x hx
      refine h x (List.mem_append_left _ ?_)
      rw [(hblock x).1 hx]
      exact List.mem_singleton_self x
    rw [render_span_of_some hcon, render_span_of_some hcon,
      ihb hwb hlb fun x hx => h x (List.mem_append_right _ (List.mem_append_left _ hx)),
      ihr hwr hlr fun x hx => h x (List.mem_append_right _ (List.mem_append_right _ hx)),
      closeLine_congr hloop hagree]

variable (engine context) in
/-- **Rendering a tree with a filled slot** is rendering the tree with the content in the place of
the body, unless that is replaced anyway. -/
theorem alike_render_fill {n : Nesting} (hw : n.WellNested) (hl : n.LoopFree)
    (hnames : n.names.Nodup) (name content : Text) (replaced? : Text → Option Text) :
    ∃ out out', (n.fill name content).render engine context replaced? = .ok out ∧
      n.render engine context
        (fun x => (replaced? x).or (if x = name then some content else none)) = .ok out' ∧
      Alike out out' := by
  generalize hboth : (fun x => (replaced? x).or (if x = name then some content else none)) = both?
  induction n with
  | done => exact ⟨[], [], render_done, render_done, Alike.refl []⟩
  | text line rest ih =>
    obtain ⟨out, out', h, h', halike⟩ := ih hw.2 hl hnames
    refine ⟨_ :: out, _ :: out', ?_, ?_, halike.cons (line.rewrite engine context)⟩
    · rw [fill, render_text, h]
      rfl
    · rw [render_text, h']
      rfl
  | span d opening body closing rest ihb ihr =>
    obtain ⟨ho, hwb, hc, hwr⟩ := hw
    obtain ⟨hd, hlb, hlr⟩ := hl
    rw [names, List.nodup_append] at hnames
    obtain ⟨-, hinside, hname⟩ := hnames
    obtain ⟨hnb, hnr, hdisjoint⟩ := List.nodup_append.1 hinside
    obtain ⟨inner, inner', hb, hb', hinner⟩ := ihb hwb hlb hnb
    obtain ⟨behind, behind', hr, hr', hbehind⟩ := ihr hwr hlr hnr
    obtain ⟨construct, hcon, hloop, hblock⟩ := exists_construct hc hd
    rw [fill]
    by_cases hfilled : blockName? d opening = some name
    · -- the slot itself: its body renders to the content
      have hout : name ∉ rest.names := by
        refine fun hm => hname name ?_ name (List.mem_append_right _ hm) rfl
        rw [hfilled]
        exact List.mem_singleton_self name
      obtain rfl := (hblock name).2 hfilled
      rw [if_pos hfilled]
      rw [fill_of_not_mem hout] at hr
      have hglued := all_glued_filledBody body closing content
      cases hx : replaced? name with
      | some text =>
        refine alike_span (closing.fill text) (closing.fill text) hcon ?_ ?_ hglued
          rfl rfl (.inl rfl) hr hr' hbehind
        · simp only [closeLine, hx]
        · simp only [closeLine, ← hboth, hx, Option.some_or]
      | none =>
        refine alike_span (closing.fill content.shown) (closing.fill content) hcon ?_ ?_ hglued rfl rfl
          (alike_shown closing content) hr hr'
          hbehind
        · simp only [closeLine, hx, render_filledBody]
          rw [← outText_filledBody body closing content]
          rfl
        · simp only [closeLine, ← hboth, hx, Option.none_or, ↓reduceIte]
    · -- another span: its body is filled, or what comes behind it
      have hkept : ∃ out out',
          (span d opening (body.fill name content) closing (rest.fill name content)).render engine
            context replaced? = .ok out ∧
          (span d opening body closing rest).render engine context both? = .ok out' ∧
          Alike out out' := by
        have hagree : ∀ x, construct = .block x → replaced? x = both? x := by
          rintro x hx
          have hne : x ≠ name := fun e => hfilled (e ▸ (hblock x).1 hx)
          simp [← hboth, hne]
        have hglued : ((body.fill name content).lines ++ [closing]).all Line.glued =
            (body.lines ++ [closing]).all Line.glued := by
          rw [List.all_append, List.all_append, all_glued_fill]
        obtain ⟨line, hline, hl⟩ := exists_closeLine hloop replaced?
          (body.fill name content) closing (outText inner) (fun header position key =>
            (((body.fill name content).expand (Render.iteration context header key position)
              0).render engine context replaced?).map outText)
        refine alike_span line line hcon ?_ ?_ hglued hl hl (.inl rfl) hr hr' hbehind
        · rw [hb]
          exact hline
        · rw [hb', Except.map, ← hinner.outText, ← hline]
          exact (closeLine_congr hloop hagree ..).symm
      rw [if_neg hfilled]
      by_cases hin : name ∈ body.names
      · have hout : name ∉ rest.names := fun hm => hdisjoint name hin name hm rfl
        rw [if_pos hin]
        rwa [fill_of_not_mem hout] at hkept
      · rw [if_neg hin]
        rwa [fill_of_not_mem hin] at hkept

theorem nodup_names_fill {name content : Text} {n : Nesting} (h : n.names.Nodup) :
    (n.fill name content).names.Nodup :=
  List.nodup_iff_count.2 fun x =>
    Nat.le_trans (count_names_fill_le x) (List.nodup_iff_count.1 h x)

theorem get?_eq_none {name : Text} {contents : List (Text × Text)}
    (h : name ∉ contents.map Prod.fst) : Entries.get? name contents = none := by
  induction contents with
  | nil => rfl
  | cons entry contents ih =>
    simp only [List.map_cons, List.mem_cons, not_or] at h
    rw [Entries.get?, if_neg (Ne.symm h.1), ih h.2]

variable (engine context) in
/-- **Rendering a tree with filled slots** is rendering the tree with the contents in the place of
the bodies. A content whose name no block has is not shown. -/
theorem alike_render_fillAll {n : Nesting} (hw : n.WellNested) (hl : n.LoopFree)
    (hnames : n.names.Nodup) {contents : List (Text × Text)}
    (hkeys : (contents.map Prod.fst).Nodup) (replaced? : Text → Option Text) :
    ∃ out out', (n.fillAll contents).render engine context replaced? = .ok out ∧
      n.render engine context (fun x => (replaced? x).or (Entries.get? x contents)) = .ok out' ∧
      Alike out out' := by
  induction contents generalizing n with
  | nil =>
    obtain ⟨out, hout⟩ := exists_render hw hl replaced?
    refine ⟨out, out, hout, ?_, Alike.refl out⟩
    simpa [Entries.get?] using hout
  | cons entry contents ih =>
    obtain ⟨name, content⟩ := entry
    obtain ⟨hname, hkeys⟩ := List.nodup_cons.1 hkeys
    obtain ⟨out, mid, hout, hmid, halike⟩ :=
      ih (wellNested_fill hw) (loopFree_fill hl) (nodup_names_fill hnames) hkeys
    obtain ⟨mid', out', hmid', hout', halike'⟩ := alike_render_fill engine context hw hl hnames name
      content fun x => (replaced? x).or (Entries.get? x contents)
    obtain rfl : mid = mid' := Except.ok.inj (hmid.symm.trans hmid')
    refine ⟨out, out', hout, ?_, halike.trans halike'⟩
    have hget : (fun x => (replaced? x).or (Entries.get? x ((name, content) :: contents))) =
        fun x => ((replaced? x).or (Entries.get? x contents)).or
          (if x = name then some content else none) := by
      funext x
      rw [Option.or_assoc, Entries.get?]
      by_cases hx : name = x
      · subst hx
        rw [if_pos rfl, if_pos rfl, get?_eq_none hname, Option.none_or]
      · rw [if_neg hx, if_neg (Ne.symm hx), Option.or_none]
    rw [hget]
    exact hout'

/-! ## Contents -/

/-- Without loops, all contents can be had. -/
theorem exists_contents {n : Nesting} (hw : n.WellNested) (hl : n.LoopFree) :
    ∃ contents, n.contents engine context = .ok contents := by
  induction n with
  | done => exact ⟨[], rfl⟩
  | text line rest ih => exact ih hw.2 hl
  | span d opening body closing rest ihb ihr =>
    obtain ⟨out, hb⟩ := exists_render hw.2.1 hl.2.1 fun _ => none
    obtain ⟨behind, hr⟩ := ihr hw.2.2.2 hl.2.2
    refine ⟨(opening.argument .block, outText out) :: behind, ?_⟩
    rw [contents_span, hb, hr]
    rfl

/-- The contents whose names a tree has. -/
theorem get?_filter {contents : List (Text × Text)} {names : List Text} {x : Text}
    (h : x ∈ names) :
    Entries.get? x (contents.filter fun entry => entry.1 ∈ names) = Entries.get? x contents := by
  induction contents with
  | nil => rfl
  | cons entry contents ih =>
    by_cases hx : entry.1 = x
    · have hmem : entry.1 ∈ names := hx ▸ h
      simp [Entries.get?, hx, h]
    · by_cases hmem : entry.1 ∈ names
      · simp [hmem, Entries.get?, hx, ih]
      · simp [hmem, Entries.get?, hx, ih]

end Render

end Nesting

namespace Engine

variable {engine : Engine} {context : Context}

/-- **A template that extends one parent** shows the page of the parent with its own blocks in the
slots of their names. The parent alone renders to the lines `alone`; in the page of the template,
they become the lines `out`, where the closing line of a slot holds the content of the block that
has its name in the place of what the slot itself renders to. The line ends are the same, and blocks
that the parent does not have change nothing. -/
theorem render_child_eq {name : Text} {source : List Text}
    (hl : engine.loadLines name [] = .ok source) {t : Derived}
    (ht : (Layer.ofSource .main source).lines = t.lines) (htl : t.blocks.LoopFree)
    (hkeys : t.blocks.outerNames.Nodup) {parentSource : List Text}
    (hp : engine.loadLines t.parent [] = .ok parentSource) {p : Nesting}
    (hpn : (Layer.ofSource .main parentSource).lines = p.lines) (hw : p.WellNested)
    (hpl : p.LoopFree) (hnames : p.names.Nodup) {page : Text}
    (hpage : engine.render t.parent context = .ok page) (hvisible : Text.isBlank page = false) :
    ∃ contents alone out,
      t.blocks.contents engine context = .ok contents ∧
      p.render engine context (fun _ => none) = .ok alone ∧
      page = Nesting.outText alone ∧
      p.render engine context (fun x => Entries.get? x contents) = .ok out ∧
      engine.render name context = .ok (Nesting.outText out) ∧
      out.map Line.glued = alone.map Line.glued ∧
      p.render engine context (fun x =>
        Entries.get? x (contents.filter fun entry => entry.1 ∈ p.names)) = .ok out := by
  obtain ⟨contents, hcs⟩ := Nesting.exists_contents t.wellNested htl
  obtain ⟨alone, halone⟩ := Nesting.exists_render hw hpl fun _ => none
  have hdistinct : (contents.map Prod.fst).Nodup := by
    rw [Nesting.map_fst_contents hcs]
    exact hkeys
  obtain ⟨filled, out, hfilled, hout, halike⟩ :=
    Nesting.alike_render_fillAll engine context hw hpl hnames hdistinct fun _ => none
  simp only [Option.none_or] at hout
  refine ⟨contents, alone, out, hcs, halone, ?_, hout, ?_, ?_, ?_⟩
  · -- the parent alone is not cleaned away, since something of it is visible
    rw [render_eq_page_of_sound hp hpn hw (Nesting.sound_of_loopFree hw hpl), Nesting.page,
      halone] at hpage
    obtain rfl := Except.ok.inj hpage
    split at hvisible
    · next hany => rw [if_pos hany]
    · cases hvisible
  · have hd : Descends engine source [t] p := .step ht hp (.base hpn hw)
    have hf : ∀ t' ∈ [t], t'.blocks.Fillable context := by
      intro t' ht'
      obtain rfl := List.mem_singleton.1 ht'
      exact Nesting.fillable_of_loopFree t'.wellNested htl
    rw [render_eq_of_descends hl hd hf (Nesting.fillable_of_loopFree hw hpl)]
    simp only [overrides, Nesting.fillAll_nil, hcs]
    show ((p.fillAll contents).render engine context fun _ => none).map _ = _
    rw [hfilled]
    simp [Except.map, halike.outText]
  · rw [Nesting.map_glued_render hout, Nesting.map_glued_render halone]
  · rw [← hout]
    exact Nesting.render_congr hw hpl fun x hx => Nesting.get?_filter hx

/-- A page with a title, a block within a condition within a block, and a foot. -/
def outline : Nesting :=
  .text { text := "<h1>".toList }
    (.span .block { text := "{% block title %}".toList, glued := true }
      (.text { text := "Untitled".toList, glued := true } .done)
      { text := "{% endblock %}".toList, glued := true }
      (.text { text := "</h1>".toList, glued := true }
        (.span .block { text := "{% block body %}".toList }
          (.span .condition { text := "{% if user %}".toList }
            (.span .block { text := "{% block greeting %}".toList }
              (.text { text := "Hello".toList, glued := true } .done)
              { text := "{% endblock greeting %}".toList, glued := true }
              (.text { text := ", {{ user }}".toList, glued := true } .done))
            { text := "{% endif %}".toList } .done)
          { text := "{% endblock body %}".toList }
          (.span .block { text := "{% block foot %}".toList }
            (.text { text := "the end".toList } .done)
            { text := "{% endblock %}".toList } .done))))

/-- A template that gives the outline a title and a greeting, no foot, and a block that the outline
does not have. -/
def letter : Derived where
  parent := "outline".toList
  extending := { text := "\x7b% extends \"outline\" %\x7d".toList }
  blocks :=
    .text { text := [] }
      (.span .block { text := "{% block title %}".toList }
        (.text { text := "Letter".toList, glued := true } .done)
        { text := "{% endblock %}".toList, glued := true }
        (.span .block { text := "{% block greeting %}".toList }
          (.text { text := "Dear {{ user }}".toList }
            (.text { text := "and all".toList } .done))
          { text := "{% endblock %}".toList }
          (.span .block { text := "{% block foot %}".toList }
            (.text { text := " ".toList } .done)
            { text := "{% endblock %}".toList }
            (.span .block { text := "{% block sender %}".toList }
              (.text { text := "nobody".toList } .done)
              { text := "{% endblock %}".toList } .done))))
  extends_parent := by decide +kernel
  wellNested := by decide +kernel
  onlyBlocks := by decide +kernel

/-- The engine with both. -/
def outlines : Engine where
  templates := [("outline".toList, outline.source), (mainName, Nesting.outText letter.lines)]

/-- A reader. -/
def reader : Context := Context.ofList [("user".toList, .str "{{ you }}".toList)]

theorem render_child_eq_letter :
    (outline.WellNested ∧ outline.LoopFree ∧ outline.names.Nodup ∧ letter.blocks.LoopFree ∧
      letter.blocks.outerNames.Nodup) ∧
    outlines.render "outline".toList reader =
      .ok "<h1>Untitled</h1>\nHello, {{ you }}\nthe end".toList ∧
    outlines.render mainName reader =
      .ok "<h1>Letter</h1>\nDear {{ you }}\nand all, {{ you }}".toList := by
  have hw : outline.WellNested := by decide +kernel
  have hpl : outline.LoopFree := by decide +kernel
  have hnames : outline.names.Nodup := by decide +kernel
  have htl : letter.blocks.LoopFree := by decide +kernel
  have hkeys : letter.blocks.outerNames.Nodup := by decide +kernel
  have hl : outlines.loadLines mainName [] =
      .ok (splitLines (Nesting.outText letter.lines)) := by decide +kernel
  have ht : (Layer.ofSource .main (splitLines (Nesting.outText letter.lines))).lines =
      letter.lines := by decide +kernel
  have hp : outlines.loadLines letter.parent [] = .ok (splitLines outline.source) := by
    decide +kernel
  have hpn : (Layer.ofSource .main (splitLines outline.source)).lines = outline.lines := by
    decide +kernel
  have hpage : outlines.render letter.parent reader =
      .ok "<h1>Untitled</h1>\nHello, {{ you }}\nthe end".toList := by decide +kernel
  refine ⟨⟨hw, hpl, hnames, htl, hkeys⟩, hpage, ?_⟩
  obtain ⟨contents, alone, out, hcs, -, -, hout, hrender, -⟩ :=
    render_child_eq hl ht htl hkeys hp hpn hw hpl hnames hpage (by decide +kernel)
  have hsubst : (letter.blocks.contents outlines reader).bind (fun contents =>
      (outline.render outlines reader fun x => Entries.get? x contents).map Nesting.outText) =
        .ok "<h1>Letter</h1>\nDear {{ you }}\nand all, {{ you }}".toList := by decide +kernel
  rw [hcs, Except.bind, hout] at hsubst
  rw [hrender]
  exact hsubst

end Engine

end Stencil
