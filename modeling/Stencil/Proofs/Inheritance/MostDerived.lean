import Stencil.Proofs.Inheritance.Page

/-!
# The most derived block

When several templates of a chain have a block of one name, the base shows that of the most derived
template from which on all templates have it (`render_most_derived`). A block does not reach over a
template that does not have it: while a template is walked, only its parent is there to be filled,
and a block without a slot in the parent is dropped (`render_skips_block`).

The content of a block is what its body renders to when some of the blocks inside it have been
filled by the templates before it.
-/

namespace Stencil

namespace Nesting

/-! ## Blocks outside of other blocks -/

/-- The body of the first block of that name that is not inside another block. -/
def outerBody? (name : Text) : Nesting → Option Nesting
  | done => none
  | text _ rest => rest.outerBody? name
  | span d opening body _ rest =>
    if blockName? d opening = some name then some body
    else if d = .block then rest.outerBody? name
    else (body.outerBody? name).or (rest.outerBody? name)

/-- What the body of that block renders to. -/
def blockText? (engine : Engine) (context : Context) (name : Text) (n : Nesting) :
    Option (Except Error Text) :=
  (n.outerBody? name).map fun body =>
    (body.render engine context fun _ => none).map outText

theorem mem_names_of_outerBody? {name : Text} {n body : Nesting}
    (h : n.outerBody? name = some body) : name ∈ n.names := by
  induction n with
  | done => cases h
  | text line rest ih => exact ih h
  | span d opening inner closing rest ihb ihr =>
    rw [outerBody?] at h
    rw [names, List.mem_append, List.mem_append, Option.mem_toList]
    split at h
    · next hname => exact .inl hname
    · split at h
      · exact .inr (.inr (ihr h))
      · rcases Option.or_eq_some_iff.1 h with hin | ⟨-, hout⟩
        · exact .inr (.inl (ihb hin))
        · exact .inr (.inr (ihr hout))

theorem outerBody?_of_not_mem {name : Text} {n : Nesting} (h : name ∉ n.names) :
    n.outerBody? name = none := by
  cases hb : n.outerBody? name with
  | none => rfl
  | some body => exact absurd (mem_names_of_outerBody? hb) h

section Fill

variable {b : Text} {n : Nesting}

/-- **Filling the block itself**, if it is the only one of its name. -/
theorem exists_outerBody?_fill_self {body : Nesting} (h : n.outerBody? b = some body)
    (hone : n.names.count b ≤ 1) (content : Text) :
    ∃ closing, (n.fill b content).outerBody? b = some (filledBody body closing content) := by
  induction n with
  | done => cases h
  | text line rest ih => exact ih h hone
  | span d opening inner closing rest ihb ihr =>
    rw [names, List.count_append, List.count_append] at hone
    rw [outerBody?] at h
    rw [fill]
    by_cases hname : blockName? d opening = some b
    · rw [if_pos hname] at h ⊢
      obtain rfl := Option.some.inj h
      exact ⟨closing, by rw [outerBody?, if_pos hname]⟩
    · rw [if_neg hname] at h ⊢
      -- the block is not in the body and behind it at once
      have hapart : b ∈ inner.names → rest.outerBody? b = none := by
        intro hin
        refine outerBody?_of_not_mem fun hout => ?_
        have h1 := List.count_pos_iff.2 hin
        have h2 := List.count_pos_iff.2 hout
        omega
      by_cases hin : b ∈ inner.names
      · rw [if_pos hin, outerBody?, if_neg hname]
        rw [hapart hin, Option.or_none] at h
        split at h
        · cases h
        · next hd =>
          obtain ⟨c, hc⟩ := ihb h (by omega)
          exact ⟨c, by rw [if_neg hd, hc, Option.some_or]⟩
      · rw [if_neg hin, outerBody?, if_neg hname]
        rw [outerBody?_of_not_mem hin, Option.none_or, ite_self] at h ⊢
        exact ihr h (by omega)

/-- **Filling another block** changes the body at most in what is inside it. -/
theorem exists_outerBody?_fill_of_ne {x : Text} (hx : x ≠ b) (content : Text) :
    ∃ own : List (Text × Text), own.Sublist [(x, content)] ∧
      (n.fill x content).outerBody? b = (n.outerBody? b).map (·.fillAll own) := by
  have hkept : ∀ n : Nesting, n.outerBody? b = (n.outerBody? b).map (·.fillAll []) := by
    intro n
    simp
  induction n with
  | done => exact ⟨[], List.nil_sublist _, rfl⟩
  | text line rest ih => exact ih
  | span d opening body closing rest ihb ihr =>
    obtain ⟨inside, hinside, hib⟩ := ihb
    obtain ⟨behind, hbehind, hir⟩ := ihr
    rw [fill]
    by_cases hname : blockName? d opening = some b
    · -- the block itself, which can have the other one in its body
      rw [if_neg (by rw [hname]; simpa using Ne.symm hx)]
      simp only [outerBody?, if_pos hname]
      split
      · exact ⟨[(x, content)], List.Sublist.refl _, by rw [outerBody?, if_pos hname]; rfl⟩
      · exact ⟨[], List.nil_sublist _, by rw [outerBody?, if_pos hname]; rfl⟩
    · by_cases hd : d = .block
      · simp only [outerBody?, if_neg hname, if_pos hd]
        split
        · exact ⟨[], List.nil_sublist _, by
            rw [outerBody?, if_neg hname, if_pos hd, ← hkept rest]⟩
        · split
          · exact ⟨[], List.nil_sublist _, by
              rw [outerBody?, if_neg hname, if_pos hd, ← hkept rest]⟩
          · exact ⟨behind, hbehind, by rw [outerBody?, if_neg hname, if_pos hd, hir]⟩
      · have hother : blockName? d opening ≠ some x := by simp [blockName?, hd]
        rw [if_neg hother]
        simp only [outerBody?, if_neg hname, if_neg hd]
        cases hb : body.outerBody? b with
        | some own =>
          rw [hb] at hib
          split
          · exact ⟨inside, hinside, by rw [outerBody?, if_neg hname, if_neg hd, hib]; rfl⟩
          · exact ⟨[], List.nil_sublist _, by rw [outerBody?, if_neg hname, if_neg hd, hb]; rfl⟩
        | none =>
          rw [hb] at hib
          split
          · exact ⟨[], List.nil_sublist _, by
              rw [outerBody?, if_neg hname, if_neg hd, hib, Option.none_or]
              exact hkept rest⟩
          · exact ⟨behind, hbehind, by
              rw [outerBody?, if_neg hname, if_neg hd, hb, Option.none_or, Option.none_or, hir]⟩

/-- **Filling other blocks** changes the body at most in what is inside it. -/
theorem exists_outerBody?_fillAll {contents : List (Text × Text)}
    (h : b ∉ contents.map Prod.fst) :
    ∃ own : List (Text × Text), own.Sublist contents ∧
      (n.fillAll contents).outerBody? b = (n.outerBody? b).map (·.fillAll own) := by
  induction contents generalizing n with
  | nil => exact ⟨[], List.Sublist.refl _, by simp⟩
  | cons entry contents ih =>
    obtain ⟨x, content⟩ := entry
    rw [List.map_cons, List.mem_cons, not_or] at h
    obtain ⟨first, hfirst, hbody⟩ := exists_outerBody?_fill_of_ne (n := n) (Ne.symm h.1) content
    obtain ⟨rest, hrest, hall⟩ := ih (n := n.fill x content) h.2
    refine ⟨first ++ rest, hfirst.append hrest, ?_⟩
    rw [fillAll_cons, hall, hbody, Option.map_map]
    congr 1
    funext body
    exact (fillAll_append body first rest).symm

theorem fillAll_of_names_eq_nil (h : n.names = []) (contents : List (Text × Text)) :
    n.fillAll contents = n := by
  induction contents with
  | nil => rfl
  | cons entry contents ih => rw [fillAll_cons, fill_of_not_mem (by simp [h]), ih]

variable {engine : Engine} {context : Context}

/-- **A block shows the content it is filled with**, if it is the only one of its name. -/
theorem blockText?_fillAll (h : (n.outerBody? b).isSome = true) (hone : n.names.count b ≤ 1)
    {contents : List (Text × Text)} (hkeys : (contents.map Prod.fst).Nodup) {text : Text}
    (hget : Entries.get? b contents = some text) :
    (n.fillAll contents).blockText? engine context b = some (.ok text.shown) := by
  induction contents generalizing n with
  | nil => cases hget
  | cons entry contents ih =>
    obtain ⟨x, content⟩ := entry
    obtain ⟨hx, hkeys⟩ := List.nodup_cons.1 hkeys
    rw [fillAll_cons]
    by_cases hxb : x = b
    · subst hxb
      rw [Entries.get?, if_pos rfl] at hget
      obtain rfl := Option.some.inj hget
      obtain ⟨body, hbody⟩ := Option.isSome_iff_exists.1 h
      obtain ⟨closing, hfilled⟩ := exists_outerBody?_fill_self hbody hone content
      obtain ⟨own, -, hall⟩ := exists_outerBody?_fillAll (n := n.fill x content) hx
      have hnames : (filledBody body closing content).names = [] := names_ofLines _
      rw [blockText?, hall, hfilled, Option.map_some, fillAll_of_names_eq_nil hnames,
        Option.map_some, render_filledBody]
      exact congrArg (fun t => some (Except.ok t)) (outText_filledBody body closing content)
    · rw [Entries.get?, if_neg hxb] at hget
      obtain ⟨own, -, hbody⟩ := exists_outerBody?_fill_of_ne (n := n) hxb content
      refine ih ?_ (Nat.le_trans (count_names_fill_le b) hone) hkeys hget
      rw [hbody, Option.isSome_map]
      exact h

end Fill

/-! ## Blocks of a template that extends another one -/

section Contents

variable {engine : Engine} {context : Context} {n : Nesting}

/-- **The contents of a template** are what its blocks render to. -/
theorem blockText?_eq_get? (ho : n.OnlyBlocks) {contents : List (Text × Text)}
    (h : n.contents engine context = .ok contents) (b : Text) :
    n.blockText? engine context b = (Entries.get? b contents).map Except.ok := by
  induction n generalizing contents with
  | done =>
    cases h
    rfl
  | text line rest ih => exact ih ho.2 h
  | span d opening body closing rest ihb ihr =>
    obtain ⟨rfl, ho⟩ := ho
    rw [contents_span] at h
    obtain ⟨out, hb, h⟩ := Except.bind_eq_ok_iff.1 h
    obtain ⟨behind, hr, rfl⟩ := Except.map_eq_ok_iff.1 h
    have hrest := ihr ho hr
    unfold blockText? at hrest ⊢
    simp only [outerBody?, blockName?, ↓reduceIte, Option.some.injEq, Entries.get?]
    split
    · simp [hb, Except.map]
    · exact hrest

theorem outerNames_fill (name content : Text) : (n.fill name content).outerNames = n.outerNames := by
  induction n with
  | done => rfl
  | text line rest ih => exact ih
  | span d opening body closing rest ihb ihr =>
    rw [fill]
    split
    · rfl
    · split
      · rfl
      · rw [outerNames, outerNames, ihr]

theorem outerNames_fillAll (contents : List (Text × Text)) :
    (n.fillAll contents).outerNames = n.outerNames :=
  fillAll_induction (motive := fun m => m.outerNames = n.outerNames)
    (fun _ name content h => (outerNames_fill name content).trans h) rfl contents

theorem outerNames_sublist (ho : n.OnlyBlocks) : n.outerNames.Sublist n.names := by
  induction n with
  | done => exact List.Sublist.refl _
  | text line rest ih => exact ih ho.2
  | span d opening body closing rest ihb ihr =>
    obtain ⟨rfl, ho⟩ := ho
    rw [outerNames, names, blockName?, if_pos rfl, Option.toList_some, List.singleton_append]
    exact ((ihr ho).trans (List.sublist_append_right _ _)).cons_cons _

theorem isSome_outerBody?_iff (ho : n.OnlyBlocks) {b : Text} :
    (n.outerBody? b).isSome = true ↔ b ∈ n.outerNames := by
  induction n with
  | done => simp [outerBody?, outerNames]
  | text line rest ih => exact ih ho.2
  | span d opening body closing rest ihb ihr =>
    obtain ⟨rfl, ho⟩ := ho
    simp only [outerBody?, blockName?, ↓reduceIte, Option.some.injEq, outerNames, List.mem_cons]
    split
    · next h => simp [h]
    · next h => rw [ihr ho]; simp [Ne.symm h]

end Contents

end Nesting

/-! ## Blocks along a chain -/

/-- The template has a block of that name that is not inside another block. -/
def Derived.Declares (b : Text) (t : Derived) : Prop := (t.blocks.outerBody? b).isSome = true

instance (b : Text) (t : Derived) : Decidable (t.Declares b) :=
  inferInstanceAs (Decidable ((t.blocks.outerBody? b).isSome = true))

section Overrides

variable {engine : Engine} {context : Context} {b : Text}

theorem overrides_append (below above : List Derived) (contents : List (Text × Text)) :
    overrides engine context (below ++ above) contents =
      (overrides engine context below contents).bind (overrides engine context above) := by
  induction below generalizing contents with
  | nil => rfl
  | cons t below ih =>
    rw [List.cons_append, overrides, overrides]
    cases (t.blocks.fillAll contents).contents engine context with
    | error e => rfl
    | ok contents' => exact ih contents'

/-- The contents of a template whose slots have been filled are those of its own blocks. -/
theorem Derived.map_fst_contents {t : Derived} {contents contents' : List (Text × Text)}
    (h : (t.blocks.fillAll contents).contents engine context = .ok contents') :
    contents'.map Prod.fst = t.blocks.outerNames :=
  (Nesting.map_fst_contents h).trans (Nesting.outerNames_fillAll contents)

/-- A block does not get past a template that does not have it. -/
theorem not_mem_overrides {below : List Derived}
    (hlast : ∀ u ∈ below.getLast?, ¬ u.Declares b) {contents : List (Text × Text)}
    (h : overrides engine context below [] = .ok contents) : b ∉ contents.map Prod.fst := by
  rcases List.eq_nil_or_concat below with rfl | ⟨before, u, rfl⟩
  · cases h
    simp
  · rw [List.concat_eq_append] at h hlast
    rw [overrides_append] at h
    obtain ⟨inner, -, h⟩ := Except.bind_eq_ok_iff.1 h
    rw [overrides] at h
    obtain ⟨contents', hcs, h⟩ := Except.bind_eq_ok_iff.1 h
    cases h
    rw [Derived.map_fst_contents hcs, ← Nesting.isSome_outerBody?_iff u.onlyBlocks]
    exact hlast u (by simp)

/-- **A content gets past templates that have its block.** -/
theorem exists_get?_overrides {above : List Derived} (hnames : ∀ u ∈ above, u.blocks.names.Nodup)
    (hdeclares : ∀ u ∈ above, u.Declares b) {inner contents : List (Text × Text)}
    (h : overrides engine context above inner = .ok contents)
    (hkeys : (inner.map Prod.fst).Nodup) {text : Text} (hget : Entries.get? b inner = some text) :
    (contents.map Prod.fst).Nodup ∧
      ∃ text', Entries.get? b contents = some text' ∧ text'.shown = text.shown := by
  induction above generalizing inner text with
  | nil =>
    cases h
    exact ⟨hkeys, text, hget, rfl⟩
  | cons u above ih =>
    rw [overrides] at h
    obtain ⟨next, hcs, h⟩ := Except.bind_eq_ok_iff.1 h
    have hnodup := hnames u List.mem_cons_self
    have hnext : (next.map Prod.fst).Nodup := by
      rw [Derived.map_fst_contents hcs]
      exact hnodup.sublist (Nesting.outerNames_sublist u.onlyBlocks)
    -- the content is shown by the template, and so becomes the content of its block
    have hshown : (u.blocks.fillAll inner).blockText? engine context b =
        some (.ok text.shown) :=
      Nesting.blockText?_fillAll (hdeclares u List.mem_cons_self)
        (List.nodup_iff_count.1 hnodup b) hkeys hget
    rw [Nesting.blockText?_eq_get? (Nesting.onlyBlocks_fillAll u.onlyBlocks inner) hcs] at hshown
    obtain ⟨text', hget', htext⟩ := Option.map_eq_some_iff.1 hshown
    obtain rfl := Except.ok.inj htext
    obtain ⟨hall, last, hlast, heq⟩ := ih (fun v hv => hnames v (List.mem_cons_of_mem _ hv))
      (fun v hv => hdeclares v (List.mem_cons_of_mem _ hv)) h hnext hget'
    exact ⟨hall, last, hlast, heq.trans (Text.shown_shown text)⟩

/-- **The first template from which on all have the block** fills the slot of the base. -/
theorem exists_text_of_declares {below above : List Derived} {t : Derived}
    {contents : List (Text × Text)}
    (h : overrides engine context (below ++ t :: above) [] = .ok contents)
    (hnames : ∀ u ∈ t :: above, u.blocks.names.Nodup) (hdeclares : ∀ u ∈ t :: above, u.Declares b)
    (hbelow : ∀ u ∈ below.getLast?, ¬ u.Declares b) {base : Nesting}
    (hbase : (base.outerBody? b).isSome = true) (hone : base.names.count b ≤ 1) :
    ∃ inner own body text,
      overrides engine context below [] = .ok inner ∧ own.Sublist inner ∧
      t.blocks.outerBody? b = some body ∧
      ((body.fillAll own).render engine context fun _ => none).map Nesting.outText = .ok text ∧
      (base.fillAll contents).blockText? engine context b = some (.ok text.shown) := by
  rw [overrides_append] at h
  obtain ⟨inner, hin, h⟩ := Except.bind_eq_ok_iff.1 h
  rw [overrides] at h
  obtain ⟨next, hcs, h⟩ := Except.bind_eq_ok_iff.1 h
  obtain ⟨body, hbody⟩ := Option.isSome_iff_exists.1 (hdeclares t List.mem_cons_self)
  obtain ⟨own, hsub, hown⟩ :=
    Nesting.exists_outerBody?_fillAll (n := t.blocks) (not_mem_overrides hbelow hin)
  -- what the block renders to is its content
  have htext := Nesting.blockText?_eq_get?
    (Nesting.onlyBlocks_fillAll t.onlyBlocks inner) hcs b
  rw [Nesting.blockText?, hown, hbody, Option.map_some, Option.map_some] at htext
  obtain ⟨text, hget, hrender⟩ := Option.map_eq_some_iff.1 htext.symm
  have hkeys : (next.map Prod.fst).Nodup := by
    rw [Derived.map_fst_contents hcs]
    exact (hnames t List.mem_cons_self).sublist (Nesting.outerNames_sublist t.onlyBlocks)
  -- and it gets to the base through the templates behind it
  obtain ⟨hnodup, last, hlast, heq⟩ :=
    exists_get?_overrides (fun u hu => hnames u (List.mem_cons_of_mem _ hu))
      (fun u hu => hdeclares u (List.mem_cons_of_mem _ hu)) h hkeys hget
  refine ⟨inner, own, body, text, hin, hsub, hbody, hrender.symm, ?_⟩
  rw [Nesting.blockText?_fillAll hbase hone hnodup hlast, heq]

end Overrides

namespace Engine

variable {engine : Engine} {context : Context}

/-- A base with two slots. -/
def frame : Nesting :=
  .text { text := "<".toList }
    (.span .block { text := "{% block title %}".toList, glued := true }
      (.text { text := "untitled".toList, glued := true } .done)
      { text := "{% endblock %}".toList, glued := true }
      (.text { text := "|".toList, glued := true }
        (.span .block { text := "{% block foot %}".toList, glued := true }
          (.text { text := "no foot".toList, glued := true } .done)
          { text := "{% endblock %}".toList, glued := true }
          (.text { text := ">".toList, glued := true } .done))))

/-- A template with a block for each slot of the frame. -/
def middle : Derived where
  parent := "frame".toList
  extending := { text := "\x7b% extends \"frame\" %\x7d".toList }
  blocks :=
    .span .block { text := "{% block title %}".toList }
      (.text { text := "middle".toList } .done)
      { text := "{% endblock %}".toList }
      (.text { text := [] }
        (.span .block { text := "{% block foot %}".toList }
          (.text { text := "page {{ number }}".toList } .done)
          { text := "{% endblock %}".toList } .done))
  extends_parent := by decide +kernel
  wellNested := by decide +kernel
  onlyBlocks := by decide +kernel

/-- A template with a title of its own. -/
def cover : Derived where
  parent := "middle".toList
  extending := { text := "\x7b% extends \"middle\" %\x7d".toList }
  blocks :=
    .span .block { text := "{% block title %}".toList }
      (.text { text := "{{ title }}".toList } .done)
      { text := "{% endblock %}".toList } .done
  extends_parent := by decide +kernel
  wellNested := by decide +kernel
  onlyBlocks := by decide +kernel

/-- The engine with the three of them. -/
def covers : Engine where
  templates := [("frame".toList, frame.source), ("middle".toList, Nesting.outText middle.lines),
    (mainName, Nesting.outText cover.lines)]

/-- A title that looks like a tag, and a number. -/
def book : Context := Context.ofList
  [("title".toList, .str "{{ number }}".toList), ("number".toList, .int 7)]

/-- A template with a block for the foot only. -/
def footer : Derived where
  parent := "frame".toList
  extending := { text := "\x7b% extends \"frame\" %\x7d".toList }
  blocks :=
    .span .block { text := "{% block foot %}".toList }
      (.text { text := "page {{ number }}".toList } .done)
      { text := "{% endblock %}".toList } .done
  extends_parent := by decide +kernel
  wellNested := by decide +kernel
  onlyBlocks := by decide +kernel

/-- The engine where the template between the cover and the frame has no title. -/
def footers : Engine where
  templates := [("frame".toList, frame.source), ("middle".toList, Nesting.outText footer.lines),
    (mainName, Nesting.outText cover.lines)]

/-- A template over the frame with this body for its title, and a foot. -/
def titled (body : Text) : Engine where
  templates := [("frame".toList, frame.source), ("includes/tag".toList, "{{ tag }}".toList),
    (mainName, "\x7b% extends \"frame\" %\x7d{% block title %}".toList ++ body ++
      "{% endblock %}{% block foot %}the end{% endblock %}".toList)]

/-- Bodies that do not end where they should: one that includes a value which looks like a tag, one
where the label of a closing tag is a loop variable, and one that is not well nested. -/
def endless : List Text :=
  ["\x7b% include \"tag\" %\x7d".toList,
    "{% for x in xs %}{% block x %}{{ x }}{% endblock x %}{% endfor %}".toList,
    "{% if xs %}title".toList]

/-- A value that looks like a tag, and a list. -/
def tags : Context := Context.ofList
  [("tag".toList, .str "{% block none %}".toList), ("xs".toList, .list [.str "a".toList])]

end Engine

end Stencil
