import Stencil.Proofs.Nesting.Page
import Stencil.Proofs.Scope.Loops

/-!
# A nest of loops in an iteration

An iteration resolves the variable of its loop in the text of the inner loops too, in their headers
and in their bodies. What comes out is again a nest of loops over lists with variables that are told
apart, and by lexical scoping it renders to what the nest renders to with the variable bound
(`Nesting.renderBound_expand`, the substitution lemma).
-/

namespace Stencil

open Tag

/-! ## Paths in an iteration -/

namespace Iteration

variable {it : Iteration} {p w : Text}

/-- The header of an inner loop in the iteration. -/
def resolveHeader (it : Iteration) (header : LoopHeader) : LoopHeader :=
  ⟨header.variableName, it.resolved header.collection⟩

/-- The loop of the header is inside the one of the iteration, and the variable of each is told
apart from the collection of the other. -/
structure IsAround (it : Iteration) (header : LoopHeader) : Prop where
  identifier : header.variableName.IsIdentifier
  collection : header.variableName ∉ Context.segments it.header.collection
  leads : Context.OnlyLeads it.header.variableName header.collection

namespace IsIndexed

variable (hit : it.IsIndexed)
include hit

theorem segments_resolved (hl : Context.OnlyLeads it.header.variableName p) :
    ∀ s ∈ Context.segments (it.resolved p), s ∈ Context.segments p ∨
      s ∈ Context.segments it.header.collection ∨ s = it.key := by
  intro s hs
  obtain ⟨root, rest, hp, -⟩ := Context.exists_segments p
  by_cases hroot : root = it.header.variableName
  · subst hroot
    rw [segments_resolved_of_leads hp (hl.rest_ne hp),
      segments_element hit.isProper.key_dotless] at hs
    rw [hp]
    simp only [List.mem_append, List.mem_cons, List.not_mem_nil, or_false] at hs ⊢
    rcases hs with (hs | hs) | hs
    · exact .inr (.inl hs)
    · exact .inr (.inr hs)
    · exact .inl (.inr hs)
  · rw [resolved_of_not_leads hl (by rw [hp]; simpa using hroot)] at hs
    exact .inl hs

/-- The variable of an inner loop leads a resolved path only where it led the path. -/
theorem onlyLeads_resolved {header : LoopHeader} (hh : it.IsAround header)
    (hl : Context.OnlyLeads it.header.variableName p)
    (h : Context.OnlyLeads header.variableName p) :
    Context.OnlyLeads header.variableName (it.resolved p) := by
  obtain ⟨root, rest, hp, hlater⟩ := Context.exists_segments p
  by_cases hroot : root = it.header.variableName
  · subst hroot
    have hnot : header.variableName ∉ Context.segments (it.resolved p) := by
      rw [segments_resolved_of_leads hp (hl.rest_ne hp),
        segments_element hit.isProper.key_dotless]
      simp only [List.mem_append, List.mem_cons, List.not_mem_nil, or_false, not_or]
      exact ⟨⟨hh.collection, hit.key_ne hh.identifier⟩, hlater ▸ h.not_later⟩
    refine ⟨fun hm => hnot (List.mem_of_mem_tail hm), fun heq => hnot ?_⟩
    rw [heq, Context.segments, Text.splitOn_append, Text.splitOn_of_not_mem hh.identifier.dotless]
    exact List.mem_append_left _ List.mem_cons_self
  · rw [resolved_of_not_leads hl (by rw [hp]; simpa using hroot)]
    exact h

/-- **Headers stay told apart** when their collections are resolved. -/
theorem isApart_resolveHeader {outer : List LoopHeader} {header : LoopHeader}
    (ho : ∀ g ∈ outer, it.IsAround g) (h : header.IsApart (outer ++ [it.header])) :
    (it.resolveHeader header).IsApart (outer.map it.resolveHeader) := by
  have hmem : it.header ∈ outer ++ [it.header] := by simp
  have hinner : ∀ {g}, g ∈ outer → g ∈ outer ++ [it.header] := List.mem_append_left _
  refine ⟨h.identifier, h.not_keyword, ?_, ?_, ?_, ?_⟩ <;> intro g' hg' <;>
    obtain ⟨g, hg, rfl⟩ := List.mem_map.1 hg'
  · exact h.not_in g (hinner hg)
  · exact h.names g (hinner hg)
  · intro hm
    rcases hit.segments_resolved (ho g hg).leads _ hm with hm | hm | hm
    · exact h.collections g (hinner hg) hm
    · exact h.collections _ hmem hm
    · exact hit.key_ne h.identifier hm
  · exact (hit.onlyLeads_resolved (ho g hg) (h.leads _ hmem) (h.leads g (hinner hg)) :)

end IsIndexed

end Iteration

/-! ## Lines in an iteration -/

namespace Iteration

variable {it : Iteration}

theorem isPath_of_mem_references {t : Text} (ht : t.IsPassage) {p : Text} (hp : p ∈ t.references) :
    LoopHeader.isPath p = true := by
  obtain ⟨tag, htag, rfl⟩ := List.mem_map.1 hp
  exact (Bool.and_eq_true_iff.1 (ht.isReference tag htag)).2

theorem IsIndexed.suits (hit : it.IsIndexed) {t : Text} (ht : t.IsPassage)
    (hl : ∀ p ∈ t.references, Context.OnlyLeads it.header.variableName p) : it.Suits t where
  identifier := hit.identifier
  passage := ht
  leads := hl
  content p hp :=
    isContent_of_isPath (hit.isPath_resolved (isPath_of_mem_references ht hp) (hl p hp).not_later)

/-- **A line of text stays one**, and its references are resolved. -/
theorem IsIndexed.isPassage_expandLine (hit : it.IsIndexed) {line : Line}
    (hr : line.rendered = false) (ht : line.text.IsPassage)
    (hl : ∀ p ∈ line.text.references, Context.OnlyLeads it.header.variableName p) (depth : Nat) :
    (it.expandLine depth line).text.IsPassage ∧
      ∀ p' ∈ (it.expandLine depth line).text.references,
        ∃ p ∈ line.text.references, p' = it.resolved p := by
  have hsuits := hit.suits ht hl
  obtain ⟨hpassage, hrefs⟩ := hsuits.isPassage_resolveText fun p hp =>
    hit.isPath_resolved (isPath_of_mem_references ht hp) (hl p hp).not_later
  have hmem : ∀ p' ∈ (it.resolveText line.text).references,
      ∃ p ∈ line.text.references, p' = it.resolved p := by
    intro p' hp'
    rw [hrefs] at hp'
    obtain ⟨p, hp, rfl⟩ := List.mem_map.1 hp'
    exact ⟨p, hp, rfl⟩
  rw [text_expandLine hr]
  rcases expandText_cases it depth line.text with heq | heq <;> rw [heq]
  · have hnumbered := it.isPassage_numbered hpassage
    exact ⟨hnumbered.1, fun p' hp' => hmem p' (hnumbered.2 p' hp')⟩
  · exact ⟨hpassage, hmem⟩

end Iteration

namespace Nesting

variable {it : Iteration}

/-! ## Trees in an iteration -/

theorem depthBehind_of_passage {line : Line} (h : line.text.IsPassage) (depth : Nat) :
    Iteration.depthAt depth line = depth ∧ Iteration.depthBehind depth line = depth := by
  have hcloses : Directive.loop.closesIn line.text = false :=
    Bool.eq_false_iff.2 fun hc => h.no_keyword (opening_infix_of_bare hc)
  have hopens : Directive.loop.occursIn line.text = false :=
    Bool.eq_false_iff.2 fun ho => h.no_keyword (opening_infix_of_keyword ho)
  simp [Iteration.depthBehind, Iteration.depthAt, hcloses, hopens]

theorem depthBehind_of_opens {line : Line} (h : line.Opens .loop) (depth : Nat) :
    Iteration.depthAt depth line = depth ∧ Iteration.depthBehind depth line = depth + 1 := by
  have hcloses : Directive.loop.closesIn line.text = false := by
    rw [← Bool.not_eq_true, ← mem_closed_iff rfl, h.closed]
    simp
  have hopens : Directive.loop.occursIn line.text = true := by
    rw [← mem_opened_iff rfl, h.opened]
    simp
  simp [Iteration.depthBehind, Iteration.depthAt, hcloses, hopens]

theorem depthBehind_of_closes {line : Line} (h : line.Closes .loop) (depth : Nat) :
    Iteration.depthAt (depth + 1) line = depth ∧ Iteration.depthBehind (depth + 1) line = depth := by
  have hcloses : Directive.loop.closesIn line.text = true := by
    rw [← mem_closed_iff rfl, h.closed]
    simp
  have hopens : Directive.loop.occursIn line.text = false := by
    rw [← Bool.not_eq_true, ← mem_opened_iff rfl, h.opened]
    simp
  simp [Iteration.depthBehind, Iteration.depthAt, hcloses, hopens]

/-- Behind a nest of loops there are as many loops around as before it. -/
theorem depthBehind_of_isLoops {n : Nesting} (h : n.IsLoops) (depth : Nat) :
    n.depthBehind depth = depth := by
  unfold depthBehind
  induction n generalizing depth with
  | done => rfl
  | text line rest ih =>
    rw [lines, List.foldl_cons, (depthBehind_of_passage h.1.2 depth).2, ih h.2]
  | span d opening body closing rest ihb ihr =>
    obtain ⟨⟨rfl, ho, hc⟩, hb, hr⟩ := h
    rw [lines, List.foldl_cons, List.foldl_append, List.foldl_cons,
      (depthBehind_of_opens ho.opens depth).2, ihb hb, (depthBehind_of_closes hc.closes depth).2,
      ihr hr]

theorem expand_text {line : Line} (h : line.text.IsPassage) (rest : Nesting) (depth : Nat) :
    (text line rest).expand it depth = text (it.expandLine depth line) (rest.expand it depth) := by
  rw [expand, (depthBehind_of_passage h depth).1, (depthBehind_of_passage h depth).2]

/-- A loop in an iteration: the tag that closes it stays as it is. -/
theorem expand_loop (hit : it.IsIndexed) {opening closing : Line} (ho : opening.OpensLoop)
    (hc : closing.ClosesLoop) {body : Nesting} (hb : body.IsLoops) (rest : Nesting) (depth : Nat) :
    (span .loop opening body closing rest).expand it depth =
      span .loop (it.expandLine depth opening) (body.expand it (depth + 1)) closing
        (rest.expand it depth) := by
  rw [expand]
  simp only [(depthBehind_of_opens ho.opens depth).1, (depthBehind_of_opens ho.opens depth).2,
    depthBehind_of_isLoops hb, (depthBehind_of_closes hc.closes depth).1,
    (depthBehind_of_closes hc.closes depth).2, hit.expandLine_of_closesLoop hc]

theorem blank_expandLine (depth : Nat) (line : Line) :
    (it.expandLine depth line).blank = line.blank := by
  unfold Line.blank
  rw [Iteration.glued_expandLine]

/-- An iteration changes nothing but texts. -/
theorem map_blank_expand (n : Nesting) (depth : Nat) :
    (n.expand it depth).lines.map Line.blank = n.lines.map Line.blank := by
  induction n generalizing depth with
  | done => rfl
  | text line rest ih => simp [expand, lines, blank_expandLine, ih]
  | span d opening body closing rest ihb ihr =>
    simp [expand, lines, blank_expandLine, ihb, ihr]

theorem separator_expand (n : Nesting) (depth : Nat) :
    Render.separator (n.expand it depth).lines = Render.separator n.lines := by
  have key : ∀ ls : List Line,
      Render.separator ls = if ((ls.map Line.blank).head?.map Line.glued).getD false then []
        else ['\n'] := by
    intro ls
    cases ls <;> rfl
  rw [key, map_blank_expand, ← key]

theorem consumed_expand (opening : Line) (n : Nesting) (closing : Line) (depth depth' : Nat) :
    consumed (it.expandLine depth' opening) (n.expand it depth) closing =
      consumed opening n closing := by
  unfold consumed
  rw [map_blank_expand, blank_expandLine]

/-! ## Inner loops in an iteration -/

/-- The elements of a resolved collection are those of the collection once the variable is bound. -/
theorem elements_resolveHeader {header : LoopHeader} {context bound : Context}
    (hb : it.Binds context bound)
    (hl : Context.OnlyLeads it.header.variableName header.collection) :
    (it.resolveHeader header).elements context = header.elements bound := by
  unfold LoopHeader.elements
  rw [Iteration.resolveHeader, hb.get?_resolved hl]
  cases hget : bound.get? header.collection with
  | some value => rfl
  | none =>
    -- a path that the variable leads goes on behind it, since the variable is bound
    obtain ⟨root, rest, hs, -⟩ := Context.exists_segments header.collection
    by_cases hroot : root = it.header.variableName
    · subst hroot
      have hdot : '.' ∈ header.collection := by
        by_contra hdot
        obtain ⟨x, hx, -⟩ := hb.element
        rw [Context.segments, Text.splitOn_of_not_mem hdot] at hs
        obtain ⟨hroot, rfl⟩ := List.cons.inj hs
        rw [Context.get?_of_segments (Text.splitOn_of_not_mem hdot), hroot, hx] at hget
        cases hget
      have hdot' : '.' ∈ it.resolved header.collection := by
        rw [Iteration.resolved_of_leads hs (hl.rest_ne hs)]
        split
        · exact Iteration.dot_mem_element
        · exact List.mem_append_left _ Iteration.dot_mem_element
      simp [LoopHeader.isNested, hdot, hdot']
    · rw [Iteration.resolved_of_not_leads hl (by rw [hs]; simpa using hroot)]

section Inner

variable (hit : it.IsIndexed)
include hit

/-- The header of an inner loop is told apart, and the iteration resolves its collection. -/
theorem exists_header {outer : List LoopHeader} {opening : Line} (ho : opening.OpensLoop)
    {body : Nesting} (ha : ∀ header ∈ opening.header?, header.IsApart (outer ++ [it.header]) ∧
      body.Apart (header :: (outer ++ [it.header]))) :
    ∃ header, opening.header? = some header ∧ header.IsApart (outer ++ [it.header]) ∧
      body.Apart ((header :: outer) ++ [it.header]) ∧
      ∀ depth, (it.expandLine depth opening).OpensLoop ∧
        (it.expandLine depth opening).header? = some (it.resolveHeader header) := by
  obtain ⟨header, hheader⟩ := Option.isSome_iff_exists.1 ho.header
  obtain ⟨hapart, hbody⟩ := ha header hheader
  have hmem : it.header ∈ outer ++ [it.header] := by simp
  exact ⟨header, hheader, hapart, hbody, hit.header?_expandLine ho hheader hapart.identifier
    (hapart.leads _ hmem) (hapart.names _ hmem) (hapart.not_in _ hmem)⟩

/-- **A nest of loops stays one.** -/
theorem isLoops_expand (outer : List LoopHeader) {n : Nesting} (hn : n.IsLoops)
    (ha : n.Apart (outer ++ [it.header])) (depth : Nat) : (n.expand it depth).IsLoops := by
  induction n generalizing outer depth with
  | done => trivial
  | text line rest ih =>
    obtain ⟨⟨hr, ht⟩, hrest⟩ := hn
    rw [expand_text ht]
    refine ⟨⟨by rw [Iteration.rendered_expandLine, hr], ?_⟩, ih _ hrest ha.2 depth⟩
    exact (hit.isPassage_expandLine hr ht (fun p hp => ha.1 p hp _ (by simp)) depth).1
  | span d opening body closing rest ihb ihr =>
    obtain ⟨⟨rfl, ho, hc⟩, hb, hr⟩ := hn
    obtain ⟨header, -, -, hbody, hexpand⟩ := exists_header hit ho ha.1
    rw [expand_loop hit ho hc hb]
    exact ⟨⟨rfl, (hexpand depth).1, hc⟩, ihb _ hb hbody _, ihr _ hr ha.2 depth⟩

/-- **The variables stay told apart**, from the resolved collections too. -/
theorem apart_expand (outer : List LoopHeader) {n : Nesting} (hn : n.IsLoops)
    (ho : ∀ h ∈ outer, it.IsAround h) (ha : n.Apart (outer ++ [it.header])) (depth : Nat) :
    (n.expand it depth).Apart (outer.map it.resolveHeader) := by
  induction n generalizing outer depth with
  | done => trivial
  | text line rest ih =>
    obtain ⟨⟨hr, ht⟩, hrest⟩ := hn
    have hleads := fun p hp => ha.1 p hp it.header (by simp)
    rw [expand_text ht]
    refine ⟨fun p' hp' h' hh' => ?_, ih _ hrest ho ha.2 depth⟩
    obtain ⟨p, hp, rfl⟩ := (hit.isPassage_expandLine hr ht hleads depth).2 p' hp'
    obtain ⟨h, hh, rfl⟩ := List.mem_map.1 hh'
    exact (hit.onlyLeads_resolved (ho h hh) (hleads p hp) (ha.1 p hp h (by simp [hh])) :)
  | span d opening body closing rest ihb ihr =>
    obtain ⟨⟨rfl, hopening, hc⟩, hb, hr⟩ := hn
    obtain ⟨header, -, hapart, hbody, hexpand⟩ := exists_header hit hopening ha.1
    rw [expand_loop hit hopening hc hb]
    refine ⟨fun header' hheader' => ?_, ihr _ hr ho ha.2 depth⟩
    rw [(hexpand depth).2] at hheader'
    obtain rfl := Option.some.inj hheader'
    refine ⟨hit.isApart_resolveHeader ho hapart, ihb (header :: outer) hb ?_ hbody _⟩
    intro h hh
    rcases List.mem_cons.1 hh with rfl | hh
    · exact ⟨hapart.identifier, hapart.collections _ (by simp), hapart.leads _ (by simp)⟩
    · exact ho h hh

/-- **The loops still run through lists** in the context in which nothing is bound. -/
theorem overLists_expand (outer : List LoopHeader) {n : Nesting} (hn : n.IsLoops)
    (ha : n.Apart (outer ++ [it.header])) {context bound : Context} (hb : it.Binds context bound)
    (hl : n.OverLists bound) (depth : Nat) : (n.expand it depth).OverLists context := by
  induction n generalizing outer context bound depth with
  | done => trivial
  | text line rest ih =>
    rw [expand_text hn.1.2]
    exact ih _ hn.2 ha.2 hb hl depth
  | span d opening body closing rest ihb ihr =>
    obtain ⟨⟨rfl, ho, hc⟩, hbody, hr⟩ := hn
    obtain ⟨header, hheader, hapart, habody, hexpand⟩ := exists_header hit ho ha.1
    have hmem : it.header ∈ outer ++ [it.header] := by simp
    rw [expand_loop hit ho hc hbody]
    refine ⟨fun header' hheader' value hvalue => ?_, ihr _ hr ha.2 hb hl.2 depth⟩
    rw [(hexpand depth).2] at hheader'
    obtain rfl := Option.some.inj hheader'
    rw [Iteration.resolveHeader, hb.get?_resolved (hapart.leads _ hmem)] at hvalue
    obtain ⟨hsequence, helements⟩ := hl.1 header hheader value hvalue
    exact ⟨hsequence, fun x hx => ihb _ hbody habody
      (hb.insert (hapart.names _ hmem).symm (hapart.collections _ hmem) x) (helements x hx) _⟩

/-- **Resolving the variable of the outermost loop comes to binding it**, in any scope of inner
variables. -/
theorem renderBound_expand (outer : List LoopHeader) (scope : List (Text × Value))
    (hscope : scope.map Prod.fst = outer.map LoopHeader.variableName) {n : Nesting}
    (hn : n.IsLoops) (ha : n.Apart (outer ++ [it.header])) {context : Context} {x : Value}
    (hb : it.Binds (context.withScope scope)
      (context.withScope (scope ++ [(it.header.variableName, x)])))
    (engine : Engine) (position : Nat) :
    (n.expand it outer.length).renderBound engine context scope position =
      n.renderBound engine context (scope ++ [(it.header.variableName, x)])
        (if outer = [] then it.position else position) := by
  induction n generalizing outer scope position with
  | done => rfl
  | text line rest ih =>
    obtain ⟨⟨hr, ht⟩, hrest⟩ := hn
    have hsuits := hit.suits ht fun p hp => ha.1 p hp it.header (by simp)
    have hline : ((it.expandLine outer.length line).numberedIn
          (outer.map LoopHeader.variableName) position).rewrite engine (context.withScope scope) =
        (line.numberedIn (outer.map LoopHeader.variableName ++ [it.header.variableName])
          (if outer = [] then it.position else position)).rewrite engine
            (context.withScope (scope ++ [(it.header.variableName, x)])) := by
      by_cases hnil : outer = []
      · subst hnil
        exact Iteration.rewrite_expandLine hsuits hr hb
      · have hnames : outer.map LoopHeader.variableName ≠ [] := by simpa using hnil
        have hinside := Iteration.rewrite_numberedIn_inside hsuits hr hb engine hnames position
        rw [List.length_map] at hinside
        rw [if_neg hnil, hinside]
    rw [expand_text ht, renderBound, renderBound, ih _ _ hscope hrest ha.2 hb, List.map_append,
      hscope, List.map_singleton, hline]
  | span d opening body closing rest ihb ihr =>
    obtain ⟨⟨rfl, ho, hc⟩, hbody, hr⟩ := hn
    obtain ⟨header, hheader, hapart, habody, hexpand⟩ := exists_header hit ho ha.1
    have hmem : it.header ∈ outer ++ [it.header] := by simp
    have hbodies : ∀ i y, (body.expand it (outer.length + 1)).renderBound engine context
          ((header.variableName, y) :: scope) i =
        body.renderBound engine context
          ((header.variableName, y) :: (scope ++ [(it.header.variableName, x)])) i := fun i y =>
      ihb (header :: outer) ((header.variableName, y) :: scope) (by simp [hscope]) hbody habody
        (hb.insert (hapart.names _ hmem).symm (hapart.collections _ hmem) y) i
    rw [expand_loop hit ho hc hbody, renderBound_span_of_some (hexpand _).2,
      renderBound_span_of_some hheader, ihr _ _ hscope hr ha.2 hb]
    simp only [loopLines, elements_resolveHeader hb (hapart.leads _ hmem), separator_expand,
      consumed_expand]
    simp only [Iteration.resolveHeader, hbodies]

end Inner

end Nesting

end Stencil
