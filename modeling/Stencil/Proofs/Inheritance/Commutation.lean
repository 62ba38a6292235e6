import Stencil.Proofs.Inheritance.Refill

/-!
# Two slots, filled in either order

The contents of two slots are put in one after the other. The slots are apart, or one of them is in
the body of the other, since a body that is opened inside another one is closed no later
(`closesAt_inside`). If they are apart, the lines are the same in either order. If one is inside the
other, it is gone when the outer one is filled first; otherwise its content is consumed with the rest
of the body, as one more line that is discarded. Such a line can still break a line: the content of
the outer slot then continues the line before it in one order and not in the other. This takes a
tag that opens one block and closes another. `put_comm_iff` says exactly when it happens
(`Layer.Clashes`); otherwise the order does not matter.
-/

namespace Stencil

open Nesting

namespace Layer

/-- The layer with the slot of that name filled, if it has one. -/
def put (layer : Layer) (name content : Text) : Layer :=
  match layer.slot? name with
  | some slot => layer.fillSlot slot content
  | none => layer

/-- **Two slots clash**: the tag of the inner one is the last line in the body of the outer one, and
one tag closes both. Up to that tag the body continues the line of the outer tag, the closing tag
begins a line, and the content of the outer slot shows. -/
def Clashes (layer : Layer) (outer inner content : Text) : Prop :=
  ∃ before opening body tag closing behind,
    layer.lines = before ++ opening :: (body ++ tag :: closing :: behind) ∧
    layer.slot? outer = some ⟨before.length, before.length + 1 + body.length + 1⟩ ∧
    layer.slot? inner =
      some ⟨before.length + 1 + body.length, before.length + 1 + body.length + 1⟩ ∧
    (∀ line ∈ body ++ [tag], line.glued = true) ∧ closing.glued = false ∧
    Text.isBlank content = false

variable {layer : Layer} {name a b : Text} {kind : LayerKind} {opening closing : Line}
  {before body behind rest lines : List Line}

/-- Where the tags of two slots that clash are. -/
theorem Clashes.slots {outer inner content : Text} (h : layer.Clashes outer inner content) :
    ∃ slot slot', layer.slot? outer = some slot ∧ layer.slot? inner = some slot' ∧
      slot.opening < slot'.opening ∧ slot'.closing = slot'.opening + 1 ∧
      slot'.closing = slot.closing := by
  obtain ⟨before, opening, body, tag, closing, behind, -, hslot, hslot', -⟩ := h
  refine ⟨_, _, hslot, hslot', ?_, rfl, rfl⟩
  simp only
  omega

/-! ## Filling by the lines -/

/-- The lines behind the tag that opens a block, with its body filled if it is closed. -/
def filledFrom (content : Text) (rest : List Line) : List Line :=
  match closingFrom? 1 rest with
  | some k =>
    (rest.take k).map Line.blank ++
      Line.fill { text := [], glued := (rest.head?.map Line.glued).getD false } content :: rest.drop k
  | none => rest

theorem filledFrom_of_closesAt (h : ClosesAt .block 1 body closing) (content : Text)
    (behind : List Line) :
    filledFrom content (body ++ closing :: behind) =
      body.map Line.blank ++ contentLine body closing content :: closing :: behind := by
  have hk : closingFrom? 1 (body ++ closing :: behind) = some body.length :=
    (closingFrom?_eq_some_iff Nat.one_pos).2 ⟨body, closing, behind, rfl, rfl, h⟩
  have hhead : (body ++ closing :: behind).head? = (body ++ [closing]).head? := by
    cases body <;> rfl
  unfold filledFrom contentLine
  rw [hk, hhead]
  simp only [List.take_left', List.drop_left']

theorem filledFrom_of_staysOpen (h : StaysOpen .block 1 rest) (content : Text) :
    filledFrom content rest = rest := by
  unfold filledFrom
  rw [(closingFrom?_eq_none_iff Nat.one_pos).2 h]

theorem put_of_not_opened (h : ∀ line ∈ layer.lines, opensBlock name line = false)
    (content : Text) : layer.put name content = layer := by
  unfold put
  rw [slot?_eq_none_iff.2 (.inl h)]

theorem opening_of_slot? (hbefore : ∀ line ∈ before, opensBlock name line = false)
    (ho : opensBlock name opening = true) {rest : List Line} {slot : Slot}
    (h : slot? ⟨kind, before ++ opening :: rest⟩ name = some slot) : slot.opening = before.length := by
  obtain ⟨before', opening', body, closing, behind, hl, rfl, hbefore', ho', -⟩ := slot?_eq_some_iff.1 h
  have hfirst := findIdx?_opensBlock_eq_some_iff.2 ⟨before, opening, rest, rfl, rfl, hbefore, ho⟩
  have hfirst' := findIdx?_opensBlock_eq_some_iff.2 ⟨_, _, _, hl, rfl, hbefore', ho'⟩
  exact Option.some.inj (hfirst'.symm.trans hfirst)

theorem slot?_of_closesAt (kind : LayerKind) (behind : List Line)
    (hbefore : ∀ line ∈ before, opensBlock name line = false)
    (ho : opensBlock name opening = true) (hc : ClosesAt .block 1 body closing) :
    slot? ⟨kind, before ++ opening :: (body ++ closing :: behind)⟩ name =
      some ⟨before.length, before.length + 1 + body.length⟩ :=
  slot?_eq_some_iff.2 ⟨before, opening, body, closing, behind, rfl, rfl, hbefore, ho, hc⟩

/-- **Filling the slot of the first tag of that name.** -/
theorem put_of_opening (hbefore : ∀ line ∈ before, opensBlock name line = false)
    (ho : opensBlock name opening = true) (content : Text) :
    put ⟨kind, before ++ opening :: rest⟩ name content =
      ⟨kind, before ++ opening :: filledFrom content rest⟩ := by
  unfold put
  rcases staysOpen_or_exists_closesAt .block Nat.one_pos rest with hs | ⟨body, closing, behind, rfl, hc⟩
  · rw [slot?_eq_none_iff.2 (.inr ⟨before, opening, rest, rfl, hbefore, ho, hs⟩),
      filledFrom_of_staysOpen hs]
  · rw [slot?_eq_some_iff.2 ⟨before, opening, body, closing, behind, rfl, rfl, hbefore, ho, hc⟩,
      filledFrom_of_closesAt hc]
    exact fillSlot_eq kind before opening body closing behind content

/-- No block is opened by a line that is put in. -/
theorem not_opened_filledFrom (h : ∀ line ∈ rest, opensBlock name line = false) (content : Text) :
    ∀ line ∈ filledFrom content rest, opensBlock name line = false := by
  rcases staysOpen_or_exists_closesAt .block Nat.one_pos rest with hs | ⟨body, closing, behind, rfl, hc⟩
  · rwa [filledFrom_of_staysOpen hs]
  · rw [filledFrom_of_closesAt hc]
    intro line hl
    have hl' : line ∈ (body.map Line.blank ++ [contentLine body closing content]) ∨
        line ∈ closing :: behind := by
      simpa [or_assoc] using hl
    rcases hl' with hl | hl
    · exact opensBlock_of_uncounted (uncounted_filled _ _ _ _ line hl) name
    · exact h line (List.mem_append_right body hl)

theorem not_opened_put (h : ∀ line ∈ layer.lines, opensBlock name line = false)
    (other content : Text) : ∀ line ∈ (layer.put other content).lines,
      opensBlock name line = false := by
  obtain ⟨kind, lines⟩ := layer
  cases hi : lines.findIdx? (opensBlock other) with
  | none => rwa [put_of_not_opened (List.findIdx?_eq_none_iff.1 hi)]
  | some i =>
    obtain ⟨before, opening, behind, rfl, -, hbefore, ho⟩ := findIdx?_opensBlock_eq_some_iff.1 hi
    rw [put_of_opening hbefore ho]
    intro line hl
    rcases List.mem_append.1 hl with hl | hl
    · exact h line (List.mem_append_left _ hl)
    rcases List.mem_cons.1 hl with rfl | hl
    · exact h line (by simp)
    · exact not_opened_filledFrom (fun l hm => h l (by simp [hm])) content line hl

/-! ## A slot in the body of another -/

/-- What is put into a block does not matter for whether a block around it stays open. -/
theorem staysOpen_filledFrom_iff {depth : Nat} (before : List Line) (content : Text) :
    StaysOpen .block depth (before ++ filledFrom content rest) ↔
      StaysOpen .block depth (before ++ rest) := by
  rcases staysOpen_or_exists_closesAt .block Nat.one_pos rest with hs | ⟨body, closing, behind, rfl, hc⟩
  · rw [filledFrom_of_staysOpen hs]
  · rw [filledFrom_of_closesAt hc, hc.balanced.staysOpen_congr
      (balanced_of_uncounted (uncounted_filled .block body closing content)) before
      (closing :: behind)]
    simp

/-- **A block in the body of another one** is closed by the same line, or before it. -/
theorem closesAt_inside {tag : Line} (h : ClosesAt .block 1 (before ++ tag :: body) closing)
    (ht : tag.opensBody .block = true) :
    ClosesAt .block 1 body closing ∨
      ∃ inner last behind, body = inner ++ last :: behind ∧ ClosesAt .block 1 inner last := by
  rcases staysOpen_or_exists_closesAt .block Nat.one_pos body with hs | hc
  · -- the block around it is at least as deep, and one line closes no more than one
    left
    refine ⟨hs, ?_⟩
    obtain ⟨hclose, hopen⟩ := h.closing_eq
    rw [closesAt_append_iff, closesAt_cons_iff] at h
    obtain ⟨-, hpos, hc⟩ := h
    have hdepth := hc.staysOpen.pos
    have hclosed := hc.closed
    have hbody := hs body List.prefix_rfl
    have hone := (tag.closesBody .block).toNat_le
    simp only [Line.depthBehind, ht, Bool.toNat_true, closings_append, closings_cons, closings_nil,
      openings_append, openings_cons, openings_nil, hclose, hopen, Bool.toNat_false] at *
    omega
  · exact .inr hc

/-- A block that is opened first stays open, or it is closed before the other one is opened, or the
other one is in its body. -/
theorem closesAt_or_inside {tag : Line} (between rest : List Line)
    (ht : tag.opensBody .block = true) :
    StaysOpen .block 1 (between ++ tag :: rest) ∨
      (∃ body closing behind, between = body ++ closing :: behind ∧ ClosesAt .block 1 body closing) ∨
      ∃ body closing behind, rest = body ++ closing :: behind ∧
        ClosesAt .block 1 (between ++ tag :: body) closing := by
  rcases staysOpen_or_exists_closesAt .block Nat.one_pos between with hs | hc
  · have hlt := hs between List.prefix_rfl
    have hone := (tag.closesBody .block).toNat_le
    have hpos : 0 < tag.depthBehind .block (1 + openings .block between - closings .block between) := by
      rw [Line.depthBehind, ht, Bool.toNat_true]
      omega
    have hdepth : 0 < 1 + openings .block between - closings .block between := by omega
    rcases staysOpen_or_exists_closesAt .block hpos rest with hr | ⟨body, closing, behind, rfl, hc⟩
    · exact .inl (staysOpen_append_iff.2 ⟨hs, staysOpen_cons_iff.2 ⟨hdepth, hr⟩⟩)
    · exact .inr (.inr ⟨body, closing, behind, rfl,
        closesAt_append_iff.2 ⟨hs, closesAt_cons_iff.2 ⟨hdepth, hc⟩⟩⟩)
  · exact .inr (.inl hc)

/-! ## What is left in either order -/

theorem clean_eq_iff (h : opening.discarded = false) (kind : LayerKind) (before lines rest : List Line) :
    clean ⟨kind, before ++ opening :: lines⟩ = clean ⟨kind, before ++ opening :: rest⟩ ↔
      cleanFrom false lines = cleanFrom false rest := by
  unfold clean
  rw [cleanFrom_append_cons h, cleanFrom_append_cons h false before rest]
  simp

/-- A discarded line among others does not matter if it is glued, or if another one is not. -/
theorem cleanFrom_discarded_insert {line : Line} (hline : line.discarded = true)
    (hbefore : ∀ line ∈ before, line.discarded = true)
    (hbehind : ∀ line ∈ behind, line.discarded = true)
    (h : (before ++ behind).all Line.glued = true → line.glued = true) (dropped : Bool)
    (tail : List Line) :
    cleanFrom dropped (before ++ line :: (behind ++ tail)) =
      cleanFrom dropped (before ++ (behind ++ tail)) := by
  rw [cleanFrom_discarded hbefore, cleanFrom_cons_of_discarded hline, cleanFrom_discarded hbehind,
    cleanFrom_discarded hbefore, cleanFrom_discarded hbehind]
  congr 1
  rw [List.all_append] at h
  cases hb : before.all Line.glued <;> cases hc : behind.all Line.glued <;> simp_all

/-- A line end before a content that continues its line is seen, unless the content is discarded and
the line behind it begins a line. -/
theorem cleanFrom_broken_iff {line : Line} (hl : line.glued = true) (hc : closing.glued = false)
    (behind : List Line) :
    cleanFrom false (line :: closing :: behind) = cleanFrom true (line :: closing :: behind) ↔
      line.discarded = true := by
  cases hd : line.discarded with
  | true =>
    have hunglued : ∀ dropped, cleanFrom dropped (closing :: behind) =
        cleanFrom true (closing :: behind) := by
      intro dropped
      simp [cleanFrom, hc]
    rw [cleanFrom_cons_of_discarded hd, cleanFrom_cons_of_discarded hd, hunglued, hunglued]
    simp
  | false => simp [cleanFrom, hd, hl]

theorem discarded_of_mem_map_blank : ∀ line ∈ lines.map Line.blank, line.discarded = true := by
  intro line hl
  obtain ⟨l, -, rfl⟩ := List.mem_map.1 hl
  exact Line.discarded_blank l

theorem all_glued_map_blank (lines : List Line) :
    (lines.map Line.blank).all Line.glued = lines.all Line.glued := by
  rw [List.all_map]
  rfl

/-! ## The two orders -/

section Orders

variable {tag : Line} {between : List Line} (ha : opensBlock a opening = true)
  (hb : opensBlock b tag = true) (hna : ∀ line ∈ before, opensBlock a line = false)
  (hnb : ∀ line ∈ before ++ opening :: between, opensBlock b line = false) (A B : Text)
include hb hnb

theorem put_second (kind : LayerKind) (content : Text) :
    put ⟨kind, before ++ opening :: (between ++ tag :: rest)⟩ b content =
      ⟨kind, before ++ opening :: (between ++ tag :: filledFrom content rest)⟩ := by
  rw [← List.cons_append, ← List.append_assoc, put_of_opening hnb hb, List.append_assoc,
    List.cons_append]

include ha hna

/-- The first block is not closed. -/
theorem put_comm_of_staysOpen (kind : LayerKind)
    (hs : StaysOpen .block 1 (between ++ tag :: rest)) :
    (put ⟨kind, before ++ opening :: (between ++ tag :: rest)⟩ a A).put b B =
      (put ⟨kind, before ++ opening :: (between ++ tag :: rest)⟩ b B).put a A := by
  have hs' : StaysOpen .block 1 (between ++ tag :: filledFrom B rest) := by
    rw [← List.singleton_append, ← List.append_assoc, staysOpen_filledFrom_iff]
    simpa using hs
  rw [put_of_opening hna ha, filledFrom_of_staysOpen hs, put_second hb hnb, put_of_opening hna ha,
    filledFrom_of_staysOpen hs']

/-- The first block is closed before the second one is opened. -/
theorem put_comm_of_apart (kind : LayerKind) (hc : ClosesAt .block 1 body closing)
    (hbetween : between = body ++ closing :: behind) :
    (put ⟨kind, before ++ opening :: (between ++ tag :: rest)⟩ a A).put b B =
      (put ⟨kind, before ++ opening :: (between ++ tag :: rest)⟩ b B).put a A := by
  subst hbetween
  have hnb' : ∀ line ∈ before ++ opening :: (body.map Line.blank ++
      contentLine body closing A :: closing :: behind), opensBlock b line = false := by
    intro line hl
    have hl' : line ∈ (body.map Line.blank ++ [contentLine body closing A]) ∨
        line ∈ before ++ opening :: (body ++ closing :: behind) := by
      simp only [List.mem_append, List.mem_cons, List.not_mem_nil, or_false] at hl ⊢
      grind
    rcases hl' with hl | hl
    · exact opensBlock_of_uncounted (uncounted_filled _ _ _ _ line hl) b
    · exact hnb line hl
  have hfilled : ∀ tail, filledFrom A (body ++ closing :: behind ++ tail) =
      body.map Line.blank ++ contentLine body closing A :: closing :: behind ++ tail := by
    intro tail
    simpa using filledFrom_of_closesAt hc A (behind ++ tail)
  rw [put_of_opening hna ha, hfilled, put_second hb hnb', put_second hb hnb, put_of_opening hna ha,
    hfilled]

omit hb in
/-- The second block is in the body of the first one, which is filled first. -/
theorem put_put_inside (kind : LayerKind)
    (hc : ClosesAt .block 1 (between ++ tag :: body) closing)
    (hnr : ∀ line ∈ behind, opensBlock b line = false) :
    (put ⟨kind, before ++ opening :: (between ++ tag :: (body ++ closing :: behind))⟩ a A).put b B =
      ⟨kind, before ++ opening :: ((between ++ tag :: body).map Line.blank ++
        contentLine (between ++ tag :: body) closing A :: closing :: behind)⟩ := by
  have hassoc : between ++ tag :: (body ++ closing :: behind) =
      (between ++ tag :: body) ++ closing :: behind := by simp
  rw [put_of_opening hna ha, hassoc, filledFrom_of_closesAt hc]
  refine put_of_not_opened (fun line hl => ?_) B
  have hl' : line ∈ before ++ opening :: between ∨
      line ∈ (between ++ tag :: body).map Line.blank ++
        [contentLine (between ++ tag :: body) closing A] ∨ line = closing ∨ line ∈ behind := by
    simp only [List.mem_append, List.mem_cons, List.not_mem_nil, or_false] at hl ⊢
    grind
  rcases hl' with hl | hl | rfl | hl
  · exact hnb line hl
  · exact opensBlock_of_uncounted (uncounted_filled _ _ _ _ line hl) b
  · rw [← Bool.not_eq_true]
    intro ho
    exact absurd (opensBody_of_opensBlock ho) (by simp [hc.closing_eq.2])
  · exact hnr line hl

/-- The second block is in the body of the first one, and it is filled first. -/
theorem put_put_inside_swapped (kind : LayerKind) {filled : List Line}
    (hfilled : filledFrom B (body ++ closing :: behind) = filled ++ closing :: behind)
    (hc : ClosesAt .block 1 (between ++ tag :: filled) closing) :
    (put ⟨kind, before ++ opening :: (between ++ tag :: (body ++ closing :: behind))⟩ b B).put a A =
      ⟨kind, before ++ opening :: ((between ++ tag :: filled).map Line.blank ++
        contentLine (between ++ tag :: body) closing A :: closing :: behind)⟩ := by
  have hassoc : between ++ tag :: (filled ++ closing :: behind) =
      (between ++ tag :: filled) ++ closing :: behind := by simp
  have hcontent : contentLine (between ++ tag :: filled) closing A =
      contentLine (between ++ tag :: body) closing A := by
    cases between <;> rfl
  rw [put_second hb hnb, hfilled, put_of_opening hna ha, hassoc, filledFrom_of_closesAt hc, hcontent]

/-- The second block is closed before the first one is. -/
theorem clean_put_comm_of_nested (kind : LayerKind) {inner m : List Line} {last : Line}
    (hc : ClosesAt .block 1 (between ++ tag :: (inner ++ last :: m)) closing)
    (hinner : ClosesAt .block 1 inner last) (hnr : ∀ line ∈ behind, opensBlock b line = false) :
    ((put ⟨kind, before ++ opening :: (between ++ tag ::
        ((inner ++ last :: m) ++ closing :: behind))⟩ a A).put b B).clean =
      ((put ⟨kind, before ++ opening :: (between ++ tag ::
        ((inner ++ last :: m) ++ closing :: behind))⟩ b B).put a A).clean := by
  have hfilled : filledFrom B ((inner ++ last :: m) ++ closing :: behind) =
      (inner.map Line.blank ++ contentLine inner last B :: last :: m) ++ closing :: behind := by
    simpa using filledFrom_of_closesAt hinner B (m ++ closing :: behind)
  have hc' : ClosesAt .block 1 (between ++ tag ::
      (inner.map Line.blank ++ contentLine inner last B :: last :: m)) closing := by
    have h := (hinner.balanced.closesAt_congr
      (balanced_of_uncounted (uncounted_filled .block inner last B)) (between ++ [tag])
      (last :: m)).1 (by simpa using hc)
    simpa using h
  rw [put_put_inside ha hna hnb A B kind hc hnr,
    put_put_inside_swapped ha hb hna hnb A B kind hfilled hc',
    clean_eq_iff (discarded_of_opensBlock ha)]
  -- the content that is consumed continues the line before it as some other consumed line does
  have hglued : ((between ++ tag :: inner).map Line.blank ++ (last :: m).map Line.blank).all
      Line.glued = true → (contentLine inner last B).blank.glued = true := by
    rw [← List.map_append, all_glued_map_blank]
    intro hall
    have hmem : ∀ line ∈ inner ++ [last], line.glued = true := by
      intro line hl
      refine List.all_eq_true.1 hall line ?_
      simp only [List.mem_append, List.mem_cons, List.not_mem_nil, or_false] at hl ⊢
      tauto
    cases inner with
    | nil => exact hmem last (by simp)
    | cons first inner => exact hmem first (by simp)
  have hinsert := cleanFrom_discarded_insert (Line.discarded_blank (contentLine inner last B))
    discarded_of_mem_map_blank discarded_of_mem_map_blank hglued false
    (contentLine (between ++ tag :: (inner ++ last :: m)) closing A :: closing :: behind)
  have hblank : Line.blank ∘ Line.blank = Line.blank := rfl
  simpa [hblank] using hinsert.symm

/-- One line closes both blocks. The content that is consumed then stands right before the other one,
and matters if no line is broken before it. -/
theorem clean_put_comm_iff_of_shared (kind : LayerKind)
    (hc : ClosesAt .block 1 (between ++ tag :: body) closing) (hinner : ClosesAt .block 1 body closing)
    (hnr : ∀ line ∈ behind, opensBlock b line = false) :
    ((put ⟨kind, before ++ opening :: (between ++ tag ::
        (body ++ closing :: behind))⟩ a A).put b B).clean =
      ((put ⟨kind, before ++ opening :: (between ++ tag ::
        (body ++ closing :: behind))⟩ b B).put a A).clean ↔
      ¬ (body = [] ∧ (∀ line ∈ between ++ [tag], line.glued = true) ∧ closing.glued = false ∧
        Text.isBlank A = false) := by
  have hfilled : filledFrom B (body ++ closing :: behind) =
      (body.map Line.blank ++ [contentLine body closing B]) ++ closing :: behind := by
    simpa using filledFrom_of_closesAt hinner B behind
  have hc' : ClosesAt .block 1 (between ++ tag ::
      (body.map Line.blank ++ [contentLine body closing B])) closing := by
    have h := (hinner.balanced.closesAt_congr
      (balanced_of_uncounted (uncounted_filled .block body closing B)) (between ++ [tag])
      []).1 (by simpa using hc)
    simpa using h
  have hblank : Line.blank ∘ Line.blank = Line.blank := rfl
  have hlines : (between ++ tag :: (body.map Line.blank ++ [contentLine body closing B])).map
      Line.blank = (between ++ tag :: body).map Line.blank ++ [(contentLine body closing B).blank] := by
    simp [hblank]
  rw [put_put_inside ha hna hnb A B kind hc hnr,
    put_put_inside_swapped ha hb hna hnb A B kind hfilled hc',
    clean_eq_iff (discarded_of_opensBlock ha), hlines, List.append_assoc, List.singleton_append,
    cleanFrom_discarded discarded_of_mem_map_blank, cleanFrom_discarded discarded_of_mem_map_blank,
    cleanFrom_cons_of_discarded (Line.discarded_blank _), all_glued_map_blank, Bool.false_or]
  cases hall : (between ++ tag :: body).all Line.glued with
  | false =>
    refine iff_of_true rfl ?_
    rintro ⟨rfl, hglued, -⟩
    exact absurd (List.all_eq_true.2 hglued) (by simp [hall])
  | true =>
    have hmem := List.all_eq_true.1 hall
    have hcontent : (contentLine (between ++ tag :: body) closing A).glued = true := by
      cases between with
      | nil => exact hmem tag (by simp)
      | cons first between => exact hmem first (by simp)
    cases body with
    | cons first body =>
      have hfirst : (contentLine (first :: body) closing B).blank.glued = true :=
        hmem first (by simp)
      rw [hfirst]
      exact iff_of_true rfl fun h => List.cons_ne_nil _ _ h.1
    | nil =>
      have hglued : ∀ line ∈ between ++ [tag], line.glued = true := hmem
      have hclosing : (contentLine [] closing B).blank.glued = closing.glued := rfl
      have hdiscarded : (contentLine (between ++ [tag]) closing A).discarded = Text.isBlank A := rfl
      rw [hclosing]
      cases hg : closing.glued with
      | true => simp
      | false =>
        have hiff := cleanFrom_broken_iff hcontent hg behind
        rw [hdiscarded] at hiff
        refine hiff.trans ⟨fun hblank hclash => ?_, fun hclash => ?_⟩
        · rw [hclash.2.2.2] at hblank
          cases hblank
        · cases hshown : Text.isBlank A with
          | true => rfl
          | false => exact absurd ⟨rfl, hglued, rfl, hshown⟩ hclash

/-- Two slots that one line closes clash if nothing stands in the inner one, and no line is broken
before the tag that closes both. -/
theorem clashes_iff_of_shared (kind : LayerKind)
    (hc : ClosesAt .block 1 (between ++ tag :: body) closing)
    (hinner : ClosesAt .block 1 body closing) :
    Clashes ⟨kind, before ++ opening :: (between ++ tag :: (body ++ closing :: behind))⟩ a b A ↔
      body = [] ∧ (∀ line ∈ between ++ [tag], line.glued = true) ∧ closing.glued = false ∧
        Text.isBlank A = false := by
  have hslotA := slot?_of_closesAt kind behind hna ha hc
  have hslotB := slot?_of_closesAt kind behind hnb hb hinner
  simp only [List.append_assoc, List.cons_append, List.length_append, List.length_cons]
    at hslotA hslotB
  constructor
  · rintro ⟨before', opening', body', tag', closing', behind', hl, hslot, hslot', hrest⟩
    have hslotsA := hslot.symm.trans hslotA
    have hslotsB := hslot'.symm.trans hslotB
    simp only [Option.some.injEq, Slot.mk.injEq] at hslotsA hslotsB
    obtain ⟨rfl, hbehind⟩ := List.append_inj hl hslotsA.1.symm
    obtain ⟨rfl, hbody⟩ := List.cons.inj hbehind
    obtain ⟨rfl, htag⟩ := List.append_inj hbody (by omega)
    obtain rfl : body = [] := List.eq_nil_of_length_eq_zero (by omega)
    obtain ⟨rfl, hclosing⟩ := List.cons.inj htag
    obtain ⟨rfl, -⟩ := List.cons.inj hclosing
    exact ⟨rfl, hrest⟩
  · rintro ⟨rfl, hglued, hbegins, hshown⟩
    refine ⟨before, opening, between, tag, closing, behind, rfl, ?_, ?_, hglued, hbegins, hshown⟩
    · refine hslotA.trans ?_
      simp only [Option.some.injEq, Slot.mk.injEq, List.length_nil, true_and]
      omega
    · refine hslotB.trans ?_
      simp only [Option.some.injEq, Slot.mk.injEq, List.length_nil]
      omega

/-- **The order of two blocks**, of which the first one is opened before the second one. -/
theorem clean_put_comm_iff_of_opening (kind : LayerKind)
    (hnr : ∀ line ∈ rest, opensBlock b line = false) :
    ((put ⟨kind, before ++ opening :: (between ++ tag :: rest)⟩ a A).put b B).clean =
        ((put ⟨kind, before ++ opening :: (between ++ tag :: rest)⟩ b B).put a A).clean ↔
      ¬ Clashes ⟨kind, before ++ opening :: (between ++ tag :: rest)⟩ a b A := by
  rcases closesAt_or_inside between rest (opensBody_of_opensBlock hb) with
    hs | ⟨body, closing, behind, rfl, hc⟩ | ⟨body, closing, behind, rfl, hc⟩
  · refine iff_of_true (congrArg clean (put_comm_of_staysOpen ha hb hna hnb A B kind hs)) ?_
    intro hclash
    obtain ⟨slot, -, hslot, -⟩ := hclash.slots
    rw [slot?_eq_none_iff.2 (.inr ⟨before, opening, _, rfl, hna, ha, hs⟩)] at hslot
    cases hslot
  · refine iff_of_true (congrArg clean (put_comm_of_apart ha hb hna hnb A B kind hc rfl)) ?_
    intro hclash
    obtain ⟨slot, slot', hslot, hslot', -, hbare, hshared⟩ := hclash.slots
    rw [← List.cons_append, ← List.append_assoc] at hslot'
    have hopening := opening_of_slot? hnb hb hslot'
    obtain rfl := Option.some.inj (hslot.symm.trans (slot?_eq_some_iff.2
      ⟨before, opening, body, closing, behind ++ tag :: rest, by simp, rfl, hna, ha, hc⟩))
    simp only [List.length_append, List.length_cons] at hopening hshared
    omega
  · have hnr' : ∀ line ∈ behind, opensBlock b line = false := fun line hl => hnr line (by simp [hl])
    rcases closesAt_inside hc (opensBody_of_opensBlock hb) with hinner | ⟨inner, last, m, rfl, hinner⟩
    · rw [clean_put_comm_iff_of_shared ha hb hna hnb A B kind hc hinner hnr',
        clashes_iff_of_shared ha hb hna hnb A kind hc hinner]
    · have hslotA := slot?_of_closesAt kind behind hna ha hc
      have hslotB := slot?_of_closesAt kind (m ++ closing :: behind) hnb hb hinner
      refine iff_of_true (clean_put_comm_of_nested ha hb hna hnb A B kind hc hinner hnr') ?_
      intro hclash
      obtain ⟨slot, slot', hslot, hslot', -, -, hshared⟩ := hclash.slots
      simp only [List.append_assoc, List.cons_append] at hslotA hslotB hslot hslot'
      obtain rfl := Option.some.inj (hslot.symm.trans hslotA)
      obtain rfl := Option.some.inj (hslot'.symm.trans hslotB)
      simp only [List.length_append, List.length_cons] at hshared
      omega

/-- Of two slots that clash, the inner one is opened behind the outer one. -/
theorem not_clashes_of_opening (kind : LayerKind) (rest : List Line) :
    ¬ Clashes ⟨kind, before ++ opening :: (between ++ tag :: rest)⟩ b a B := by
  intro hclash
  obtain ⟨slot, slot', hslot, hslot', hlt, -⟩ := hclash.slots
  have hfirst := opening_of_slot? hna ha hslot'
  rw [← List.cons_append, ← List.append_assoc] at hslot
  have hsecond := opening_of_slot? hnb hb hslot
  simp only [List.length_append, List.length_cons] at hsecond
  omega

end Orders

/-! ## Blocks that are opened once -/

/-- A block that is opened on at most one line is opened on none, or the lines before and behind that
line do not open it. -/
theorem exists_opening (h : lines.countP (opensBlock name) ≤ 1) :
    (∀ line ∈ lines, opensBlock name line = false) ∨
      ∃ before opening behind, lines = before ++ opening :: behind ∧
        opensBlock name opening = true ∧ (∀ line ∈ before, opensBlock name line = false) ∧
        ∀ line ∈ behind, opensBlock name line = false := by
  cases hi : lines.findIdx? (opensBlock name) with
  | none => exact .inl (List.findIdx?_eq_none_iff.1 hi)
  | some i =>
    obtain ⟨before, opening, behind, rfl, -, hbefore, ho⟩ := findIdx?_opensBlock_eq_some_iff.1 hi
    refine .inr ⟨before, opening, behind, rfl, ho, hbefore, fun line hl => ?_⟩
    rw [List.countP_append, List.countP_cons_of_pos ho] at h
    have hzero : behind.countP (opensBlock name) = 0 := by omega
    simpa using List.countP_eq_zero.1 hzero line hl

/-- A block that no line opens is filled in neither order. -/
theorem clean_put_comm_iff_of_not_opened {layer : Layer}
    (h : ∀ line ∈ layer.lines, opensBlock a line = false) (A B : Text) :
    ((layer.put a A).put b B).clean = ((layer.put b B).put a A).clean ↔
      ¬ layer.Clashes a b A ∧ ¬ layer.Clashes b a B := by
  have hslot : layer.slot? a = none := slot?_eq_none_iff.2 (.inl h)
  have hput : ∀ line ∈ (layer.put b B).lines, opensBlock a line = false :=
    not_opened_put h b B
  rw [put_of_not_opened h, put_of_not_opened hput]
  refine iff_of_true rfl ⟨fun hclash => ?_, fun hclash => ?_⟩
  · obtain ⟨slot, -, hfound, -⟩ := hclash.slots
    rw [hslot] at hfound
    cases hfound
  · obtain ⟨-, slot, -, hfound, -⟩ := hclash.slots
    rw [hslot] at hfound
    cases hfound

/-- Of two different lines, one stands before the other. -/
theorem exists_between {before' behind' : List Line} {tag : Line}
    (h : before ++ opening :: behind = before' ++ tag :: behind') (hne : opening ≠ tag) :
    (∃ between, before' = before ++ opening :: between ∧ behind = between ++ tag :: behind') ∨
      ∃ between, before = before' ++ tag :: between ∧ behind' = between ++ opening :: behind := by
  rcases List.append_eq_append_iff.1 h with ⟨between, hbefore, hrest⟩ | ⟨between, hbefore, hrest⟩
  · cases between with
    | nil => exact absurd (List.cons.inj hrest).1 hne
    | cons first between =>
      obtain ⟨rfl, rfl⟩ := List.cons.inj hrest
      exact .inl ⟨between, hbefore, rfl⟩
  · cases between with
    | nil => exact absurd (List.cons.inj hrest).1.symm hne
    | cons first between =>
      obtain ⟨rfl, rfl⟩ := List.cons.inj hrest
      exact .inr ⟨between, hbefore, rfl⟩

/-- **Two slots, filled in either order.** When each of two blocks is opened on at most one line, the
order in which they are filled does not matter, except for two slots that clash. -/
theorem clean_put_comm_iff (layer : Layer) (hab : a ≠ b)
    (ha : layer.lines.countP (opensBlock a) ≤ 1) (hb : layer.lines.countP (opensBlock b) ≤ 1)
    (A B : Text) :
    ((layer.put a A).put b B).clean = ((layer.put b B).put a A).clean ↔
      ¬ layer.Clashes a b A ∧ ¬ layer.Clashes b a B := by
  obtain ⟨kind, lines⟩ := layer
  rcases exists_opening ha with hnone | ⟨before, opening, behind, rfl, hopens, hbefore, hbehind⟩
  · exact clean_put_comm_iff_of_not_opened hnone A B
  rcases exists_opening hb with hnone | ⟨before', tag, behind', hl, hopens', hbefore', hbehind'⟩
  · rw [eq_comm, and_comm]
    exact clean_put_comm_iff_of_not_opened hnone B A
  -- the line that opens the one block does not open the other
  have hne : opening ≠ tag := by
    rintro rfl
    exact hab (name_eq_of_opensBlock hopens hopens')
  rcases exists_between hl hne with ⟨between, rfl, rfl⟩ | ⟨between, rfl, rfl⟩
  · have hiff := clean_put_comm_iff_of_opening hopens hopens' hbefore hbefore' A B kind hbehind'
    have hclash := not_clashes_of_opening hopens hopens' hbefore hbefore' B kind behind'
    simpa [hclash] using hiff
  · simp only [List.append_assoc, List.cons_append]
    rw [eq_comm, and_comm]
    have hiff := clean_put_comm_iff_of_opening hopens' hopens hbefore' hbefore B A kind hbehind
    have hclash := not_clashes_of_opening hopens' hopens hbefore' hbefore A kind behind
    simpa [hclash] using hiff

/-- A block within a block can be filled before the other one or after it. -/
theorem clean_put_comm_nested :
    nestedBlocks.lines.countP (opensBlock "a".toList) ≤ 1 ∧
      nestedBlocks.lines.countP (opensBlock "b".toList) ≤ 1 ∧
      ((nestedBlocks.put "a".toList "A".toList).put "b".toList "B".toList).clean =
        ((nestedBlocks.put "b".toList "B".toList).put "a".toList "A".toList).clean := by
  have ha : nestedBlocks.lines.countP (opensBlock "a".toList) ≤ 1 := by decide +kernel
  have hb : nestedBlocks.lines.countP (opensBlock "b".toList) ≤ 1 := by decide +kernel
  have houter : nestedBlocks.slot? "a".toList = some ⟨1, 4⟩ := by decide +kernel
  have hinner : nestedBlocks.slot? "b".toList = some ⟨2, 3⟩ := by decide +kernel
  refine ⟨ha, hb, (clean_put_comm_iff nestedBlocks (by decide) ha hb "A".toList "B".toList).2
    ⟨fun hclash => ?_, fun hclash => ?_⟩⟩
  · obtain ⟨slot, slot', hslot, hslot', -, -, hshared⟩ := hclash.slots
    obtain rfl := Option.some.inj (houter.symm.trans hslot)
    obtain rfl := Option.some.inj (hinner.symm.trans hslot')
    cases hshared
  · obtain ⟨slot, slot', hslot, hslot', hlt, -⟩ := hclash.slots
    obtain rfl := Option.some.inj (hinner.symm.trans hslot)
    obtain rfl := Option.some.inj (houter.symm.trans hslot')
    exact absurd hlt (by decide)

/-- A block whose opening tag closes a block as well, in the body of another one. -/
def sharedClosing : Layer :=
  ofSource .parent
    ["\x7b% block a %\x7d\x7b% block \x7b% endblock %\x7d".toList, "\x7b% endblock %\x7d".toList]

/-- **The order can matter**: the content of the outer slot continues the line of its tag if it is
put in first, and begins a line if it is put in last. -/
theorem clean_put_ne :
    sharedClosing.lines.countP (opensBlock "a".toList) = 1 ∧
      sharedClosing.lines.countP (opensBlock "\x7b% endblock".toList) = 1 ∧
      ((sharedClosing.put "a".toList "A".toList).put "\x7b% endblock".toList "B".toList).clean ≠
        ((sharedClosing.put "\x7b% endblock".toList "B".toList).put "a".toList "A".toList).clean := by
  decide +kernel

end Layer

end Stencil
