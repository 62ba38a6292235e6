import Stencil.Layer.Slot
import Stencil.Proofs.Nesting.Capture

/-!
# Slots of a tree

A slot is found by counting tags from line to line, and it is filled by taking lines apart at two
positions. In a tree of lines the slot of a name is the first block of that name, and filling it
replaces its body (`Nesting.fill`). `slot?_lines` and `fillSlot_lines` say that the two agree: no
well-nested body can close the block around it (`closingFrom?_lines`).
-/

namespace Stencil

namespace Nesting

/-! ## Blocks by name -/

/-- The name of the block that a line opens, if it opens one. -/
def blockName? (d : Directive) (opening : Line) : Option Text :=
  if d = .block then some (opening.argument .block) else none

/-- The names of the blocks, from first to last. -/
def names : Nesting → List Text
  | done => []
  | text _ rest => rest.names
  | span d opening body _ rest => (blockName? d opening).toList ++ (body.names ++ rest.names)

/-- The lines as a tree of text. -/
def ofLines : List Line → Nesting
  | [] => done
  | line :: rest => text line (ofLines rest)

/-- The line that stands for the body of a block that is filled. It continues the line before it as
the body did. -/
def contentLine (body : List Line) (closing : Line) (content : Text) : Line :=
  Line.fill { text := [], glued := ((body ++ [closing]).head?.map Line.glued).getD false } content

/-- The body of a block that is filled. -/
def filledBody (body : Nesting) (closing : Line) (content : Text) : Nesting :=
  ofLines (body.lines.map Line.blank ++ [contentLine body.lines closing content])

/-- The tree with the first block of that name filled. -/
def fill (name content : Text) : Nesting → Nesting
  | done => done
  | text line rest => text line (rest.fill name content)
  | span d opening body closing rest =>
    if blockName? d opening = some name then
      span d opening (filledBody body closing content) closing rest
    else if name ∈ body.names then span d opening (body.fill name content) closing rest
    else span d opening body closing (rest.fill name content)

@[simp] theorem lines_ofLines (ls : List Line) : (ofLines ls).lines = ls := by
  induction ls with
  | nil => rfl
  | cons line ls ih => exact congrArg (line :: ·) ih

@[simp] theorem names_ofLines (ls : List Line) : (ofLines ls).names = [] := by
  induction ls with
  | nil => rfl
  | cons line ls ih => exact ih

theorem fill_of_not_mem {name : Text} {n : Nesting} (h : name ∉ n.names) (content : Text) :
    n.fill name content = n := by
  induction n with
  | done => rfl
  | text line rest ih => rw [fill, ih h]
  | span d opening body closing rest ihb ihr =>
    simp only [names, List.mem_append, Option.mem_toList, not_or] at h
    rw [fill, if_neg h.1, if_neg h.2.1, ihr h.2.2]

/-! ## The lines of a slot -/

theorem opensBlock_iff {d : Directive} {opening : Line} (h : opening.Opens d)
    {name : Text} : Layer.opensBlock name opening = true ↔ blockName? d opening = some name := by
  unfold Layer.opensBlock blockName? Line.argument
  rw [h.not_rendered]
  by_cases hd : d = .block
  · subst hd
    have ho : Directive.block.occursIn opening.text = true :=
      (mem_opened_iff rfl).1 (by simp [h.opened])
    obtain ⟨tag, htag⟩ : ∃ tag, Directive.block.find? opening.text = some tag := by
      rw [← Option.isSome_iff_exists]
      exact (Pattern.isSome_find? _ _).trans ho
    simp [htag]
  · have ho : Directive.block.find? opening.text = none := by
      have hocc : Directive.block.occursIn opening.text = false :=
        Render.occursIn_eq_false (by simp) (by rw [h.opened]; simp [eq_comm, hd])
      rw [← Option.isNone_iff_eq_none, ← Option.not_isSome, Directive.find?, Pattern.isSome_find?]
      exact (Bool.not_eq_true' _).mpr hocc
    simp [hd, ho]

theorem opensBlock_of_unopened {line : Line} (h : line.rendered = true ∨ .block ∉ opened line.text)
    (name : Text) : Layer.opensBlock name line = false := by
  unfold Layer.opensBlock
  rcases h with h | h
  · simp [h]
  · have hocc : Directive.block.occursIn line.text = false := Render.occursIn_eq_false (by simp) h
    have hnone : (Directive.block.find? line.text).isSome = false :=
      (Pattern.isSome_find? _ _).trans hocc
    rw [Option.isSome_eq_false_iff, Option.isNone_iff_eq_none] at hnone
    simp [hnone]

section Closing

variable {depth : Nat} {line : Line} (rest : List Line)

theorem closingFrom?_plain (h : line.IsPlain) :
    Layer.closingFrom? depth (line :: rest) = (Layer.closingFrom? depth rest).map (· + 1) := by
  rw [Layer.closingFrom?]
  split
  · rfl
  · next hr =>
    obtain ⟨ho, hc⟩ := h.resolve_left hr
    have hocc : Directive.block.occursIn line.text = false :=
      Render.occursIn_eq_false (by simp) (by simp [ho])
    have hcl : Directive.block.closesIn line.text = false := by
      rw [← Bool.not_eq_true, ← mem_closed_iff rfl, hc]
      simp
    simp [hocc, hcl]

theorem closingFrom?_opens {d : Directive} (h : line.Opens d) :
    Layer.closingFrom? depth (line :: rest) =
      (Layer.closingFrom? (if d = .block then depth + 1 else depth) rest).map (· + 1) := by
  have hocc : Directive.block.occursIn line.text = decide (d = .block) := by
    rw [Bool.eq_iff_iff, ← mem_opened_iff rfl, h.opened]
    simp [eq_comm]
  have hcl : Directive.block.closesIn line.text = false := by
    rw [← Bool.not_eq_true, ← mem_closed_iff rfl, h.closed]
    simp
  simp [Layer.closingFrom?, h.not_rendered, hocc, hcl]

theorem closingFrom?_closes {d : Directive} (h : line.Closes d) :
    Layer.closingFrom? depth (line :: rest) =
      if d = .block then
        if depth ≤ 1 then some 0 else (Layer.closingFrom? (depth - 1) rest).map (· + 1)
      else (Layer.closingFrom? depth rest).map (· + 1) := by
  have hocc : Directive.block.occursIn line.text = false :=
    Render.occursIn_eq_false (by simp) (by simp [h.opened])
  have hcl : Directive.block.closesIn line.text = decide (d = .block) := by
    rw [Bool.eq_iff_iff, ← mem_closed_iff rfl, h.closed]
    simp [eq_comm]
  simp [Layer.closingFrom?, h.not_rendered, hocc, hcl]

end Closing

/-- **A well-nested body does not close the block around it.** -/
theorem closingFrom?_lines {n : Nesting} (hn : n.WellNested) {depth : Nat} (hd : 1 ≤ depth)
    (tail : List Line) : Layer.closingFrom? depth (n.lines ++ tail) =
      (Layer.closingFrom? depth tail).map (· + n.lines.length) := by
  induction n generalizing depth tail with
  | done => simp [lines]
  | text line rest ih =>
    rw [lines, List.cons_append, closingFrom?_plain _ hn.1, ih hn.2 hd, Option.map_map]
    congr 1
  | span d opening body closing rest ihb ihr =>
    obtain ⟨ho, hb, hc, hr⟩ := hn
    have hinside : 1 ≤ if d = .block then depth + 1 else depth := by split <;> omega
    -- behind the closing line, the depth is what it was
    have hclose : Layer.closingFrom? (if d = .block then depth + 1 else depth)
        (closing :: (rest.lines ++ tail)) =
          (Layer.closingFrom? depth (rest.lines ++ tail)).map (· + 1) := by
      rw [closingFrom?_closes _ hc]
      by_cases hblock : d = .block
      · simp only [hblock, ↓reduceIte]
        rw [if_neg (by omega), Nat.add_sub_cancel]
      · simp only [hblock, ↓reduceIte]
    rw [lines, List.cons_append, List.append_assoc, List.cons_append, closingFrom?_opens _ ho,
      ihb hb hinside, hclose, ihr hr hd, Option.map_map, Option.map_map, Option.map_map]
    congr 1
    funext i
    simp
    omega

theorem opensBlock_of_not_mem {name : Text} {n : Nesting} (hn : n.WellNested)
    (h : name ∉ n.names) : ∀ line ∈ n.lines, Layer.opensBlock name line = false := by
  induction n with
  | done => intro line hl; cases hl
  | text line rest ih =>
    intro l hl
    rcases List.mem_cons.1 hl with rfl | hl
    · exact opensBlock_of_unopened (hn.1.imp_right fun h => by simp [h.1]) name
    · exact ih hn.2 h l hl
  | span d opening body closing rest ihb ihr =>
    obtain ⟨ho, hb, hc, hr⟩ := hn
    simp only [names, List.mem_append, Option.mem_toList, not_or] at h
    intro l hl
    simp only [lines, List.mem_cons, List.mem_append] at hl
    rcases hl with rfl | hl | rfl | hl
    · rw [← Bool.not_eq_true, opensBlock_iff ho]
      exact h.1
    · exact ihb hb h.2.1 l hl
    · exact opensBlock_of_unopened (.inr (by simp [hc.opened])) name
    · exact ihr hr h.2.2 l hl

/-- **The lines of the first block of a name**: nothing before them opens a block of that name, and
filling the tree changes only what stands between its tags. -/
theorem exists_slot {name : Text} {n : Nesting} (hn : n.WellNested) (h : name ∈ n.names)
    (content : Text) :
    ∃ (before : List Line) (opening : Line) (body : Nesting) (closing : Line) (behind : List Line),
      n.lines = before ++ opening :: (body.lines ++ closing :: behind) ∧
      (n.fill name content).lines =
        before ++ opening :: (body.lines.map Line.blank ++
          contentLine body.lines closing content :: closing :: behind) ∧
      (∀ line ∈ before, Layer.opensBlock name line = false) ∧
      Layer.opensBlock name opening = true ∧ body.WellNested ∧ closing.Closes .block := by
  induction n with
  | done => cases h
  | text line rest ih =>
    obtain ⟨before, opening, body, closing, behind, hl, hf, hb, hw⟩ := ih hn.2 h
    refine ⟨line :: before, opening, body, closing, behind, by rw [lines, hl]; rfl,
      by rw [fill, lines, hf]; rfl, ?_, hw⟩
    intro l hmem
    rcases List.mem_cons.1 hmem with rfl | hmem
    · exact opensBlock_of_unopened (hn.1.imp_right fun h => by simp [h.1]) name
    · exact hb l hmem
  | span d opening body closing rest ihb ihr =>
    obtain ⟨ho, hwb, hc, hr⟩ := hn
    rw [fill]
    by_cases hname : blockName? d opening = some name
    · rw [if_pos hname]
      obtain rfl : d = .block := by
        unfold blockName? at hname
        split at hname
        · assumption
        · cases hname
      refine ⟨[], opening, body, closing, rest.lines, rfl, ?_, by simp, (opensBlock_iff ho).2 hname,
        hwb, hc⟩
      simp [lines, filledBody]
    · rw [if_neg hname]
      have hopen : Layer.opensBlock name opening = false := by
        rw [← Bool.not_eq_true, opensBlock_iff ho]
        exact hname
      by_cases hbody : name ∈ body.names
      · rw [if_pos hbody]
        obtain ⟨before, o, b, c, behind, hl, hf, hbefore, hw⟩ := ihb hwb hbody
        refine ⟨opening :: before, o, b, c, behind ++ closing :: rest.lines, ?_, ?_, ?_, hw⟩
        · simp [lines, hl]
        · simp [lines, hf]
        · intro l hmem
          rcases List.mem_cons.1 hmem with rfl | hmem
          · exact hopen
          · exact hbefore l hmem
      · rw [if_neg hbody]
        have hrest : name ∈ rest.names := by
          simp only [names, List.mem_append, Option.mem_toList] at h
          exact (h.resolve_left hname).resolve_left hbody
        obtain ⟨before, o, b, c, behind, hl, hf, hbefore, hw⟩ := ihr hr hrest
        refine ⟨opening :: (body.lines ++ closing :: before), o, b, c, behind, ?_, ?_, ?_, hw⟩
        · simp [lines, hl]
        · simp [lines, hf]
        · intro l hmem
          simp only [List.mem_cons, List.mem_append] at hmem
          rcases hmem with rfl | hmem | rfl | hmem
          · exact hopen
          · exact opensBlock_of_not_mem hwb hbody l hmem
          · exact opensBlock_of_unopened (.inr (by simp [hc.opened])) name
          · exact hbefore l hmem

/-! ## Slots of layers -/

/-- Filling the slot between two lines. -/
theorem fillSlot_eq (kind : LayerKind) (before : List Line) (opening : Line) (body : List Line)
    (closing : Line) (behind : List Line) (content : Text) :
    Layer.fillSlot ⟨kind, before ++ opening :: (body ++ closing :: behind)⟩
        ⟨before.length, before.length + 1 + body.length⟩ content =
      ⟨kind, before ++ opening :: (body.map Line.blank ++
        contentLine body closing content :: closing :: behind)⟩ := by
  have hassoc : before ++ opening :: (body ++ closing :: behind) =
      (before ++ [opening]) ++ (body ++ closing :: behind) := by simp
  have htake : (before ++ opening :: (body ++ closing :: behind)).take (before.length + 1) =
      before ++ [opening] := by
    rw [hassoc, List.take_left' (by simp)]
  have hbody : ((before ++ opening :: (body ++ closing :: behind)).take
      (before.length + 1 + body.length)).drop (before.length + 1) = body := by
    rw [List.drop_take, hassoc, List.drop_left' (by simp), Nat.add_sub_cancel_left,
      List.take_left' rfl]
  have hdrop : (before ++ opening :: (body ++ closing :: behind)).drop
      (before.length + 1 + body.length) = closing :: behind := by
    rw [hassoc, ← List.append_assoc, List.drop_left' (by simp; omega)]
  have hglued : Layer.slotGlued ⟨kind, before ++ opening :: (body ++ closing :: behind)⟩
      ⟨before.length, before.length + 1 + body.length⟩ =
        ((body ++ [closing]).head?.map Line.glued).getD false := by
    unfold Layer.slotGlued
    simp only
    rw [hassoc]
    cases body with
    | nil => simp
    | cons line body => simp
  unfold Layer.fillSlot
  simp only [htake, hbody, hdrop, hglued, contentLine, List.append_assoc, List.cons_append,
    List.nil_append]

/-- The lines between two tags are a slot, if they do not close it. -/
theorem slot?_of_lines {name : Text} {kind : LayerKind} {before body behind : List Line}
    {opening closing : Line} (hbefore : ∀ line ∈ before, Layer.opensBlock name line = false)
    (ho : Layer.opensBlock name opening = true)
    (hc : Layer.closingFrom? 1 (body ++ closing :: behind) = some body.length) :
    Layer.slot? ⟨kind, before ++ opening :: (body ++ closing :: behind)⟩ name =
      some ⟨before.length, before.length + 1 + body.length⟩ := by
  have hidx : (before ++ opening :: (body ++ closing :: behind)).findIdx?
      (Layer.opensBlock name) = some before.length := by
    rw [List.findIdx?_append, List.findIdx?_eq_none_iff.2 hbefore, List.findIdx?_cons, ho]
    simp
  have hdrop : (before ++ opening :: (body ++ closing :: behind)).drop (before.length + 1) =
      body ++ closing :: behind := by
    simp [List.drop_append]
  simp only [Layer.slot?, hidx, hdrop, hc, Option.bind_eq_bind, Option.bind_some, Option.pure_def]

section Layers

variable {name : Text} {kind : LayerKind} {head : List Line}
  (hhead : ∀ line ∈ head, Layer.opensBlock name line = false) {n : Nesting} (hn : n.WellNested)
include hhead hn

/-- A layer has no slot for a name that no block has. -/
theorem slot?_of_not_mem (h : name ∉ n.names) :
    Layer.slot? ⟨kind, head ++ n.lines⟩ name = none := by
  have hnone : (head ++ n.lines).findIdx? (Layer.opensBlock name) = none := by
    rw [List.findIdx?_eq_none_iff]
    intro line hl
    rcases List.mem_append.1 hl with hl | hl
    · exact hhead line hl
    · exact opensBlock_of_not_mem hn h line hl
  simp [Layer.slot?, hnone]

/-- **Filling the slot of a layer** fills the tree of its lines. -/
theorem exists_slot?_of_mem (h : name ∈ n.names) (content : Text) :
    ∃ slot, Layer.slot? ⟨kind, head ++ n.lines⟩ name = some slot ∧
      Layer.fillSlot ⟨kind, head ++ n.lines⟩ slot content =
        ⟨kind, head ++ (n.fill name content).lines⟩ := by
  obtain ⟨before, opening, body, closing, behind, hl, hf, hbefore, ho, hb, hc⟩ :=
    exists_slot hn h content
  have hpre : ∀ line ∈ head ++ before, Layer.opensBlock name line = false := by
    intro line hmem
    rcases List.mem_append.1 hmem with hmem | hmem
    · exact hhead line hmem
    · exact hbefore line hmem
  have hlines : head ++ n.lines =
      (head ++ before) ++ opening :: (body.lines ++ closing :: behind) := by
    rw [hl, List.append_assoc]
  rw [hlines, hf, ← List.append_assoc head before]
  generalize head ++ before = pre at hpre
  refine ⟨_, slot?_of_lines hpre ho ?_, fillSlot_eq kind pre opening body.lines closing behind content⟩
  rw [closingFrom?_lines hb (Nat.le_refl 1), closingFrom?_closes _ hc]
  simp

end Layers

end Nesting

end Stencil
