import Mathlib.Data.List.Induction
import Stencil.Proofs.Expansion.Stability
import Stencil.Proofs.Termination.Weight

/-!
# Two counts of nested loops

The loops inside the body of a loop are counted twice: by the capture that the body is held by, and
again when the body is expanded, where they decide which lines are numbered. The two counts go by
different rules. A capture passes rendered lines over, and on a line that both opens and closes a
loop it opens first; an expansion counts all lines, and it closes first and does not fall below
zero. On lines where this makes no difference (`Capture.Agrees`) one step keeps the two counts
together (`depth_of_feed`), so that a line behind such lines is numbered if and only if its capture
was one deep (`expand_numbers_iff`), which is to say that no loop within the body encloses it
(`Line.Encloses`). A line that a loop within the body encloses is left to the innermost one.
-/

namespace Stencil

/-- The capture of a body of the loop that has just begun. -/
def LoopHeader.capture (header : LoopHeader) : Capture :=
  { construct := .loop header.variableName header.collection }

/-- The loop that a line opens is still open when the lines behind it are held, and the capture of
its body is then `depth` deep. -/
def Line.Encloses (opening : Line) (inner : List Line) (depth : Nat) : Prop :=
  opening.loopMarks = (true, false) ∧
    ∀ header : LoopHeader, ∃ capture, header.capture.holdAll inner = some capture ∧
      capture.depth = depth

namespace Capture

variable {capture next final : Capture} {line : Line} {lines lines' : List Line}

/-! ## The depth of a capture of a loop -/

theorem depth_of_held (hl : capture.construct.directive = .loop)
    (h : capture.feed line = .held next) :
    next.construct.directive = .loop ∧ next.depth ≠ 0 ∧
      next.depth = capture.depth + line.opensLoop.toNat - line.closesLoop.toNat := by
  obtain ⟨hne, rfl⟩ := eq_of_feed_held h
  exact ⟨hl, hne, depthAfter_of_loop hl line⟩

theorem exists_held (line : Line) (hl : capture.construct.directive = .loop)
    (h : capture.depth + line.opensLoop.toNat - line.closesLoop.toNat ≠ 0) :
    ∃ next, capture.feed line = .held next := by
  rw [← depthAfter_of_loop hl line] at h
  exact ⟨_, by rw [feed]; exact if_neg h⟩

/-- What a capture of a loop holds, one that is deeper holds, too, and stays as much deeper. -/
theorem holdAll_shift (other : Capture) (more : Nat) (hl : capture.construct.directive = .loop)
    (hl' : other.construct.directive = .loop) (hd : other.depth = capture.depth + more)
    (hm : lines.map Line.loopMarks = lines'.map Line.loopMarks)
    (h : capture.holdAll lines = some final) :
    ∃ final', other.holdAll lines' = some final' ∧ final'.depth = final.depth + more := by
  induction lines generalizing capture other lines' with
  | nil =>
    obtain rfl := List.map_eq_nil_iff.1 hm.symm
    obtain rfl := Option.some.inj h
    exact ⟨other, rfl, hd⟩
  | cons line lines ih =>
    obtain ⟨line', lines', rfl, hmarks, hrest⟩ := List.map_eq_cons_iff.1 hm.symm
    obtain ⟨hopens, hcloses⟩ := Prod.mk.inj hmarks
    obtain ⟨next, hf, hnext⟩ := exists_of_holdAll_cons h
    obtain ⟨hloop, hne, hdepth⟩ := depth_of_held hl hf
    obtain ⟨next', hf'⟩ := exists_held line' hl' (by rw [hopens, hcloses]; omega)
    obtain ⟨hloop', -, hdepth'⟩ := depth_of_held hl' hf'
    rw [hopens, hcloses] at hdepth'
    obtain ⟨final', hfinal', hd'⟩ := ih next' hloop hloop' (by omega) hrest.symm hnext
    exact ⟨final', (holdAll_cons hf' lines').trans hfinal', hd'⟩

theorem directive_of_holdAll {header : LoopHeader} (h : header.capture.holdAll lines = some final) :
    final.construct.directive = .loop ∧ final.depth ≠ 0 := by
  obtain ⟨hloop, -, hne⟩ := of_holdAll h Nat.one_ne_zero
  exact ⟨by rw [hloop]; rfl, hne⟩

/-- The depth of a capture does not depend on the loop that it belongs to. -/
theorem encloses_of_holdAll {opening : Line} {header : LoopHeader}
    (ho : opening.loopMarks = (true, false)) (h : header.capture.holdAll lines = some final) :
    opening.Encloses lines final.depth :=
  ⟨ho, fun header' =>
    holdAll_shift header'.capture 0 rfl rfl rfl rfl h⟩

/-- **The loops around a line.** When the capture of a body is deeper than `depth`, one of the lines
opens a loop of which the capture would be `depth` deep. -/
theorem exists_encloses (header : LoopHeader) (h : header.capture.holdAll lines = some final)
    {depth : Nat} (hpos : depth ≠ 0) (hlt : depth < final.depth) :
    ∃ outer opening inner, lines = outer ++ opening :: inner ∧ opening.Encloses inner depth := by
  induction lines using List.reverseRecOn generalizing final depth with
  | nil =>
    obtain rfl := Option.some.inj h
    simp only [LoopHeader.capture] at hlt
    omega
  | append_singleton lines line ih =>
    obtain ⟨mid, hmid, hlast⟩ := exists_of_holdAll_append h
    obtain ⟨next, hf, hnext⟩ := exists_of_holdAll_cons hlast
    obtain rfl := Option.some.inj hnext
    obtain ⟨-, -, hdepth⟩ := depth_of_held (directive_of_holdAll hmid).1 hf
    -- a loop that encloses the lines before encloses the line as well, unless the line closes it
    have hlonger : ∀ {k : Nat}, k ≠ 0 → k < mid.depth →
        depth = k + line.opensLoop.toNat - line.closesLoop.toNat →
        ∃ outer opening inner, lines ++ [line] = outer ++ opening :: inner ∧
          opening.Encloses inner depth := by
      intro k hk hklt hd
      obtain ⟨outer, opening, inner, rfl, hopens, hinner⟩ := ih hmid hk hklt
      obtain ⟨capture, hcapture, rfl⟩ := hinner header
      obtain ⟨hcl, -⟩ := directive_of_holdAll hcapture
      obtain ⟨after, hafter⟩ := exists_held line hcl (by omega)
      obtain ⟨-, -, hdafter⟩ := depth_of_held hcl hafter
      have hall : header.capture.holdAll (inner ++ [line]) = some after := by
        rw [holdAll_append hcapture, holdAll_cons hafter]
        rfl
      refine ⟨outer, opening, inner ++ [line], by simp, ?_⟩
      rw [hd, ← hdafter]
      exact encloses_of_holdAll hopens hall
    cases ho : line.opensLoop <;> cases hc : line.closesLoop <;>
      simp only [ho, hc, Bool.toNat_true, Bool.toNat_false, Nat.add_zero, Nat.sub_zero,
        Nat.add_sub_cancel] at hdepth hlonger
    case false.false => exact hlonger hpos (by omega) rfl
    case true.true => exact hlonger hpos (by omega) rfl
    case false.true => exact hlonger (k := depth + 1) (by omega) (by omega) rfl
    case true.false =>
      by_cases hone : depth = 1
      · refine ⟨lines, line, [], rfl, ?_⟩
        rw [hone]
        exact encloses_of_holdAll (by rw [Line.loopMarks, ho, hc])
          (rfl : header.capture.holdAll [] = some header.capture)
      · exact hlonger (k := depth - 1) (by omega) (by omega) (by omega)

/-- The capture of a body is deeper than those of the loops that enclose its last lines. -/
theorem lt_of_encloses {header : LoopHeader} {outer inner : List Line} {opening : Line}
    {depth : Nat} (h : header.capture.holdAll (outer ++ opening :: inner) = some final)
    (hn : opening.Encloses inner depth) : depth ≠ 0 ∧ depth < final.depth := by
  obtain ⟨hopens, hinner⟩ := hn
  obtain ⟨ho, hc⟩ := Prod.mk.inj hopens
  obtain ⟨capture, hcapture, rfl⟩ := hinner header
  obtain ⟨mid, hmid, hlast⟩ := exists_of_holdAll_append h
  obtain ⟨next, hf, hnext⟩ := exists_of_holdAll_cons hlast
  obtain ⟨hloop, -, hdepth⟩ := depth_of_held (directive_of_holdAll hmid).1 hf
  have hdeeper : next.depth = header.capture.depth + mid.depth := by
    rw [hdepth, ho, hc]
    exact Nat.add_comm _ _
  obtain ⟨final', hfinal', hshift⟩ := holdAll_shift next _ rfl hloop hdeeper rfl hcapture
  obtain rfl := Option.some.inj (hnext.symm.trans hfinal')
  have := (directive_of_holdAll hmid).2
  have := (directive_of_holdAll hcapture).2
  omega

/-! ## Lines that both count alike -/

/-- The line makes no difference between the two counts: it is no rendered line with a tag of a
loop, nor a line that opens and closes a loop where the capture is one deep. -/
def Agrees (capture : Capture) (line : Line) : Prop :=
  if line.rendered then
    Directive.loop.occursIn line.text = false ∧ Directive.loop.closesIn line.text = false
  else capture.depth = 1 → line.loopMarks ≠ (true, true)

instance (capture : Capture) (line : Line) : Decidable (capture.Agrees line) := by
  unfold Agrees
  infer_instance

/-- Lines that make no difference between the two counts, held one after the other. -/
def Agree (capture : Capture) : List Line → Prop
  | [] => True
  | line :: rest => capture.Agrees line ∧
    match capture.feed line with
    | .held next => next.Agree rest
    | .closed _ _ => True

instance Agree.decidable : (capture : Capture) → (lines : List Line) →
    Decidable (capture.Agree lines)
  | _, [] => .isTrue trivial
  | capture, line :: rest =>
    have : Decidable (match capture.feed line with
        | .held next => next.Agree rest
        | .closed _ _ => True) :=
      match capture.feed line with
      | .held next => Agree.decidable next rest
      | .closed _ _ => .isTrue trivial
    inferInstanceAs (Decidable (_ ∧ _))

/-- **One line** keeps the two counts one apart. -/
theorem depth_of_feed (hl : capture.construct.directive = .loop) (ha : capture.Agrees line)
    (h : capture.feed line = .held next) {depth : Nat} (hd : capture.depth = depth + 1) :
    next.depth = Iteration.depthBehind depth line + 1 := by
  obtain ⟨-, hne, hnext⟩ := depth_of_held hl h
  unfold Iteration.depthBehind Iteration.depthAt
  unfold Agrees at ha
  unfold Line.loopMarks at ha
  cases hr : line.rendered with
  | true =>
    rw [hr, if_pos rfl] at ha
    simp only [Line.opensLoop, Line.closesLoop, hr] at hnext
    simp [ha.1, ha.2, hnext, hd]
  | false =>
    rw [hr, if_neg (by simp)] at ha
    simp only [Line.opensLoop, Line.closesLoop, hr, Bool.not_false, Bool.true_and] at hnext ha
    cases ho : Directive.loop.occursIn line.text <;>
      cases hc : Directive.loop.closesIn line.text <;>
        simp [ho, hc] at hnext ha ⊢ <;> omega

/-- **All lines** keep the two counts one apart. -/
theorem depth_of_holdAll (hl : capture.construct.directive = .loop) (ha : capture.Agree lines)
    (h : capture.holdAll lines = some final) {depth : Nat} (hd : capture.depth = depth + 1) :
    final.depth = lines.foldl Iteration.depthBehind depth + 1 := by
  induction lines generalizing capture depth with
  | nil =>
    obtain rfl := Option.some.inj h
    exact hd
  | cons line lines ih =>
    obtain ⟨next, hf, hnext⟩ := exists_of_holdAll_cons h
    obtain ⟨hfirst, hrest⟩ := ha
    rw [hf] at hrest
    exact ih (depth_of_held hl hf).1 hrest hnext (depth_of_feed hl hfirst hf hd)

end Capture

namespace Iteration

variable {it : Iteration} {before after : List Line} {line : Line}

/-- A line without a tag of a loop is numbered if its capture was one deep. -/
theorem exists_getElem?_expand {capture : Capture}
    (h : it.header.capture.holdAll before = some capture) (ha : it.header.capture.Agree before)
    (hr : line.rendered = false) (hm : line.loopMarks = (false, false)) (after : List Line) :
    ∃ line', (it.expand (before ++ line :: after))[before.length]? = some line' ∧
      line'.text = if capture.depth = 1 then it.numbered (it.resolveText line.text)
        else it.resolveText line.text := by
  have hdepth := Capture.depth_of_holdAll rfl ha h (rfl : it.header.capture.depth = 0 + 1)
  have hc : Directive.loop.closesIn line.text = false := by
    simpa [Line.closesLoop, hr] using (Prod.mk.inj hm).2
  refine ⟨_, getElem?_expandFrom it 0 before line after, ?_⟩
  have hat : depthAt (before.foldl depthBehind 0) line = before.foldl depthBehind 0 := by
    simp [depthAt, hc]
  rw [text_expandLine hr, hat, expandText, hdepth]
  congr 1
  simp

/-- **Which lines are numbered.** A line of the body is numbered if and only if its capture was one
deep, which is to say that no loop within the body encloses it. Any other line is left to the
innermost loop that encloses it, which numbers the copy that it captures. -/
theorem expand_numbers_iff {final : Capture}
    (h : it.header.capture.holdAll (before ++ line :: after) = some final)
    (ha : it.header.capture.Agree before)
    (hr : line.rendered = false) (hm : line.loopMarks = (false, false)) :
    ∃ capture line', it.header.capture.holdAll before = some capture ∧
      (it.expand (before ++ line :: after))[before.length]? = some line' ∧
      (line'.text = if capture.depth = 1 then it.numbered (it.resolveText line.text)
        else it.resolveText line.text) ∧
      (capture.depth = 1 ↔ ¬ ∃ outer opening inner depth,
        before = outer ++ opening :: inner ∧ opening.Encloses inner depth) ∧
      (capture.depth ≠ 1 → ∃ outer opening inner,
        before = outer ++ opening :: inner ∧ opening.Encloses inner 1 ∧
        ∀ (turn : Iteration) (copies behind : List Line),
          copies.map Line.loopMarks = inner.map Line.loopMarks → turn.header.capture.Agree copies →
          line'.loopMarks = (false, false) →
          ∃ numbered, (turn.expand (copies ++ line' :: behind))[copies.length]? = some numbered ∧
            numbered.text = turn.numbered (turn.resolveText (it.resolveText line.text))) := by
  obtain ⟨capture, hcapture, -⟩ := Capture.exists_of_holdAll_append h
  obtain ⟨-, hne⟩ := Capture.directive_of_holdAll hcapture
  obtain ⟨line', hline', htext⟩ := exists_getElem?_expand hcapture ha hr hm after
  refine ⟨capture, line', hcapture, hline', htext, ⟨?_, fun hnone => ?_⟩, fun hdeep => ?_⟩
  · rintro hone ⟨outer, opening, inner, depth, rfl, hn⟩
    have := Capture.lt_of_encloses hcapture hn
    omega
  · by_contra hdeep
    obtain ⟨outer, opening, inner, hsplit, hn⟩ :=
      Capture.exists_encloses it.header hcapture Nat.one_ne_zero (by omega)
    exact hnone ⟨outer, opening, inner, 1, hsplit, hn⟩
  · obtain ⟨outer, opening, inner, hsplit, hn⟩ :=
      Capture.exists_encloses it.header hcapture Nat.one_ne_zero (by omega)
    refine ⟨outer, opening, inner, hsplit, hn, fun turn copies behind hcopies hagree hmarks => ?_⟩
    obtain ⟨mid, hmid, hone⟩ := hn.2 turn.header
    obtain ⟨own, hown, hdown⟩ := Capture.holdAll_shift turn.header.capture 0 rfl rfl rfl
      hcopies.symm hmid
    have hr' : line'.rendered = false := by
      obtain rfl := Option.some.inj ((getElem?_expandFrom it 0 before line after).symm.trans hline')
      exact (rendered_expandLine _ _).trans hr
    obtain ⟨numbered, hnumbered, htext'⟩ := exists_getElem?_expand hown hagree hr' hmarks behind
    refine ⟨numbered, hnumbered, ?_⟩
    rw [htext', if_pos (by omega), htext, if_neg hdeep]

/-- A loop in the body of a loop, behind finished output. The outer iteration leaves the line to the
inner one, which is the second. -/
theorem expand_numbers_iff_inner :
    let it : Iteration := ⟨⟨"x".toList, "xs".toList⟩, "0".toList, "1".toList, 0⟩
    let turn : Iteration := ⟨⟨"y".toList, "ys".toList⟩, "1".toList, "2".toList, 1⟩
    let shown : Line := { text := "done".toList, rendered := true }
    let opening : Line := { text := "\x7b% for y in ys %\x7d".toList }
    let name : Line := { text := "\x7b\x7b x \x7d\x7d".toList }
    let line : Line := { text := "\x7b\x7b index \x7d\x7d".toList }
    ∃ line' numbered, (it.expand [shown, opening, name, line])[3]? = some line' ∧
      line'.text = line.text ∧
      (turn.expand [name, line'])[1]? = some numbered ∧ numbered.text = "2".toList := by
  intro it turn shown opening name line
  have hagree : it.header.capture.Agree [shown, opening, name] := by decide +kernel
  obtain ⟨capture, line', hcapture, hline, htext, -, hdeep⟩ :=
    expand_numbers_iff
      (show it.header.capture.holdAll ([shown, opening, name] ++ line :: []) = some _ from rfl)
      hagree rfl (by decide +kernel)
  have hdepth : capture.depth = 2 := by
    have h : (it.header.capture.holdAll [shown, opening, name]).map Capture.depth = some 2 := by
      decide +kernel
    rw [hcapture] at h
    exact Option.some.inj h
  have hleft : line'.text = line.text := by
    rw [htext, if_neg (by omega)]
    decide +kernel
  obtain ⟨outer, first, inner, hsplit, hfirst, hturn⟩ := hdeep (by omega)
  -- only one of the lines opens a loop
  obtain rfl : inner = [name] := by
    rcases outer with - | ⟨a, - | ⟨b, - | ⟨c, outer⟩⟩⟩
    · obtain ⟨rfl, -⟩ := List.cons.inj hsplit
      exact absurd hfirst.1 (by decide +kernel)
    · exact (List.cons.inj (List.cons.inj hsplit).2).2.symm
    · obtain ⟨rfl, -⟩ := List.cons.inj (List.cons.inj (List.cons.inj hsplit).2).2
      exact absurd hfirst.1 (by decide +kernel)
    · exact absurd (congrArg List.length hsplit) (by simp)
  have hmarks : line'.loopMarks = (false, false) := by
    rw [Line.loopMarks, Line.opensLoop, Line.closesLoop, hleft]
    cases line'.rendered <;> decide +kernel
  obtain ⟨numbered, hnumbered, htext'⟩ := hturn turn [name] [] rfl (by decide +kernel) hmarks
  refine ⟨line', numbered, hline, hleft, hnumbered, htext'.trans ?_⟩
  decide +kernel

/-- Finished output that looks like a tag of a loop, which a capture passes over, makes the line
behind it count as inside that loop. -/
example : ((Iteration.mk ⟨"x".toList, "xs".toList⟩ "0".toList "1".toList 0).expand
    [{ text := "\x7b% for y in ys %\x7d".toList, rendered := true },
      { text := "\x7b\x7b index \x7d\x7d".toList }])[1]?.map Line.text =
        some "\x7b\x7b index \x7d\x7d".toList := by
  decide +kernel

end Iteration

end Stencil
