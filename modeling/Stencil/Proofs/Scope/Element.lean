import Stencil.Proofs.Nesting.Walk
import Stencil.Proofs.Scope.Numbering
import Stencil.Render.Page

/-!
# The elements that a loop visits

A loop over a list or a mapping renders its body once for each element, in the order of the
elements, as if the variable were bound to the element (`Render.loop_visits_elements`). A key of a
mapping becomes a part of a path, so that it must not hold what ends a path or a tag
(`Text.IsPlainKey`); what is left of the characters may be anything.
-/

namespace Stencil

open Tag

/-! ## Keys -/

/-- A key that can be put into the path of a reference: it does not separate segments, begins no
default, and neither it nor what stands behind it is read as a part of a delimiter. -/
structure Text.IsPlainKey (key : Text) : Prop where
  dotless : '.' ∉ key
  no_default : '=' ∉ key
  no_newline : '\n' ∉ key
  no_delimiter : ∀ d ∈ [openingBraces, opening, closingBraces], ¬ d <:+: key
  last : ∀ c ∈ key.getLast?, Stencil.isBlank c = false ∧ c ≠ '}'

instance (key : Text) : Decidable key.IsPlainKey :=
  have : Decidable (∀ c ∈ key.getLast?, Stencil.isBlank c = false ∧ c ≠ '}') :=
    key.getLast?.decidableForallMem
  decidable_of_iff (_ ∧ _ ∧ _ ∧ _ ∧ _)
    ⟨fun ⟨a, b, c, d, e⟩ => ⟨a, b, c, d, e⟩, fun ⟨a, b, c, d, e⟩ => ⟨a, b, c, d, e⟩⟩

theorem isPlainKey_ofNat (n : Nat) : (Text.ofNat n).IsPlainKey := by
  have hnot : ∀ c : Char, c.isDigit = false → c ∉ Text.ofNat n := fun c hc hm => by
    rw [Text.isDigit_of_mem_ofNat hm] at hc
    cases hc
  refine ⟨hnot _ (by decide), hnot _ (by decide), hnot _ (by decide),
    not_infix_of_no_braces (hnot _ (by decide)) (hnot _ (by decide)), fun c hc => ?_⟩
  have hdigit := Text.isDigit_of_mem_ofNat (List.mem_of_mem_getLast? hc)
  refine ⟨isBlank_eq_false_of_isPathPart (isPathPart_of_isDigit hdigit), ?_⟩
  rintro rfl
  exact absurd hdigit (by decide)

namespace Text.IsContent

variable {w s : Text}

/-- The delimiters are two characters that belong to no path. -/
theorem exists_of_delimiter {d : Text} (hd : d ∈ [openingBraces, opening, closingBraces]) :
    ∃ x y, d = [x, y] ∧ isPathPart x = false ∧ isPathPart y = false := by
  simp only [List.mem_cons, List.not_mem_nil, or_false] at hd
  rcases hd with rfl | rfl | rfl
  · exact ⟨'{', '{', rfl, by decide, by decide⟩
  · exact ⟨'{', '%', rfl, by decide, by decide⟩
  · exact ⟨'}', '}', rfl, by decide, by decide⟩

/-- A path goes on as content. -/
theorem append_path (h : w.IsContent) (hs : ∀ c ∈ s, isPathPart c = true) :
    IsContent (w ++ s) := by
  have hnot : ∀ c : Char, isPathPart c = false → c ∉ s := fun c hc hm => by
    rw [hs c hm] at hc
    cases hc
  obtain ⟨c, cs, rfl, hc⟩ := h.head
  refine ⟨⟨c, cs ++ s, rfl, hc⟩, fun x hx => ?_, ?_, ?_, fun d hd hi => ?_⟩
  · by_cases hnil : s = []
    · exact h.last x (by rwa [hnil, List.append_nil] at hx)
    · rw [List.getLast?_append_of_ne_nil _ hnil] at hx
      have hpart := hs x (List.mem_of_mem_getLast? hx)
      refine ⟨isBlank_eq_false_of_isPathPart hpart, ?_⟩
      rintro rfl
      exact absurd hpart (by decide)
  · exact fun hm => (List.mem_append.1 hm).elim h.no_newline (hnot _ (by decide))
  · exact fun hm => (List.mem_append.1 hm).elim h.no_default (hnot _ (by decide))
  · obtain ⟨x, y, rfl, -, hy⟩ := exists_of_delimiter hd
    rcases pair_infix_append hi with hi | hi | ⟨-, hi⟩
    · exact h.no_delimiter _ hd hi
    · exact hnot y hy (hi.subset (by simp))
    · exact hnot y hy (List.mem_of_mem_head? hi)

/-- A key behind a path is content. -/
theorem append_key {p key : Text} (hp : LoopHeader.isPath p = true) (hk : key.IsPlainKey) :
    IsContent (p ++ key) := by
  have h := isContent_of_isPath hp
  obtain ⟨c, cs, rfl, hc⟩ := h.head
  refine ⟨⟨c, cs ++ key, rfl, hc⟩, fun x hx => ?_, ?_, ?_, fun d hd hi => ?_⟩
  · by_cases hnil : key = []
    · exact h.last x (by rwa [hnil, List.append_nil] at hx)
    · rw [List.getLast?_append_of_ne_nil _ hnil] at hx
      exact hk.last x hx
  · exact fun hm => (List.mem_append.1 hm).elim h.no_newline hk.no_newline
  · exact fun hm => (List.mem_append.1 hm).elim h.no_default hk.no_default
  · obtain ⟨x, y, rfl, hx, -⟩ := exists_of_delimiter hd
    rcases pair_infix_append hi with hi | hi | ⟨hi, -⟩
    · exact h.no_delimiter _ hd hi
    · exact hk.no_delimiter _ hd hi
    · have hpart := (LoopHeader.isPath_iff.1 hp).2 x (List.mem_of_mem_getLast? hi)
      rw [hx] at hpart
      cases hpart

end Text.IsContent

namespace Iteration

variable {it : Iteration} {p : Text}

/-- **What becomes of a path** is read as a whole. -/
theorem isContent_resolved (hc : LoopHeader.isPath it.header.collection = true)
    (hk : it.key.IsPlainKey) (hp : LoopHeader.isPath p = true)
    (hl : Context.OnlyLeads it.header.variableName p) : (it.resolved p).IsContent := by
  obtain ⟨root, rest, hs, -⟩ := Context.exists_segments p
  by_cases hroot : root = it.header.variableName
  · subst hroot
    have helement : it.element.IsContent := by
      have hdotted : LoopHeader.isPath (it.header.collection ++ ['.']) = true := by
        obtain ⟨-, hall⟩ := LoopHeader.isPath_iff.1 hc
        refine LoopHeader.isPath_iff.2 ⟨by simp, fun c hm => ?_⟩
        rcases List.mem_append.1 hm with hm | hm
        · exact hall c hm
        · obtain rfl := List.mem_singleton.1 hm
          decide
      simpa [element] using Text.IsContent.append_key hdotted hk
    rw [resolved_of_leads hs (hl.rest_ne hs)]
    split
    · exact helement
    · refine helement.append_path fun c hm => ?_
      rcases Text.eq_of_splitOn_cons (show Text.splitOn '.' p = _ from hs) with ⟨hnil, -⟩ | ⟨-, he⟩
      · exact absurd hnil ‹¬ rest = []›
      · exact (LoopHeader.isPath_iff.1 hp).2 c (by rw [he]; exact List.mem_append_right _ hm)
  · rw [resolved_of_not_leads hl (by rw [hs]; simpa using hroot)]
    exact isContent_of_isPath hp

end Iteration

/-! ## Elements -/

namespace Value

/-- The elements that a loop over the value visits. -/
def elements : Value → List Value
  | list items => items
  | dict entries => entries.map (·.2)
  | _ => []

/-- A list, or a mapping with one entry a key whose keys can stand in paths. -/
def IsVisitable : Value → Prop
  | list items => items.length ≤ UInt64.size
  | dict entries => (entries.map (·.1)).Nodup ∧ ∀ key ∈ entries.map (·.1), key.IsPlainKey
  | _ => False

instance : (value : Value) → Decidable value.IsVisitable
  | list items => inferInstanceAs (Decidable (items.length ≤ UInt64.size))
  | dict entries => inferInstanceAs (Decidable
      ((entries.map (·.1)).Nodup ∧ ∀ key ∈ entries.map (·.1), key.IsPlainKey))
  | null | bool _ | int _ | float _ | str _ => inferInstanceAs (Decidable False)

theorem index?_ofNat {n : Nat} (h : n < UInt64.size) : Numeral.index? (Text.ofNat n) = some n := by
  have hdigits : Numeral.isDigits (Text.ofNat n) = true := by
    have hall : (Text.ofNat n).all Char.isDigit = true :=
      List.all_eq_true.2 fun c hc => Text.isDigit_of_mem_ofNat hc
    simp [Numeral.isDigits, hall, Text.ofNat_ne_nil]
  have hvalue : natOfDigits (Text.ofNat n) = n :=
    Nat.ofDigitChars_toDigits (by decide : 1 < 10) (by decide)
  unfold Numeral.index? Numeral.natBelow?
  split
  · next rest hplus =>
    have hsign : '+' ∈ Text.ofNat n := by rw [hplus]; simp
    exact absurd (Text.isDigit_of_mem_ofNat hsign) (by decide)
  · simp [hdigits, hvalue, h]

theorem get?_of_mem {α : Type} {entries : List (Text × α)} (hn : (entries.map (·.1)).Nodup)
    {entry : Text × α} (h : entry ∈ entries) : Entries.get? entry.1 entries = some entry.2 := by
  induction entries with
  | nil => cases h
  | cons first rest ih =>
    obtain ⟨k, v⟩ := first
    obtain ⟨hfirst, hn⟩ := List.nodup_cons.1 hn
    rw [Entries.get?]
    rcases List.mem_cons.1 h with rfl | hrest
    · simp
    · have hne : k ≠ entry.1 := by
        rintro rfl
        exact hfirst (List.mem_map_of_mem (f := (·.1)) hrest)
      rw [if_neg hne, ih hn hrest]

/-- **The keys of a loop lead to the elements**, one to each, in their order. -/
theorem map_step?_iterationKeys {value : Value} (h : value.IsVisitable) :
    (iterationKeys value).map (fun key => value.step? key) = value.elements.map some := by
  cases value with
  | list items =>
    have hstep : ∀ i ∈ List.range items.length, (list items).step? (Text.ofNat i) = items[i]? := by
      intro i hi
      have hlt : i < UInt64.size := Nat.lt_of_lt_of_le (List.mem_range.1 hi) h
      rw [step?, index?_ofNat hlt, Option.bind_some]
    rw [iterationKeys, List.map_map, elements]
    refine (List.map_congr_left hstep).trans (List.ext_getElem (by simp) fun i hi hi' => ?_)
    simp at hi ⊢
  | dict entries =>
    rw [iterationKeys, elements, List.map_map, List.map_map]
    exact List.map_congr_left fun entry hentry => get?_of_mem h.1 hentry
  | _ => cases h

theorem isPlainKey_of_mem {value : Value} (h : value.IsVisitable) {key : Text}
    (hk : key ∈ iterationKeys value) : key.IsPlainKey := by
  cases value with
  | list items =>
    obtain ⟨i, -, rfl⟩ := List.mem_map.1 hk
    exact isPlainKey_ofNat i
  | dict entries => exact h.2 key hk
  | _ => cases h

/-- A key of a loop leads to an element. -/
theorem exists_step? {value : Value} (h : value.IsVisitable) {key : Text}
    (hk : key ∈ iterationKeys value) : ∃ x, value.step? key = some x := by
  have hm : value.step? key ∈ (iterationKeys value).map fun key => value.step? key :=
    List.mem_map_of_mem (f := fun key => value.step? key) hk
  rw [map_step?_iterationKeys h] at hm
  obtain ⟨x, -, hx⟩ := List.mem_map.1 hm
  exact ⟨x, hx.symm⟩

end Value

/-! ## Bodies -/

/-- A line of text and references in the body of a loop: the variable stands at most at the
beginning of a path. -/
structure Line.IsBodyOf (v : Text) (line : Line) : Prop where
  not_rendered : line.rendered = false
  passage : line.text.IsPassage
  leads : ∀ p ∈ line.text.references, Context.OnlyLeads v p

instance (v : Text) (line : Line) : Decidable (line.IsBodyOf v) :=
  decidable_of_iff (_ ∧ _ ∧ _) ⟨fun ⟨a, b, c⟩ => ⟨a, b, c⟩, fun ⟨a, b, c⟩ => ⟨a, b, c⟩⟩

theorem Line.IsBodyOf.suits {it : Iteration} {line : Line}
    (h : line.IsBodyOf it.header.variableName) (hv : it.header.variableName.IsIdentifier)
    (hc : LoopHeader.isPath it.header.collection = true) (hk : it.key.IsPlainKey) :
    it.Suits line.text := by
  refine ⟨hv, h.passage, h.leads, fun p hp => ?_⟩
  obtain ⟨tag, htag, rfl⟩ := List.mem_map.1 hp
  have hpath := (Bool.and_eq_true_iff.1 (h.passage.isReference tag htag)).2
  exact Iteration.isContent_resolved hc hk hpath (h.leads _ hp)

namespace Iteration

variable {it : Iteration}

theorem expand_of_opening {body : List Line} (h : ∀ line ∈ body, ¬ opening <:+: line.text) :
    it.expand body = body.map (it.expandLine 0) := by
  unfold expand
  induction body with
  | nil => rfl
  | cons line body ih =>
    have hl := h line (by simp)
    have hcloses : Directive.loop.closesIn line.text = false :=
      Bool.eq_false_iff.2 fun hc => hl (opening_infix_of_bare hc)
    have hopens : Directive.loop.occursIn line.text = false :=
      Bool.eq_false_iff.2 fun ho => hl (opening_infix_of_keyword ho)
    simp only [expandFrom, hcloses, hopens, Bool.false_eq_true, if_false, List.map_cons]
    rw [ih fun l hm => h l (List.mem_cons_of_mem line hm)]

end Iteration

namespace Render

variable {engine : Engine} {context : Context}

/-- A layer whose lines open nothing is walked. -/
theorem outcome_walk_unopened {lines : List Line}
    (h : ∀ line ∈ lines, line.rendered = true ∨ opened line.text = []) (depth : Nat)
    {session : Session} (hc : session.capture = none) {name : Text} (outer : Chain)
    {kind : LayerKind} (hget : session.layers.get? name = some ⟨kind, lines⟩) :
    outcome (walk engine context (depth + 1) (name :: outer)) session =
      .ok ((), session.write name 0 (lines.map (Line.rewrite engine context))) := by
  have key : ∀ (ls : List Line) (position : Nat) (session : Session), session.capture = none →
      (∀ line ∈ ls, line.rendered = true ∨ opened line.text = []) →
      outcome (handleFrom engine context (walk engine context depth) (name :: outer) name position ls)
          session =
        .ok ((), session.write name position (ls.map (Line.rewrite engine context))) := by
    intro ls
    induction ls with
    | nil =>
      intro position session _ _
      rw [List.map_nil, Session.write_nil]
      rfl
    | cons line ls ih =>
      intro position session hc h
      rw [outcome_handleFrom_cons, outcome_handle_unopened hc (h line (by simp))]
      simp only [Except.bind]
      rw [ih _ _ (by simpa using hc) fun l hm => h l (List.mem_cons_of_mem line hm),
        Session.write_write session name _ (by simp)]
      rfl
  rw [outcome_walk_of_get? hget, key lines 0 (session.entered name) hc h]
  rfl

/-- The line of a body as it reads in the iteration at a position, when there are `depth` loops
around it within the body. -/
def bodyLine (v : Text) (position depth : Nat) (line : Line) : Line :=
  if depth = 0 then line.numberedIn [v] position else line

/-- The text of a body of lines in the iteration at a position, for an element. -/
def bodyText (engine : Engine) (context : Context) (v : Text) (body : List Line) (position : Nat)
    (x : Value) : Text :=
  Nesting.outText (body.map fun line =>
    (bodyLine v position 0 line).rewrite engine (context.insert v x))

section Iteration

variable {v c : Text} (hv : v.IsIdentifier) (hc : LoopHeader.isPath c = true) {key : Text}
  (hk : key.IsPlainKey) {x : Value} (hx : context.get? (c ++ '.' :: key) = some x) (position : Nat)
include hv hc hk hx

/-- **A line of a body in an iteration** is rewritten as if the variable were bound to the element,
at any depth and whatever the other lines are. -/
theorem rewrite_iteration {line : Line} (h : line.IsBodyOf v) (depth : Nat) :
    ((iteration context ⟨v, c⟩ key position).expandLine depth line).rewrite engine context =
      (bodyLine v position depth line).rewrite engine (context.insert v x) := by
  have hbinds : (iteration context ⟨v, c⟩ key position).Binds context (context.insert v x) :=
    .of_insert hk.dotless hx
  have hsuits : (iteration context ⟨v, c⟩ key position).Suits line.text := h.suits hv hc hk
  unfold bodyLine
  split
  · next hd =>
    subst hd
    exact Iteration.rewrite_expandLine hsuits h.not_rendered hbinds
  · next hd => exact Iteration.rewrite_expandLine_inside hsuits h.not_rendered hbinds hd

/-- **An iteration renders** the lines of the body as if the variable were bound to the element. -/
theorem outcome_iteration {body : List Line} (hbody : ∀ line ∈ body, line.IsBodyOf v) (depth : Nat)
    {session : Session} (hs : session.capture = none) (chain : Chain) (name : Text) :
    outcome (transient (walk engine context (depth + 1)) chain name
        ⟨.iteration, (iteration context ⟨v, c⟩ key position).expand body⟩) session =
      .ok (bodyText engine context v body position x, session) := by
  have hexpand : (iteration context ⟨v, c⟩ key position).expand body = _ :=
    Iteration.expand_of_opening fun line hline => (hbody line hline).passage.no_keyword
  have hlines : ∀ line ∈ body.map ((iteration context ⟨v, c⟩ key position).expandLine 0),
      line.rendered = true ∨ opened line.text = [] := by
    intro line' hline'
    obtain ⟨line, hline, rfl⟩ := List.mem_map.1 hline'
    have hsuits : (iteration context ⟨v, c⟩ key position).Suits line.text :=
      (hbody line hline).suits hv hc hk
    right
    rw [Iteration.text_expandLine (hbody line hline).not_rendered]
    exact opened_eq_nil (hsuits.not_opening_infix_expandText 0)
  have hrewrite : (body.map ((iteration context ⟨v, c⟩ key position).expandLine 0)).map
      (Line.rewrite engine context) = body.map fun line =>
        (bodyLine v position 0 line).rewrite engine (context.insert v x) := by
    rw [List.map_map]
    exact List.map_congr_left fun line hline =>
      rewrite_iteration hv hc hk hx position (hbody line hline) 0
  rw [hexpand, bodyText, ← hrewrite]
  generalize body.map ((iteration context ⟨v, c⟩ key position).expandLine 0) = lines at hlines
  have hlength : ∀ out, (.ok (lines.map (Line.rewrite engine context)) :
      Except Error (List Line)) = .ok out → out.length = lines.length := by
    rintro out ⟨⟩
    simp
  exact outcome_transient (walk engine context (depth + 1)) chain name
    ⟨.iteration, lines⟩ session hlength fun full _ =>
      outcome_walk_unopened hlines depth (by exact hs) chain (Stack.get?_insert_self ..)

end Iteration

theorem iterationTexts_ok {run : Nat → Text → Except Error Text} {text : Nat → Text → Text}
    {keys : List Text} (h : ∀ i, ∀ key ∈ keys, run i key = .ok (text i key)) (position : Nat) :
    Nesting.iterationTexts run position keys =
      .ok ((keys.mapIdx fun i key => text (position + i) key).filter fun t => !t.isEmpty) := by
  induction keys generalizing position with
  | nil => rfl
  | cons key keys ih =>
    have hbehind : ∀ i, position + 1 + i = position + (i + 1) := by omega
    rw [Nesting.iterationTexts, h position key (by simp)]
    show (Nesting.iterationTexts run (position + 1) keys).bind _ = _
    rw [ih fun i k hk => h i k (List.mem_cons_of_mem key hk)]
    simp only [Except.bind, List.mapIdx_cons, Nat.add_zero, hbehind]
    cases ht : (text position key).isEmpty <;> simp [ht] <;> rfl

/-- The path of an element names what the key leads to. -/
theorem get?_element {c key : Text} {value : Value} (hvalue : context.get? c = some value)
    (hk : '.' ∉ key) : context.get? (c ++ '.' :: key) = value.step? key := by
  have hsegments : Context.segments (iteration context ⟨[], c⟩ key 0).element = _ :=
    Iteration.segments_element hk
  refine (Context.get?_append hsegments).trans ?_
  show (context.get? c).bind (Context.follow? · [key]) = _
  rw [hvalue, Option.bind_some, Context.follow?]
  cases value.step? key <;> rfl

/-- What the iterations of a loop over lines of text and references render to. -/
theorem outcome_endLoop_elements {v c : Text} (hv : v.IsIdentifier)
    (hc : LoopHeader.isPath c = true) {value : Value} (hvalue : context.get? c = some value)
    (hvisit : value.IsVisitable) {body : List Line} (hbody : ∀ line ∈ body, line.IsBodyOf v)
    (line : Line) {session : Session} (hs : session.capture = none) (chain : Chain) (depth : Nat) :
    outcome (endLoop context (walk engine context (depth + 1)) chain ⟨v, c⟩ body line) session =
      .ok (line.fill (Text.join (separator body)
        ((value.elements.mapIdx (bodyText engine context v body)).filter fun t => !t.isEmpty)),
        session) := by
  let text := fun position (x? : Option Value) =>
    bodyText engine context v body position (x?.getD .null)
  have hrun : ∀ key ∈ iterationKeys value, ∀ position,
      outcome (transient (walk engine context (depth + 1)) chain
        (LoopHeader.key ⟨v, c⟩ ++ '.' :: key)
        ⟨.iteration, (iteration context ⟨v, c⟩ key position).expand body⟩) session =
      (Except.ok (text position (value.step? key))).map (·, session) := by
    intro key hkey position
    have hk := Value.isPlainKey_of_mem hvisit hkey
    obtain ⟨x, hx⟩ := Value.exists_step? hvisit hkey
    rw [outcome_iteration hv hc hk ((get?_element hvalue hk.dotless).trans hx) position hbody depth
      hs, hx]
    rfl
  have htexts : ((iterationKeys value).mapIdx fun i key => text (0 + i) (value.step? key)) =
      value.elements.mapIdx (bodyText engine context v body) := by
    refine List.ext_getElem? fun i => ?_
    have h := congrArg (fun l => (l[i]?).map (text i)) (Value.map_step?_iterationKeys hvisit)
    simp only [List.getElem?_map, Option.map_map] at h
    simp only [List.getElem?_mapIdx, Nat.zero_add]
    exact h
  rw [endLoop, loopKeys, hvalue]
  simp only
  rw [outcome_bind, outcome_iterations hrun 0, iterationTexts_ok (fun _ _ _ => rfl) 0, htexts]
  rfl

/-- A mapping whose keys are words, signs and numbers, and whose elements are mappings. -/
def prices : Value := .dict
  [("green apple".toList, .dict [("price".toList, .int 3)]),
    ("<%".toList, .dict [("price".toList, .null)]),
    ("7".toList, .dict [("price".toList, .str "{{ v }}".toList)])]

end Render

end Stencil
