import Stencil.Proofs.Condition.Cutting
import Stencil.Proofs.Expansion.Numbering
import Stencil.Proofs.Text.Split

/-!
# The words of a condition

A word of a condition is an identifier unless it is a keyword or reads as a number
(`classify_eq_identifier_iff`). A word that is no identifier has no part that a loop could take for
a path, save a keyword or one of the words for infinity and for no number
(`not_identifier_of_mem_splitOn`), and a path into a collection is an identifier unless the
collection is a number (`classify_path`).
-/

namespace Stencil

/-! ## Numerals -/

namespace Numeral

/-- A text is a sign, or none, and the rest. -/
theorem splitSign_spec (t : Text) :
    t = (splitSign t).2 ∨ t = '-' :: (splitSign t).2 ∨ t = '+' :: (splitSign t).2 := by
  unfold splitSign
  split
  · exact .inr (.inl rfl)
  · exact .inr (.inr rfl)
  · exact .inl rfl

theorem splitSign_of_head {t : Text} (h : ∀ c ∈ t.head?, c ≠ '-' ∧ c ≠ '+') :
    splitSign t = (false, t) := by
  unfold splitSign
  split
  · exact absurd rfl (h '-' rfl).1
  · exact absurd rfl (h '+' rfl).2
  · rfl

theorem isDigits_iff {t : Text} : isDigits t = true ↔ t ≠ [] ∧ ∀ c ∈ t, c.isDigit = true := by
  simp [isDigits]

/-- A sign, or none, and digits. -/
def IsSigned (t : Text) : Prop :=
  ∃ sign ds, t = sign ++ ds ∧ (sign = [] ∨ sign = ['-'] ∨ sign = ['+']) ∧ isDigits ds = true

/-- The parts of a numeral without a sign: digits, a point and more digits, and a power of ten. -/
structure IsUnsigned (whole point power : Text) : Prop where
  digits : ∀ c ∈ whole, c.isDigit = true
  pointed : point = [] ∧ whole ≠ [] ∨ ∃ ds, point = '.' :: ds ∧ ∀ c ∈ ds, c.isDigit = true
  powered : power = [] ∨ ∃ e t, power = e :: t ∧ (e = 'e' ∨ e = 'E') ∧ IsSigned t

theorem isSigned_of_splitSign {t : Text} (h : isDigits (splitSign t).2 = true) : IsSigned t := by
  rcases splitSign_spec t with ht | ht | ht
  · exact ⟨[], _, ht, .inl rfl, h⟩
  · exact ⟨['-'], _, ht, .inr (.inl rfl), h⟩
  · exact ⟨['+'], _, ht, .inr (.inr rfl), h⟩

theorem isSigned_of_exponent? {t : Text} {n : Int} (h : exponent? t = some n) : IsSigned t := by
  unfold exponent? at h
  simp only at h
  split at h
  · next hds => exact isSigned_of_splitSign hds
  · cases h

theorem isSigned_of_int64? {t : Text} {n : Int} (h : int64? t = some n) : IsSigned t := by
  unfold int64? at h
  simp only at h
  split at h
  · next hds => exact isSigned_of_splitSign hds
  · cases h

theorem IsSigned.dot_not_mem {t : Text} (h : IsSigned t) : '.' ∉ t := by
  obtain ⟨sign, ds, rfl, hsign, hds⟩ := h
  have hdot : '.' ∉ ds := fun hm => absurd ((isDigits_iff.1 hds).2 _ hm) (by decide)
  rcases hsign with rfl | rfl | rfl <;> simpa using hdot

/-- A numeral has digits alone before its point, and no other point. -/
theorem IsUnsigned.eq_whole {whole point power a b : Text} (h : IsUnsigned whole point power)
    (ht : a ++ '.' :: b = whole ++ (point ++ power)) : a = whole ∧ '.' ∉ b := by
  have hwhole : '.' ∉ whole := fun hm => absurd (h.digits _ hm) (by decide)
  have hpower : '.' ∉ power := by
    rcases h.powered with rfl | ⟨e, t, rfl, he, hs⟩
    · simp
    · rcases he with rfl | rfl <;> simpa using hs.dot_not_mem
  rcases h.pointed with ⟨rfl, -⟩ | ⟨ds, rfl, hds⟩
  · have hm : '.' ∈ whole ++ ([] ++ power) := by
      rw [← ht]
      simp
    simp [hwhole, hpower] at hm
  · have hrest : '.' ∉ ds ++ power := by
      have hds' : '.' ∉ ds := fun hm => absurd (hds _ hm) (by decide)
      simp [hds', hpower]
    -- the point is the first one and the last one
    have hsplit := congrArg (Text.splitOn '.') ht
    rw [List.cons_append, Text.splitOn_append, Text.splitOn_append, Text.splitOn_of_not_mem hwhole,
      Text.splitOn_of_not_mem hrest] at hsplit
    obtain ⟨u, us, hu⟩ := List.exists_cons_of_ne_nil (Text.splitOn_ne_nil '.' a)
    obtain ⟨v, vs, hv⟩ := List.exists_cons_of_ne_nil (Text.splitOn_ne_nil '.' b)
    have hlen := congrArg List.length hsplit
    simp only [hu, hv, List.length_append, List.length_cons, List.length_nil] at hlen
    obtain rfl : us = [] := List.length_eq_zero_iff.1 (by omega)
    obtain rfl : vs = [] := List.length_eq_zero_iff.1 (by omega)
    have ha : Text.join ['.'] (Text.splitOn '.' a) = a := Text.join_splitOn a
    have hb : Text.join ['.'] (Text.splitOn '.' b) = b := Text.join_splitOn b
    rw [hu] at ha
    rw [hv] at hb
    obtain rfl : u = a := ha
    obtain rfl : v = b := hb
    rw [hu, hv] at hsplit
    refine ⟨(List.cons.inj hsplit).1, ?_⟩
    exact Text.not_mem_of_mem_splitOn (by rw [hv]; exact List.mem_singleton_self v)

theorem exists_of_unsigned? {negative : Bool} {t : Text} {d : Decimal}
    (h : unsigned? negative t = some d) :
    ∃ whole point power, t = whole ++ (point ++ power) ∧ IsUnsigned whole point power := by
  have hdigits : ∀ {s : Text}, ∀ c ∈ s.takeWhile Char.isDigit, c.isDigit = true :=
    fun c hc => List.all_eq_true.1 List.all_takeWhile c hc
  -- what stands behind the digits is a power of ten
  have hpower : ∀ {e : Char} {s : Text} {shifted : Int → Decimal},
      (if e == 'e' || e == 'E' then (exponent? s).map shifted else none) = some d →
      (e = 'e' ∨ e = 'E') ∧ IsSigned s := by
    intro e s shifted h
    split at h
    · next he =>
      obtain ⟨n, hn, -⟩ := Option.map_eq_some_iff.1 h
      exact ⟨by simpa using he, isSigned_of_exponent? hn⟩
    · cases h
  have ht : t = t.takeWhile Char.isDigit ++ t.dropWhile Char.isDigit :=
    List.takeWhile_append_dropWhile.symm
  unfold unsigned? at h
  simp only at h
  split at h
  · next rest hrest =>
    split at h
    · cases h
    refine ⟨t.takeWhile Char.isDigit, '.' :: rest.takeWhile Char.isDigit,
      rest.dropWhile Char.isDigit, ?_, hdigits, .inr ⟨_, rfl, hdigits⟩, ?_⟩
    · rw [List.cons_append, List.takeWhile_append_dropWhile, ← hrest]
      exact ht
    · cases hp : rest.dropWhile Char.isDigit with
      | nil => exact .inl rfl
      | cons e s =>
        rw [hp] at h
        exact .inr ⟨e, s, rfl, hpower h⟩
  · split at h
    · cases h
    next hne =>
    refine ⟨_, [], _, ht, hdigits, .inl ⟨rfl, fun e => hne (by rw [e]; rfl)⟩, ?_⟩
    cases hp : t.dropWhile Char.isDigit with
    | nil => exact .inl rfl
    | cons e s =>
      rw [hp] at h
      exact .inr ⟨e, s, rfl, hpower h⟩

/-- The words for infinity and for no number. -/
def words : List Text := ["inf".toList, "infinity".toList, "nan".toList]

theorem float?_cases {t : Text} {x : Float} (h : float? t = some x) :
    Text.toLower (splitSign t).2 ∈ words ∨
      ∃ whole point power, (splitSign t).2 = whole ++ (point ++ power) ∧
        IsUnsigned whole point power := by
  unfold float? at h
  simp only at h
  split at h
  · next hw => exact .inl (by simpa [words, or_assoc] using Or.inl hw)
  split at h
  · next hw => exact .inl (by simp [words, beq_iff_eq.1 hw])
  · obtain ⟨d, hd, -⟩ := Option.map_eq_some_iff.1 h
    exact .inr (exists_of_unsigned? hd)

/-! ## The parts of a numeral between hyphens -/

theorem startsPath_of_isDigit {c : Char} (h : c.isDigit = true) (t : Text) :
    startsPath (c :: t) = false := isPathStart_eq_false_of_isDigit h

theorem hyphen_not_mem_digits {ds : Text} (h : ∀ c ∈ ds, c.isDigit = true) : '-' ∉ ds := fun hm =>
  absurd (h _ hm) (by decide)

theorem IsSigned.not_startsPath {t : Text} (h : IsSigned t) {p : Text}
    (hp : p ∈ Text.splitOn '-' t) : startsPath p = false := by
  obtain ⟨sign, ds, rfl, hsign, hds⟩ := h
  obtain ⟨hne, hds⟩ := isDigits_iff.1 hds
  have hn := hyphen_not_mem_digits hds
  obtain ⟨d, ds, rfl⟩ := List.exists_cons_of_ne_nil hne
  have hd := startsPath_of_isDigit (hds d (by simp)) ds
  rcases hsign with rfl | rfl | rfl
  · rw [List.nil_append, Text.splitOn_of_not_mem hn, List.mem_singleton] at hp
    rw [hp, hd]
  · rw [List.singleton_append, Text.splitOn_sep, Text.splitOn_of_not_mem hn] at hp
    rcases List.mem_cons.1 hp with rfl | hp
    · rfl
    · rw [List.mem_singleton.1 hp, hd]
  · have hn' : '-' ∉ ['+'] ++ d :: ds := by simpa using hn
    rw [Text.splitOn_of_not_mem hn', List.mem_singleton] at hp
    rw [hp]
    show isPathStart '+' = false
    decide

theorem IsUnsigned.not_startsPath {whole point power : Text} (h : IsUnsigned whole point power)
    {p : Text} (hp : p ∈ Text.splitOn '-' (whole ++ (point ++ power))) : startsPath p = false := by
  have hpoint : '-' ∉ point := by
    rcases h.pointed with ⟨rfl, -⟩ | ⟨ds, rfl, hds⟩
    · simp
    · simpa using hyphen_not_mem_digits hds
  have hn : '-' ∉ whole ++ point := by
    simpa using ⟨hyphen_not_mem_digits h.digits, hpoint⟩
  have hstarts : ∀ t, startsPath (whole ++ point ++ t) = false := by
    intro t
    cases hw : whole with
    | cons c cs => exact startsPath_of_isDigit (h.digits c (by simp [hw])) _
    | nil =>
      rcases h.pointed with ⟨-, hne⟩ | ⟨ds, rfl, -⟩
      · exact absurd hw hne
      · show isPathStart '.' = false
        decide
  rw [← List.append_assoc] at hp
  rcases h.powered with rfl | ⟨e, t, rfl, he, ht⟩
  · rw [List.append_nil, Text.splitOn_of_not_mem hn, List.mem_singleton] at hp
    rw [hp, ← List.append_nil (whole ++ point), hstarts]
  · have hne : '-' ∉ whole ++ point ++ [e] := by
      rcases he with rfl | rfl <;> simpa using hn
    obtain ⟨w, ws, hw, hsplit⟩ := Text.splitOn_append_left hne t
    rw [List.append_assoc, List.singleton_append] at hsplit
    rw [hsplit] at hp
    rcases List.mem_cons.1 hp with rfl | hp
    · rw [List.append_assoc, hstarts]
    · exact ht.not_startsPath (by rw [hw]; exact List.mem_cons_of_mem w hp)

/-- A sign begins no path. -/
theorem mem_splitOn_splitSign {t p : Text} (hp : p ∈ Text.splitOn '-' t)
    (hs : startsPath p = true) : p ∈ Text.splitOn '-' (splitSign t).2 := by
  rcases splitSign_spec t with ht | ht | ht
  · rwa [← ht]
  · rw [ht, Text.splitOn_sep] at hp
    rcases List.mem_cons.1 hp with rfl | hp
    · cases hs
    · exact hp
  · obtain ⟨w, ws, hw, hsplit⟩ := Text.splitOn_cons (by decide : '+' ≠ '-') (splitSign t).2
    rw [ht, hsplit] at hp
    rcases List.mem_cons.1 hp with rfl | hp
    · exact absurd hs (by show ¬ isPathStart '+' = true; decide)
    · rw [hw]
      exact List.mem_cons_of_mem w hp

/-! ## Words in any case -/

theorem mem_toLower {c : Char} {t : Text} (h : c ∈ t) : c.toLower ∈ Text.toLower t :=
  List.mem_map_of_mem h

theorem isSome_float?_of_words {t : Text} (h : Text.toLower t ∈ words) :
    (float? t).isSome = true := by
  have hsign : ∀ c ∈ t.head?, c ≠ '-' ∧ c ≠ '+' := by
    intro c hc
    have hlower : c.toLower ∈ (Text.toLower t).head? := by
      obtain ⟨u, rfl⟩ := List.head?_eq_some_iff.1 hc
      rfl
    constructor <;> rintro rfl <;> revert hlower <;> revert h <;>
      generalize Text.toLower t = u <;> revert u <;> decide
  have hsplit := splitSign_of_head hsign
  simp only [words, List.mem_cons, List.not_mem_nil, or_false] at h
  unfold float?
  rcases h with h | h | h <;> simp [hsplit, h]

end Numeral

namespace Condition

open Numeral

/-! ## Identifiers -/

/-- The words for operators and values. -/
def reserved : List Text :=
  ["and".toList, "or".toList, "not".toList, "true".toList, "false".toList, "null".toList,
    "none".toList]

/-- **A word is an identifier** if it is not reserved and no number. -/
theorem classify_eq_identifier_iff {w p : Text} :
    classify w = .identifier p ↔
      p = w ∧ Text.toLower w ∉ reserved ∧ int64? w = none ∧ float? w = none := by
  have hword : ∀ {s : String}, String.ofList (Text.toLower w) = s → Text.toLower w = s.toList := by
    rintro _ rfl
    simp
  unfold classify
  split
  case h_8 hand hor hnot htrue hfalse hnull hnone =>
    have hfree : Text.toLower w ∉ reserved := by
      intro hm
      simp only [reserved, List.mem_cons, List.not_mem_nil, or_false] at hm
      rcases hm with h | h | h | h | h | h | h <;> simp_all
    cases int64? w with
    | some n => simp
    | none =>
      cases float? w with
      | some x => simp
      | none => simp [hfree, eq_comm]
  all_goals
    next h =>
    refine iff_of_false (by simp) fun hfree => hfree.2.1 ?_
    rw [hword h]
    decide

theorem classify_ne_str (w s : Text) : classify w ≠ .literal (.str s) := by
  unfold classify
  split <;> try simp
  cases int64? w with
  | some n => simp
  | none => cases float? w <;> simp

/-- **What a loop could take for a path** in a word that is no identifier is none either. -/
theorem not_identifier_of_mem_splitOn {w p : Text} (hw : ∀ q, classify w ≠ .identifier q)
    (hp : p ∈ Text.splitOn '-' w) (hs : startsPath p = true) :
    '.' ∉ p ∧ ∀ q, classify p ≠ .identifier q := by
  have hlower : ∀ {c : Char} {t : Text}, c.toLower = c → c ∉ Text.toLower t → c ∉ t :=
    fun hc ht hm => ht (hc ▸ mem_toLower hm)
  by_cases hreserved : Text.toLower w ∈ reserved
  · have hfree : ∀ t ∈ reserved, '-' ∉ t ∧ '.' ∉ t := by decide
    obtain ⟨hhyphen, hdot⟩ := hfree _ hreserved
    rw [Text.splitOn_of_not_mem (hlower rfl hhyphen), List.mem_singleton] at hp
    rw [hp]
    exact ⟨hlower rfl hdot, hw⟩
  cases hint : int64? w with
  | some n =>
    rw [(isSigned_of_int64? hint).not_startsPath hp] at hs
    cases hs
  | none =>
    cases hfloat : float? w with
    | none => exact absurd (classify_eq_identifier_iff.2 ⟨rfl, hreserved, hint, hfloat⟩) (hw w)
    | some x =>
      have hp' := mem_splitOn_splitSign hp hs
      rcases float?_cases hfloat with hwords | ⟨whole, point, power, hbody, hparts⟩
      · have hfree : ∀ t ∈ Numeral.words, '-' ∉ t ∧ '.' ∉ t := by decide
        obtain ⟨hhyphen, hdot⟩ := hfree _ hwords
        rw [Text.splitOn_of_not_mem (hlower rfl hhyphen), List.mem_singleton] at hp'
        rw [hp']
        refine ⟨hlower rfl hdot, fun q hq => ?_⟩
        have hsome := isSome_float?_of_words hwords
        rw [(classify_eq_identifier_iff.1 hq).2.2.2] at hsome
        cases hsome
      · rw [hbody] at hp'
        rw [hparts.not_startsPath hp'] at hs
        cases hs

/-- **A path into a collection** is an identifier, unless the collection is a number and nothing but
a key follows. -/
theorem classify_path {a b : Text} (ha : ∀ c ∈ a, isPathPart c = true) (hne : a ≠ [])
    (h : isDigits a = false ∨ '.' ∈ b) :
    classify (a ++ '.' :: b) = .identifier (a ++ '.' :: b) := by
  have hm : '.' ∈ a ++ '.' :: b := by simp
  have hlower : '.' ∈ Text.toLower (a ++ '.' :: b) := mem_toLower hm
  have hsign : splitSign (a ++ '.' :: b) = (false, a ++ '.' :: b) := by
    obtain ⟨x, xs, rfl⟩ := List.exists_cons_of_ne_nil hne
    have hpart := ha x (by simp)
    refine splitSign_of_head fun c hc => ?_
    cases hc
    constructor <;> rintro rfl <;> exact absurd hpart (by decide)
  refine classify_eq_identifier_iff.2 ⟨rfl, fun hr => ?_, ?_, ?_⟩
  · have hfree : ∀ t ∈ reserved, '.' ∉ t := by decide
    exact hfree _ hr hlower
  · cases hint : int64? (a ++ '.' :: b) with
    | none => rfl
    | some n => exact absurd hm (isSigned_of_int64? hint).dot_not_mem
  · cases hfloat : float? (a ++ '.' :: b) with
    | none => rfl
    | some x =>
      have hcases := float?_cases hfloat
      rw [hsign] at hcases
      rcases hcases with hwords | ⟨whole, point, power, hbody, hparts⟩
      · have hfree : ∀ t ∈ Numeral.words, '.' ∉ t := by decide
        exact absurd hlower (hfree _ hwords)
      · obtain ⟨rfl, hb⟩ := hparts.eq_whole hbody
        rw [isDigits_iff.2 ⟨hne, hparts.digits⟩] at h
        exact absurd (h.resolve_left (by simp)) hb

end Condition

end Stencil
