import Mathlib.Data.List.Forall2
import Stencil.Proofs.Expansion.Numbering
import Stencil.Value.Basic

/-!
# What equal values display

Equal values have one structure and differ at most in how their numbers are written, such as a zero
with a sign and one without, or a whole number and the float it is rounded to. Numbers hold none of
the characters that end an item, so that a collection displays each of them in its place: two equal
values have one dump exactly when no number in them is written in two ways (`dump_ne_iff`).
-/

namespace Stencil

/-! ## The characters of a number -/

/-- Whether the character ends what stands before it in the dump of a collection. -/
def endsItem (c : Char) : Bool := c == ',' || c == ']' || c == '}'

/-- Whether an item of a collection is over where the text begins. -/
def EndsItem (t : Text) : Prop := ∀ c ∈ t.head?, endsItem c = true

theorem EndsItem.cons {c : Char} (h : endsItem c = true) (t : Text) : EndsItem (c :: t) :=
  fun d hd => by
    obtain rfl : c = d := by simpa using hd
    exact h

theorem endsItem_eq_false_of_isDigit {c : Char} (h : c.isDigit = true) : endsItem c = false := by
  have hne : ∀ d : Char, d.isDigit = false → c ≠ d := by
    rintro d hd rfl
    rw [h] at hd
    cases hd
  simp [endsItem, hne ',' rfl, hne ']' rfl, hne '}' rfl]

namespace Text

theorem endsItem_of_mem_ofInt {n : Int} {c : Char} (h : c ∈ ofInt n) : endsItem c = false := by
  unfold ofInt at h
  split at h
  · rcases List.mem_cons.1 h with rfl | h
    · rfl
    · exact endsItem_eq_false_of_isDigit (isDigit_of_mem_ofNat h)
  · exact endsItem_eq_false_of_isDigit (isDigit_of_mem_ofNat h)

theorem mem_stripZeros {reversed : Text} {k : Int} {c : Char}
    (h : c ∈ (Shortest.stripZeros reversed k).1) : c ∈ reversed := by
  fun_induction Shortest.stripZeros reversed k with
  | case1 => exact h
  | case2 rest k ih => exact List.mem_cons_of_mem _ (ih h)
  | case3 reversed k hne => exact List.mem_reverse.1 h

theorem mem_positional {digits : Text} {k : Int} {c : Char}
    (h : c ∈ Shortest.positional digits k) : c ∈ digits ∨ c = '0' ∨ c = '.' := by
  unfold Shortest.positional at h
  simp only at h
  split_ifs at h
  · rcases List.mem_append.1 h with h | h
    · exact .inl h
    · exact .inr (.inl (List.eq_of_mem_replicate h))
  · rcases List.mem_append.1 h with h | h
    · exact .inl (List.mem_of_mem_take h)
    rcases List.mem_cons.1 h with rfl | h
    · exact .inr (.inr rfl)
    · exact .inl (List.mem_of_mem_drop h)
  · rw [List.append_assoc] at h
    rcases List.mem_append.1 h with h | h
    · exact .inr (by simpa using h)
    rcases List.mem_append.1 h with h | h
    · exact .inr (.inl (List.eq_of_mem_replicate h))
    · exact .inl h

theorem endsItem_of_mem_ofFloat {x : Float} {c : Char} (h : c ∈ ofFloat x) :
    endsItem c = false := by
  have hsign : ∀ c ∈ Shortest.sign x, endsItem c = false := by
    intro c hc
    unfold Shortest.sign at hc
    split at hc
    · cases hc
    · rw [List.mem_singleton.1 hc]; rfl
  have hword : ∀ t : Text, t.all (fun c => !endsItem c) = true → c ∈ t → endsItem c = false :=
    fun t ht hc => by simpa using List.all_eq_true.1 ht c hc
  unfold ofFloat at h
  simp only at h
  split_ifs at h
  · exact hword _ rfl h
  · exact (List.mem_append.1 h).elim (hsign c) (hword _ rfl)
  · exact (List.mem_append.1 h).elim (hsign c) (hword _ rfl)
  · refine (List.mem_append.1 h).elim (hsign c) fun h => ?_
    rcases mem_positional h with h | rfl | rfl
    · exact endsItem_eq_false_of_isDigit
        (isDigit_of_mem_ofNat (List.mem_reverse.1 (mem_stripZeros h)))
    · rfl
    · rfl

/-- What ends an item tells the item from what follows it. -/
theorem append_inj_of_endsItem {s t r r' : Text} (hs : ∀ c ∈ s, endsItem c = false)
    (ht : ∀ c ∈ t, endsItem c = false) (hr : EndsItem r) (hr' : EndsItem r')
    (h : s ++ r = t ++ r') : s = t ∧ r = r' := by
  have hcut : ∀ {s r : Text}, (∀ c ∈ s, endsItem c = false) → EndsItem r →
      (s ++ r).takeWhile (fun c => !endsItem c) = s := by
    intro s r hs hr
    have hnone : r.takeWhile (fun c => !endsItem c) = [] := by
      cases r with
      | nil => rfl
      | cons c r => simp [hr c (by simp)]
    rw [List.takeWhile_append_of_pos (fun c hc => by simp [hs c hc]), hnone, List.append_nil]
  obtain rfl : s = t := by rw [← hcut hs hr, h, hcut ht hr']
  exact ⟨rfl, List.append_cancel_left h⟩

end Text

namespace Value

/-! ## Equal values -/

/-- Whether the value is a whole number or a float. -/
def isNumber : Value → Bool
  | int _ | float _ => true
  | _ => false

/-- Whether the value is a list or a mapping. -/
def isCollection : Value → Bool
  | list _ | dict _ => true
  | _ => false

theorem sameItems_iff {as bs : List Value} :
    sameItems as bs = true ↔ List.Forall₂ (fun a b => same a b = true) as bs := by
  induction as generalizing bs with
  | nil => cases bs <;> simp [sameItems]
  | cons a as ih => cases bs <;> simp [sameItems, ih]

theorem sameEntries_iff {as bs : List (Text × Value)} :
    sameEntries as bs = true ↔
      List.Forall₂ (fun e f => e.1 = f.1 ∧ same e.2 f.2 = true) as bs := by
  induction as generalizing bs with
  | nil => cases bs <;> simp [sameEntries]
  | cons a as ih => cases bs <;> simp [sameEntries, ih, and_assoc]

/-- Equal values are one and the same, two numbers, or two collections with equal parts. -/
theorem same_cases {a b : Value} (h : same a b = true) :
    a = b ∧ a.isCollection = false ∨
      a.isNumber = true ∧ b.isNumber = true ∨
      (∃ as bs, a = list as ∧ b = list bs ∧ List.Forall₂ (fun a b => same a b = true) as bs) ∨
      ∃ as bs, a = dict as ∧ b = dict bs ∧
        List.Forall₂ (fun e f => e.1 = f.1 ∧ same e.2 f.2 = true) as bs := by
  cases a with
  | list as =>
    cases b with
    | list bs => exact .inr (.inr (.inl ⟨as, bs, rfl, rfl, sameItems_iff.1 h⟩))
    | _ => cases h
  | dict as =>
    cases b with
    | dict bs => exact .inr (.inr (.inr ⟨as, bs, rfl, rfl, sameEntries_iff.1 h⟩))
    | _ => cases h
  | int n => cases b <;> first | exact .inr (.inl ⟨rfl, rfl⟩) | cases h
  | float x => cases b <;> first | exact .inr (.inl ⟨rfl, rfl⟩) | cases h
  | str s =>
    cases b with
    | str t => exact .inl ⟨congrArg str (beq_iff_eq.1 h), rfl⟩
    | _ => cases h
  | bool p =>
    cases b with
    | bool q => exact .inl ⟨congrArg bool (beq_iff_eq.1 h), rfl⟩
    | _ => cases h
  | null =>
    cases b with
    | null => exact .inl ⟨rfl, rfl⟩
    | _ => cases h

/-- Equal values from the parts up: what holds of two numbers, of a value beside itself, and of two
collections whose parts are equal and have it, holds of any two equal values. -/
theorem same_induction {motive : Value → Value → Prop}
    (scalar : ∀ a, motive a a)
    (number : ∀ a b, a.isNumber = true → b.isNumber = true → motive a b)
    (list : ∀ as bs, List.Forall₂ (fun a b => same a b = true ∧ motive a b) as bs →
      motive (list as) (list bs))
    (dict : ∀ as bs : List (Text × Value),
      List.Forall₂ (fun e f => e.1 = f.1 ∧ same e.2 f.2 = true ∧ motive e.2 f.2) as bs →
      motive (dict as) (dict bs))
    (a b : Value) (h : same a b = true) : motive a b := by
  rcases same_cases h with ⟨rfl, -⟩ | ⟨ha, hb⟩ | ⟨as, bs, ha, hb, hs⟩ | ⟨as, bs, ha, hb, hs⟩
  · exact scalar a
  · exact number a b ha hb
  · have hparts := List.forall₂_iff_zip.1 hs
    rw [ha, hb]
    refine list as bs (List.forall₂_iff_zip.2 ⟨hparts.1, fun {x y} hxy => ?_⟩)
    have hsmaller : sizeOf x < sizeOf a := by
      have hx := List.sizeOf_lt_of_mem (List.of_mem_zip hxy).1
      rw [ha, Value.list.sizeOf_spec]
      omega
    exact ⟨hparts.2 hxy, same_induction scalar number list dict x y (hparts.2 hxy)⟩
  · have hparts := List.forall₂_iff_zip.1 hs
    rw [ha, hb]
    refine dict as bs (List.forall₂_iff_zip.2 ⟨hparts.1, fun {x y} hxy => ?_⟩)
    have hsmaller : sizeOf x.2 < sizeOf a := by
      have hx := List.sizeOf_lt_of_mem (List.of_mem_zip hxy).1
      rw [Prod.mk.sizeOf_spec] at hx
      rw [ha, Value.dict.sizeOf_spec]
      omega
    obtain ⟨hkey, hsame⟩ := hparts.2 hxy
    exact ⟨hkey, hsame, same_induction scalar number list dict x.2 y.2 hsame⟩
termination_by sizeOf a

/-! ## The dump of a collection -/

/-- The texts with commas between them and brackets around them. -/
def bracket (opening closing : Char) (parts : List Text) : Text :=
  opening :: Text.join ", ".toList parts ++ [closing]

/-- An entry of a mapping in its dump. -/
def dumpEntry (e : Text × Value) : Text := '\'' :: e.1 ++ "': ".toList ++ e.2.dump

theorem dump_list (items : List Value) :
    (list items).dump = bracket '[' ']' (items.map dump) := by
  have hitems : dumpItems items = Text.join ", ".toList (items.map dump) := by
    induction items with
    | nil => rfl
    | cons item rest ih =>
      cases rest with
      | nil => rfl
      | cons next rest => rw [dumpItems, ih]; rfl
  rw [dump, hitems, bracket]

theorem dump_dict (entries : List (Text × Value)) :
    (dict entries).dump = bracket '{' '}' (entries.map dumpEntry) := by
  have hentries : dumpEntries entries = Text.join ", ".toList (entries.map dumpEntry) := by
    induction entries with
    | nil => rfl
    | cons entry rest ih =>
      cases rest with
      | nil => rfl
      | cons next rest => rw [dumpEntries, ih]; rfl
  rw [dump, hentries, bracket]

/-- Whether two texts can be told from what follows them once an item ends there: if both are
continued to one text, the two are the same, and so is what follows. -/
def Told (s t : Text) : Prop :=
  ∀ r r', EndsItem r → EndsItem r' → s ++ r = t ++ r' → s = t ∧ r = r'

theorem Told.refl (t : Text) : Told t t := fun _ _ _ _ h => ⟨rfl, List.append_cancel_left h⟩

/-- Texts with commas between them are told apart one by one. -/
theorem told_join {ss ts : List Text} (h : List.Forall₂ Told ss ts) {r r' : Text} (hr : EndsItem r)
    (hr' : EndsItem r')
    (heq : Text.join ", ".toList ss ++ r = Text.join ", ".toList ts ++ r') : ss = ts ∧ r = r' := by
  induction h with
  | nil => exact ⟨rfl, heq⟩
  | @cons s t ss ts hst hrest ih =>
    cases hrest with
    | nil =>
      obtain ⟨rfl, rfl⟩ := hst r r' hr hr' heq
      exact ⟨rfl, rfl⟩
    | @cons s' t' ss ts hst' hrest =>
      obtain ⟨rfl, hbehind⟩ := hst (',' :: ' ' :: _) (',' :: ' ' :: _) (.cons rfl _) (.cons rfl _)
        (by simpa [Text.join] using heq)
      simp only [List.cons.injEq, true_and] at hbehind
      obtain ⟨htail, rfl⟩ := ih hbehind
      exact ⟨congrArg (s :: ·) htail, rfl⟩

/-- A collection ends where its last bracket is, whatever follows. -/
theorem bracket_inj {ss ts : List Text} (h : List.Forall₂ Told ss ts) {opening closing : Char}
    (hc : endsItem closing = true) {r r' : Text}
    (heq : bracket opening closing ss ++ r = bracket opening closing ts ++ r') :
    ss = ts ∧ r = r' := by
  obtain ⟨hparts, hrest⟩ := told_join h (.cons hc r) (.cons hc r') (by simpa [bracket] using heq)
  exact ⟨hparts, List.tail_eq_of_cons_eq hrest⟩

theorem Told.entry {e f : Text × Value} (hkey : e.1 = f.1) (h : Told e.2.dump f.2.dump) :
    Told (dumpEntry e) (dumpEntry f) := by
  intro r r' hr hr' heq
  obtain ⟨hvalue, hrest⟩ := h r r' hr hr' (by simpa [dumpEntry, hkey] using heq)
  exact ⟨by rw [dumpEntry, dumpEntry, hkey, hvalue], hrest⟩

theorem endsItem_of_mem_dump {a : Value} (h : a.isNumber = true) {c : Char} (hc : c ∈ a.dump) :
    endsItem c = false := by
  cases a with
  | int n => exact Text.endsItem_of_mem_ofInt (by rwa [dump] at hc)
  | float x => exact Text.endsItem_of_mem_ofFloat (by rwa [dump] at hc)
  | _ => cases h

/-- The dumps of equal values are told from what follows them. -/
theorem told_dump {a b : Value} (h : same a b = true) : Told a.dump b.dump := by
  refine same_induction (motive := fun a b => Told a.dump b.dump) (fun a => .refl _) ?_ ?_ ?_ a b h
  · intro a b ha hb r r' hr hr' heq
    exact Text.append_inj_of_endsItem (fun _ => endsItem_of_mem_dump ha)
      (fun _ => endsItem_of_mem_dump hb) hr hr' heq
  · intro as bs hparts r r' _ _ heq
    rw [dump_list, dump_list] at heq ⊢
    have htold : List.Forall₂ Told (as.map dump) (bs.map dump) :=
      List.forall₂_map_left_iff.2 (List.forall₂_map_right_iff.2 (hparts.imp fun _ _ h => h.2))
    obtain ⟨htexts, hrest⟩ := bracket_inj htold rfl heq
    exact ⟨by rw [htexts], hrest⟩
  · intro as bs hparts r r' _ _ heq
    rw [dump_dict, dump_dict] at heq ⊢
    have htold : List.Forall₂ Told (as.map dumpEntry) (bs.map dumpEntry) :=
      List.forall₂_map_left_iff.2
        (List.forall₂_map_right_iff.2 (hparts.imp fun _ _ h => .entry h.1 h.2.2))
    obtain ⟨htexts, hrest⟩ := bracket_inj htold rfl heq
    exact ⟨by rw [htexts], hrest⟩

/-! ## Numbers written in two ways -/

/-- Whether the values have a number in one place that they write differently. -/
inductive Respelled : Value → Value → Prop where
  /-- Two numbers with different texts. -/
  | number {a b : Value} (ha : a.isNumber = true) (hb : b.isNumber = true) (h : a.dump ≠ b.dump) :
    Respelled a b
  /-- Two lists with such a number in one of their places. -/
  | item {as bs : List Value} {a b : Value} (hmem : (a, b) ∈ as.zip bs) (h : Respelled a b) :
    Respelled (list as) (list bs)
  /-- Two mappings with such a number in one of their places. -/
  | entry {as bs : List (Text × Value)} {e f : Text × Value} (hmem : (e, f) ∈ as.zip bs)
    (h : Respelled e.2 f.2) : Respelled (dict as) (dict bs)

section Parts

variable {α : Type} {f : α → Text} {as bs : List α}

theorem exists_ne_of_map_ne (hlength : as.length = bs.length) (h : as.map f ≠ bs.map f) :
    ∃ p ∈ as.zip bs, f p.1 ≠ f p.2 := by
  by_contra hnone
  push Not at hnone
  refine h (List.forall₂_eq_eq_eq ▸ List.forall₂_map_left_iff.2 (List.forall₂_map_right_iff.2 ?_))
  exact List.forall₂_iff_zip.2 ⟨hlength, fun hmem => hnone _ hmem⟩

theorem eq_of_map_eq (h : as.map f = bs.map f) {p : α × α} (hmem : p ∈ as.zip bs) :
    f p.1 = f p.2 := by
  rw [← List.forall₂_eq_eq_eq, List.forall₂_map_left_iff, List.forall₂_map_right_iff] at h
  exact (List.forall₂_iff_zip.1 h).2 hmem

end Parts

theorem respelled_of_dump_ne {a b : Value} (h : same a b = true) (hne : a.dump ≠ b.dump) :
    Respelled a b := by
  refine same_induction (motive := fun a b => a.dump ≠ b.dump → Respelled a b) ?_ ?_ ?_ ?_ a b h hne
  · exact fun a hne => absurd rfl hne
  · exact fun a b ha hb hne => .number ha hb hne
  · intro as bs hparts hne
    have hzip := List.forall₂_iff_zip.1 hparts
    obtain ⟨⟨x, y⟩, hmem, hxy⟩ := exists_ne_of_map_ne (f := dump) hzip.1 fun heq =>
      hne (by rw [dump_list, dump_list, heq])
    exact .item hmem ((hzip.2 hmem).2 hxy)
  · intro as bs hparts hne
    have hzip := List.forall₂_iff_zip.1 hparts
    obtain ⟨⟨x, y⟩, hmem, hxy⟩ := exists_ne_of_map_ne (f := dumpEntry) hzip.1 fun heq =>
      hne (by rw [dump_dict, dump_dict, heq])
    obtain ⟨hkey, -, hrespelled⟩ := hzip.2 hmem
    exact .entry hmem (hrespelled fun hvalue => hxy (by rw [dumpEntry, dumpEntry, hkey, hvalue]))

theorem dump_ne_of_respelled {a b : Value} (h : Respelled a b) (hs : same a b = true) :
    a.dump ≠ b.dump := by
  induction h with
  | number _ _ hne => exact hne
  | @item as bs a b hmem _ ih =>
    have hparts := sameItems_iff.1 hs
    have htold : List.Forall₂ Told (as.map dump) (bs.map dump) :=
      List.forall₂_map_left_iff.2 (List.forall₂_map_right_iff.2 (hparts.imp fun _ _ => told_dump))
    intro heq
    rw [dump_list, dump_list] at heq
    have htexts := (bracket_inj htold rfl (congrArg (· ++ []) heq)).1
    exact ih ((List.forall₂_iff_zip.1 hparts).2 hmem) (eq_of_map_eq htexts hmem)
  | @entry as bs e f hmem _ ih =>
    have hparts := sameEntries_iff.1 hs
    have htold : List.Forall₂ Told (as.map dumpEntry) (bs.map dumpEntry) :=
      List.forall₂_map_left_iff.2
        (List.forall₂_map_right_iff.2 (hparts.imp fun _ _ h => .entry h.1 (told_dump h.2)))
    intro heq
    rw [dump_dict, dump_dict] at heq
    have htexts := (bracket_inj htold rfl (congrArg (· ++ []) heq)).1
    obtain ⟨hkey, hsame⟩ := (List.forall₂_iff_zip.1 hparts).2 hmem
    have hentry : dumpEntry e = dumpEntry f := eq_of_map_eq htexts hmem
    exact ih hsame (by simpa [dumpEntry, hkey] using hentry)

/-- **Two equal values display differently** if they have a number in one place that they write
differently, and only then. -/
theorem dump_ne_iff {a b : Value} (h : same a b = true) : a.dump ≠ b.dump ↔ Respelled a b :=
  ⟨respelled_of_dump_ne h, fun hr => dump_ne_of_respelled hr h⟩

end Value

end Stencil
