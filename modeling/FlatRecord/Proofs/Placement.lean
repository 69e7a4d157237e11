import FlatRecord.Layout
import Mathlib.Algebra.Order.Floor.Div
import Mathlib.Data.List.Nodup
import Mathlib.Order.Bounds.Basic

/-!
# Where fields are placed

`Record.layout` works with sizes: every product and sum of it is tested, and the
first that is no size ends it. What it ought to compute needs no test. In
numbers of any size a field takes `Field.exactWidth` bytes, begins at the first
multiple of its unit that the field before it leaves free, and that is all:
`Record.exactSlots`.

The two agree as far as they can (`Record.layout_exact_or_refused`). A record
whose exact slots all end at a size has them for its layout, and they fill the
buffer without a gap that is not padding. Any other record is refused, at the
first field whose exact slot ends too far – not at one whose partial product
happens to be large, and not one field late.

## The operations without a test

Only the padding is computed without one. It takes a difference and two
remainders, which on a machine could go below zero or divide by zero.
`paddingWord?` is that computation on words, with no result where it would trap,
and it has one at every cursor that a layout comes to.
-/

namespace FlatRecord

/-! ## The least multiple that is not below -/

/-- The least multiple of a unit that is not below a number. -/
def roundUp (unit n : Nat) : Nat := unit * (n ⌈/⌉ unit)

theorem isLeast_roundUp {unit : Nat} (h : 0 < unit) (n : Nat) :
    IsLeast {m | unit ∣ m ∧ n ≤ m} (roundUp unit n) := by
  refine ⟨⟨Nat.dvd_mul_right _ _, (ceilDiv_le_iff_le_mul h).1 le_rfl⟩, ?_⟩
  rintro _ ⟨⟨k, rfl⟩, hk⟩
  exact Nat.mul_le_mul_left _ ((ceilDiv_le_iff_le_mul h).2 hk)

theorem le_roundUp {unit : Nat} (h : 0 < unit) (n : Nat) : n ≤ roundUp unit n :=
  (isLeast_roundUp h n).1.2

/-- Padding takes a number to the least multiple. -/
theorem add_paddingTo {unit : Nat} (h : 0 < unit) (n : Nat) :
    n + paddingTo n unit = roundUp unit n := by
  have hleast := isLeast_roundUp h n
  refine Nat.le_antisymm ?_ (hleast.2 ⟨dvd_add_paddingTo n h, Nat.le_add_right _ _⟩)
  -- a multiple between the two would lie less than one unit below the other
  by_contra hlt
  have hdvd : unit ∣ n + paddingTo n unit - roundUp unit n :=
    Nat.dvd_sub (dvd_add_paddingTo n h) hleast.1.1
  have hpad := paddingTo_lt n h
  have hle := hleast.1.2
  exact absurd (Nat.le_of_dvd (by omega) hdvd) (by omega)

theorem paddingTo_eq {unit : Nat} (h : 0 < unit) (n : Nat) :
    paddingTo n unit = roundUp unit n - n := by
  rw [← add_paddingTo h, Nat.add_sub_cancel_left]

/-- The padding as a machine computes it on words; nothing where a step would
trap, be it a remainder by zero or a difference below zero. -/
def paddingWord? (cursor align : BitVec 64) : Option (BitVec 64) :=
  if align = 0 ∨ (align.usubOverflow (cursor % align)) = true then none
  else some ((align - cursor % align) % align)

/-- **Padding is computed on words as on numbers**: what goes in and what comes out
are sizes, and no step between them traps. -/
def PaddingFitsWords (cursor unit : Nat) : Prop :=
  cursor < Size.limit ∧ unit < Size.limit ∧ paddingTo cursor unit < Size.limit
    ∧ paddingWord? (.ofNat 64 cursor) (.ofNat 64 unit)
      = some (.ofNat 64 (paddingTo cursor unit))

theorem paddingFitsWords {cursor unit : Nat} (hc : cursor < Size.limit)
    (h0 : 0 < unit) (hu : unit < Size.limit) : PaddingFitsWords cursor unit := by
  have hpad : paddingTo cursor unit < Size.limit := (paddingTo_lt cursor h0).trans hu
  refine ⟨hc, hu, hpad, ?_⟩
  have hcw : (BitVec.ofNat 64 cursor).toNat = cursor := Nat.mod_eq_of_lt hc
  have huw : (BitVec.ofNat 64 unit).toNat = unit := Nat.mod_eq_of_lt hu
  have hrem : (BitVec.ofNat 64 cursor % BitVec.ofNat 64 unit).toNat = cursor % unit := by
    rw [BitVec.toNat_umod, hcw, huw]
  have hlt := Nat.mod_lt cursor h0
  have hne : BitVec.ofNat 64 unit ≠ 0 := fun hz => by
    rw [hz] at huw
    exact absurd huw (by simp; omega)
  -- a remainder is below the unit, so the difference does not go below zero
  have hsub : (BitVec.ofNat 64 unit).usubOverflow
      (BitVec.ofNat 64 cursor % BitVec.ofNat 64 unit) = false := by
    simp only [BitVec.usubOverflow, hrem, huw, decide_eq_false_iff_not]
    omega
  rw [paddingWord?, if_neg (not_or.2 ⟨hne, Bool.not_eq_true _ ▸ hsub⟩)]
  refine congrArg some (BitVec.eq_of_toNat_eq ?_)
  have hdiff : (BitVec.ofNat 64 unit - BitVec.ofNat 64 cursor % BitVec.ofNat 64 unit).toNat
      = unit - cursor % unit := by
    rw [BitVec.toNat_sub_of_not_usubOverflow (by simp [hsub]), hrem, huw]
  rw [BitVec.toNat_umod, hdiff, huw, BitVec.toNat_ofNat,
    Nat.mod_eq_of_lt (show _ < 2 ^ 64 from hpad), paddingTo]

/-! ## Exact slots -/

namespace Field

/-- The bytes a field takes, as a number of any size. -/
def exactWidth (f : Field) : Nat :=
  match f.shape with
  | .scalar => f.type.width
  | .array length => f.type.width * length
  | .optional none => 2 * f.type.width
  | .optional (some length) => f.type.width * length + f.type.width
  | .string capacity | .cString capacity => f.type.width * capacity.getD 1 + 9

/-- The slot of a field when everything before `cursor` is taken, in numbers of
any size. -/
def exactSlot (f : Field) (cursor : Nat) : Slot where
  name := f.name
  offset := roundUp f.alignUnit cursor
  padding := roundUp f.alignUnit cursor - cursor
  width := f.exactWidth
  align := f.alignUnit

end Field

/-- The slots of fields when everything before `cursor` is taken, in numbers of
any size. -/
def exactSlotsFrom (cursor : Nat) : List Field → List Slot
  | [] => []
  | f :: rest => f.exactSlot cursor :: exactSlotsFrom (f.exactSlot cursor).stop rest

/-- **The exact slots of a record**: the first field at the very start, each other
one at the least multiple of its unit that is not below the end of the one
before. -/
def Record.exactSlots (r : Record) : List Slot :=
  match r.fields with
  | [] => []
  | f :: rest =>
    { name := f.name, offset := 0, padding := 0, width := f.exactWidth, align := f.alignUnit }
      :: exactSlotsFrom f.exactWidth rest

/-- Where the last slot ends; with no slot, at the start. -/
def lastStop (slots : List Slot) : Nat := (slots.getLast?.map Slot.stop).getD 0

theorem roundUp_zero (unit : Nat) : roundUp unit 0 = 0 := by
  simp [roundUp]

theorem Record.exactSlots_eq (r : Record) : r.exactSlots = exactSlotsFrom 0 r.fields := by
  unfold Record.exactSlots
  cases r.fields with
  | nil => rfl
  | cons f rest =>
    rw [exactSlotsFrom, Slot.stop, Field.exactSlot, roundUp_zero, Nat.zero_add]

/-- Where fields end when everything before `cursor` is taken. -/
def stopFrom (cursor : Nat) : List Field → Nat
  | [] => cursor
  | f :: rest => stopFrom (f.exactSlot cursor).stop rest

theorem getLast?_stop_exactSlotsFrom (cursor : Nat) (fields : List Field) :
    ((exactSlotsFrom cursor fields).getLast?.map Slot.stop).getD cursor
      = stopFrom cursor fields := by
  induction fields generalizing cursor with
  | nil => rfl
  | cons f rest ih =>
    rw [exactSlotsFrom, stopFrom, ← ih, List.getLast?_cons]
    cases (exactSlotsFrom (f.exactSlot cursor).stop rest).getLast? <;> rfl

theorem lastStop_exactSlotsFrom (fields : List Field) :
    lastStop (exactSlotsFrom 0 fields) = stopFrom 0 fields :=
  getLast?_stop_exactSlotsFrom 0 fields

theorem map_name_exactSlotsFrom (cursor : Nat) (fields : List Field) :
    (exactSlotsFrom cursor fields).map Slot.name = fields.map Field.name := by
  induction fields generalizing cursor with
  | nil => rfl
  | cons f rest ih => rw [exactSlotsFrom, List.map_cons, List.map_cons, ih]; rfl

theorem take_exactSlotsFrom (cursor : Nat) (fields : List Field) (i : Nat) :
    (exactSlotsFrom cursor fields).take i = exactSlotsFrom cursor (fields.take i) := by
  induction fields generalizing cursor i with
  | nil => simp [exactSlotsFrom]
  | cons f rest ih =>
    cases i with
    | zero => rfl
    | succ i => rw [exactSlotsFrom, List.take_succ_cons, ih, List.take_succ_cons, exactSlotsFrom]

theorem getElem?_exactSlotsFrom (cursor : Nat) (fields : List Field) (i : Nat) :
    (exactSlotsFrom cursor fields)[i]?
      = fields[i]?.map fun f => f.exactSlot (stopFrom cursor (fields.take i)) := by
  induction fields generalizing cursor i with
  | nil => rfl
  | cons f rest ih =>
    cases i with
    | zero => rfl
    | succ i =>
      rw [exactSlotsFrom, List.getElem?_cons_succ, ih, List.getElem?_cons_succ,
        List.take_succ_cons, stopFrom]

/-- Every exact slot is that of a field at some cursor. -/
theorem exists_field_of_mem_exactSlotsFrom {cursor : Nat} {fields : List Field} {s : Slot}
    (hs : s ∈ exactSlotsFrom cursor fields) :
    ∃ f ∈ fields, ∃ c, s = f.exactSlot c := by
  induction fields generalizing cursor with
  | nil => exact absurd hs (List.not_mem_nil)
  | cons f rest ih =>
    rcases List.mem_cons.1 hs with rfl | hs
    · exact ⟨f, List.mem_cons_self, cursor, rfl⟩
    · obtain ⟨g, hg, c, rfl⟩ := ih hs
      exact ⟨g, List.mem_cons_of_mem _ hg, c, rfl⟩

/-! ## The bytes of slots -/

namespace Slot

/-- The bytes left free before a slot. -/
def gapBytes (s : Slot) : List Nat := List.range' (s.offset - s.padding) s.padding

/-- The bytes of a slot. -/
def bytes (s : Slot) : List Nat := List.range' s.offset s.width

end Slot

/-- A stretch of numbers and the one that goes on where it ends are one stretch. -/
theorem range'_append_of_le {a b c : Nat} (hab : a ≤ b) (hbc : b ≤ c) :
    List.range' a (b - a) ++ List.range' b (c - b) = List.range' a (c - a) := by
  have happ := List.range'_append_1 (s := a) (m := b - a) (n := c - b)
  rwa [Nat.add_sub_cancel' hab, show b - a + (c - b) = c - a by omega] at happ

theorem Field.gapBytes_append_bytes_exactSlot (f : Field) {cursor : Nat}
    (h : 0 < f.alignUnit) :
    (f.exactSlot cursor).gapBytes ++ (f.exactSlot cursor).bytes
      = List.range' cursor ((f.exactSlot cursor).stop - cursor) := by
  have hle := le_roundUp h cursor
  have hstart : roundUp f.alignUnit cursor - (roundUp f.alignUnit cursor - cursor) = cursor := by
    omega
  have hwidth : roundUp f.alignUnit cursor + f.exactWidth - cursor
      = (roundUp f.alignUnit cursor - cursor) + f.exactWidth := by
    omega
  simp only [Slot.gapBytes, Slot.bytes, Slot.stop, Field.exactSlot, hstart, hwidth]
  rw [← List.range'_append_1, Nat.add_sub_cancel' hle]

theorem le_stopFrom {cursor : Nat} {fields : List Field}
    (h : ∀ f ∈ fields, 0 < f.alignUnit) : cursor ≤ stopFrom cursor fields := by
  induction fields generalizing cursor with
  | nil => exact le_rfl
  | cons f rest ih =>
    have hf : cursor ≤ (f.exactSlot cursor).stop :=
      (le_roundUp (h f List.mem_cons_self) cursor).trans (Nat.le_add_right _ _)
    exact hf.trans (ih fun g hg => h g (List.mem_cons_of_mem _ hg))

/-- No slot ends behind the last one. -/
theorem stop_le_stopFrom {cursor : Nat} {fields : List Field}
    (h : ∀ f ∈ fields, 0 < f.alignUnit) :
    ∀ s ∈ exactSlotsFrom cursor fields, s.stop ≤ stopFrom cursor fields := by
  induction fields generalizing cursor with
  | nil => exact fun s hs => absurd hs List.not_mem_nil
  | cons f rest ih =>
    have hrest : ∀ g ∈ rest, 0 < g.alignUnit := fun g hg => h g (List.mem_cons_of_mem _ hg)
    rw [exactSlotsFrom, stopFrom, List.forall_mem_cons]
    exact ⟨le_stopFrom hrest, ih hrest⟩

/-- **Exact slots and the padding between them are all bytes up to the last end**,
in order and each once. -/
theorem flatMap_bytes_exactSlotsFrom {cursor : Nat} {fields : List Field}
    (h : ∀ f ∈ fields, 0 < f.alignUnit) :
    (exactSlotsFrom cursor fields).flatMap (fun s => s.gapBytes ++ s.bytes)
      = List.range' cursor (stopFrom cursor fields - cursor) := by
  induction fields generalizing cursor with
  | nil => simp [exactSlotsFrom, stopFrom]
  | cons f rest ih =>
    have hrest : ∀ g ∈ rest, 0 < g.alignUnit := fun g hg => h g (List.mem_cons_of_mem _ hg)
    have hf := h f List.mem_cons_self
    have hcur : cursor ≤ (f.exactSlot cursor).stop :=
      (le_roundUp hf cursor).trans (Nat.le_add_right _ _)
    have hstop : (f.exactSlot cursor).stop ≤ stopFrom (f.exactSlot cursor).stop rest :=
      le_stopFrom hrest
    rw [exactSlotsFrom, List.flatMap_cons, ih hrest, f.gapBytes_append_bytes_exactSlot hf,
      stopFrom, range'_append_of_le hcur hstop]

/-- **Slots fill a buffer**: each begins at a multiple of its unit with less padding
than one unit before it, and the slots with their padding are the bytes of the
buffer, in order and each once. -/
structure Layout.Fills (l : Layout) : Prop where
  /-- Every slot begins at a multiple of its unit. -/
  aligned : ∀ s ∈ l.slots, s.offset % s.align = 0
  /-- Less than one unit is left free before a slot. -/
  padding_lt : ∀ s ∈ l.slots, s.padding < s.align
  /-- No two slots have a byte in common. -/
  disjoint : l.slots.Pairwise fun s t => s.bytes.Disjoint t.bytes
  /-- Padding and slots follow each other from the first byte to the last. -/
  tiled : l.slots.flatMap (fun s => s.gapBytes ++ s.bytes) = List.range l.bufferSize

/-- What is tiled has no byte twice. -/
theorem pairwise_disjoint_of_tiled {slots : List Slot} {size : Nat}
    (h : slots.flatMap (fun s => s.gapBytes ++ s.bytes) = List.range size) :
    slots.Pairwise fun s t => s.bytes.Disjoint t.bytes := by
  have hnodup : (slots.flatMap fun s => s.gapBytes ++ s.bytes).Nodup := h ▸ List.nodup_range
  refine (List.nodup_flatMap.1 hnodup).2.imp fun {s t} hst => ?_
  exact fun x hs ht => hst (List.mem_append_right _ hs) (List.mem_append_right _ ht)

/-! ## Layouts are exact -/

theorem ScalarType.pos_of_mem_catalog {t : ScalarType} (h : t ∈ catalog) :
    (0 < t.width ∧ t.width ≤ 8) ∧ (0 < t.align ∧ t.align ≤ 8) := by
  revert t
  decide

namespace Field

theorem alignUnit_pos {f : Field} (h : f.type ∈ ScalarType.catalog) :
    0 < f.alignUnit ∧ f.alignUnit ≤ 8 := by
  obtain ⟨hwidth, halign⟩ := ScalarType.pos_of_mem_catalog h
  unfold alignUnit
  split
  · exact halign
  · exact halign
  · exact hwidth

/-- The width of a field is the exact one when that is a size. A partial product
that is no size is part of a width that is none. -/
theorem width?_eq {f : Field} (h : f.type ∈ ScalarType.catalog) :
    f.width? = Size.ofNat? f.exactWidth := by
  obtain ⟨⟨-, hw⟩, -⟩ := ScalarType.pos_of_mem_catalog h
  have hlimit : 8 < Size.limit := by decide
  unfold width? exactWidth
  cases f.shape with
  | scalar => exact (Size.ofNat?_eq_some_iff.2 ⟨by omega, rfl⟩).symm
  | array length => rfl
  | optional length =>
    cases length with
    | none => rw [Nat.mul_comm]; rfl
    | some length => exact Size.bind_add?_ofNat? _ _
  | string capacity => exact Size.bind_add?_ofNat? _ _
  | cString capacity => exact Size.bind_add?_ofNat? _ _

/-- A field gets its exact slot when that ends at a size, and otherwise none. -/
theorem slotAt?_eq {f : Field} (h : f.type ∈ ScalarType.catalog) (cursor : Nat) :
    f.slotAt? cursor
      = if (f.exactSlot cursor).stop < Size.limit then some (f.exactSlot cursor)
        else none := by
  have hunit := (alignUnit_pos h).1
  have hslot : (f.exactSlot cursor).stop = roundUp f.alignUnit cursor + f.exactWidth := rfl
  simp only [slotAt?, width?_eq h, Size.add?, add_paddingTo hunit, Size.ofNat?, hslot]
  -- a width or an offset that is no size is part of an end that is none
  by_cases hwidth : f.exactWidth < Size.limit
  · by_cases hoff : roundUp f.alignUnit cursor < Size.limit
    · by_cases hstop : roundUp f.alignUnit cursor + f.exactWidth < Size.limit
      · simp [hwidth, hoff, hstop, exactSlot, paddingTo_eq hunit]
      · simp [hwidth, hoff, hstop]
    · have hstop : ¬ roundUp f.alignUnit cursor + f.exactWidth < Size.limit := by omega
      simp [hwidth, hoff, hstop]
  · have hstop : ¬ roundUp f.alignUnit cursor + f.exactWidth < Size.limit := by omega
    simp [hwidth, hstop]

end Field

/-- Fields whose exact slots all end at a size are placed in these. -/
theorem placeFields_eq_ok {record : String} {cursor : Nat} {fields : List Field}
    (hcat : ∀ f ∈ fields, f.type ∈ ScalarType.catalog)
    (hfit : ∀ s ∈ exactSlotsFrom cursor fields, s.stop < Size.limit) :
    placeFields record cursor fields
      = .ok (exactSlotsFrom cursor fields, stopFrom cursor fields) := by
  induction fields generalizing cursor with
  | nil => rfl
  | cons f rest ih =>
    have hf : (f.exactSlot cursor).stop < Size.limit := hfit _ List.mem_cons_self
    rw [placeFields, Field.slotAt?_eq (hcat f List.mem_cons_self), if_pos hf]
    simp only
    rw [ih (fun g hg => hcat g (List.mem_cons_of_mem _ hg))
      (fun s hs => hfit s (List.mem_cons_of_mem _ hs))]
    rfl

/-- The first field whose exact slot does not end at a size is the one that is
refused. -/
theorem placeFields_eq_error {record : String} {cursor : Nat} {before after : List Field}
    {f : Field} (hcat : ∀ g ∈ before ++ f :: after, g.type ∈ ScalarType.catalog)
    (hfit : ∀ s ∈ exactSlotsFrom cursor before, s.stop < Size.limit)
    (hf : Size.limit ≤ (f.exactSlot (stopFrom cursor before)).stop) :
    placeFields record cursor (before ++ f :: after)
      = .error ⟨f.line, .recordTooLarge record⟩ := by
  induction before generalizing cursor with
  | nil =>
    rw [List.nil_append, placeFields, Field.slotAt?_eq (hcat f (by simp)),
      if_neg (show ¬ (f.exactSlot cursor).stop < Size.limit from Nat.not_lt.2 hf)]
  | cons g before ih =>
    have hg : (g.exactSlot cursor).stop < Size.limit := hfit _ List.mem_cons_self
    rw [List.cons_append, placeFields, Field.slotAt?_eq (hcat g (by simp)), if_pos hg]
    simp only
    rw [ih (fun k hk => hcat k (List.mem_cons_of_mem _ hk))
      (fun s hs => hfit s (List.mem_cons_of_mem _ hs)) hf]
    rfl

/-- Either all exact slots end at a size, or there is a first that does not. -/
theorem exactSlotsFrom_fit_or_first (cursor : Nat) (fields : List Field) :
    (∀ s ∈ exactSlotsFrom cursor fields, s.stop < Size.limit)
      ∨ ∃ before f after, fields = before ++ f :: after
        ∧ (∀ s ∈ exactSlotsFrom cursor before, s.stop < Size.limit)
        ∧ Size.limit ≤ (f.exactSlot (stopFrom cursor before)).stop := by
  induction fields generalizing cursor with
  | nil => exact .inl fun s hs => absurd hs List.not_mem_nil
  | cons f rest ih =>
    by_cases hf : (f.exactSlot cursor).stop < Size.limit
    · rcases ih (f.exactSlot cursor).stop with hrest | ⟨before, g, after, rfl, hbefore, hg⟩
      · exact .inl (List.forall_mem_cons.2 ⟨hf, hrest⟩)
      · exact .inr ⟨f :: before, g, after, rfl, List.forall_mem_cons.2 ⟨hf, hbefore⟩, hg⟩
    · exact .inr ⟨[], f, rest, rfl, fun s hs => absurd hs List.not_mem_nil, Nat.not_lt.1 hf⟩

/-- Fields whose exact slots all end at sizes end at one themselves. -/
theorem stopFrom_lt_limit {fields : List Field}
    (hfit : ∀ s ∈ exactSlotsFrom 0 fields, s.stop < Size.limit) :
    stopFrom 0 fields < Size.limit := by
  rw [← lastStop_exactSlotsFrom, lastStop]
  cases hlast : (exactSlotsFrom 0 fields).getLast? with
  | none => decide
  | some s => exact hfit s (List.mem_of_getLast? hlast)

/-- The layout made of exact slots fills its buffer. -/
theorem fills_exactSlotsFrom {fields : List Field} (record : String)
    (hcat : ∀ f ∈ fields, f.type ∈ ScalarType.catalog) :
    Layout.Fills ⟨record, exactSlotsFrom 0 fields, stopFrom 0 fields⟩ := by
  have hunit : ∀ f ∈ fields, 0 < f.alignUnit := fun f hf => (Field.alignUnit_pos (hcat f hf)).1
  have htiled : (exactSlotsFrom 0 fields).flatMap (fun s => s.gapBytes ++ s.bytes)
      = List.range (stopFrom 0 fields) := by
    rw [flatMap_bytes_exactSlotsFrom hunit, Nat.sub_zero, List.range_eq_range']
  refine ⟨fun s hs => ?_, fun s hs => ?_, pairwise_disjoint_of_tiled htiled, htiled⟩
  · obtain ⟨f, hf, c, rfl⟩ := exists_field_of_mem_exactSlotsFrom hs
    exact Nat.mod_eq_zero_of_dvd (isLeast_roundUp (hunit f hf) c).1.1
  · obtain ⟨f, hf, c, rfl⟩ := exists_field_of_mem_exactSlotsFrom hs
    show roundUp f.alignUnit c - c < f.alignUnit
    rw [← paddingTo_eq (hunit f hf)]
    exact paddingTo_lt c (hunit f hf)

namespace Record

section OverCatalog

variable {r : Record} (hcat : ∀ f ∈ r.fields, f.type ∈ ScalarType.catalog)
include hcat

/-- A record whose exact slots all end at sizes has them for its layout. -/
theorem layout_eq_ok (hfit : ∀ s ∈ r.exactSlots, s.stop < Size.limit) :
    r.layout = .ok ⟨r.name, r.exactSlots, lastStop r.exactSlots⟩ := by
  rw [exactSlots_eq] at hfit ⊢
  rw [layout, placeFields_eq_ok hcat hfit, lastStop_exactSlotsFrom]
  rfl

/-- A record with an exact slot that does not end at a size is refused at the first
of these. -/
theorem layout_eq_error {before after : List Field} {f : Field}
    (hsplit : r.fields = before ++ f :: after)
    (hfit : ∀ s ∈ exactSlotsFrom 0 before, s.stop < Size.limit)
    (hf : Size.limit ≤ (f.exactSlot (stopFrom 0 before)).stop) :
    r.layout = .error ⟨f.line, .recordTooLarge r.name⟩ := by
  rw [layout, hsplit, placeFields_eq_error (hsplit ▸ hcat) hfit hf]
  rfl

variable {l : Layout} (hl : r.layout = .ok l)
include hl

/-- A record with a layout has only exact slots that end at sizes. -/
theorem fit_of_layout_eq_ok : ∀ s ∈ r.exactSlots, s.stop < Size.limit := by
  rcases exactSlotsFrom_fit_or_first 0 r.fields with
    hfit | ⟨before, f, after, hsplit, hbefore, hf⟩
  · rwa [exactSlots_eq]
  · rw [layout_eq_error hcat hsplit hbefore hf] at hl
    cases hl

/-- The layout of a record is made of its exact slots. -/
theorem eq_of_layout_eq_ok : l = ⟨r.name, r.exactSlots, lastStop r.exactSlots⟩ :=
  (Except.ok.inj ((layout_eq_ok hcat (fit_of_layout_eq_ok hcat hl)).symm.trans hl)).symm

/-- A layout has a slot for each field, under the name of the field. -/
theorem map_name_of_layout_eq_ok : l.slots.map Slot.name = r.fields.map Field.name := by
  rw [eq_of_layout_eq_ok hcat hl, exactSlots_eq]
  exact map_name_exactSlotsFrom 0 r.fields

/-- The layout of a record fills its buffer. -/
theorem fills_of_layout_eq_ok : l.Fills := by
  rw [eq_of_layout_eq_ok hcat hl, exactSlots_eq, lastStop_exactSlotsFrom]
  exact fills_exactSlotsFrom r.name hcat

/-- The slots of a layout end within its buffer. -/
theorem stop_le_of_layout_eq_ok : ∀ s ∈ l.slots, s.stop ≤ l.bufferSize := by
  rw [eq_of_layout_eq_ok hcat hl, exactSlots_eq, lastStop_exactSlotsFrom]
  exact stop_le_stopFrom fun f hf => (Field.alignUnit_pos (hcat f hf)).1

end OverCatalog

/-- **A record is laid out exactly or refused exactly.** It has a layout just when
all its exact slots end at sizes, and then these are its slots and they fill the
buffer. Otherwise the error is at the first field whose exact slot ends too far.
And at every field that a layout comes to, the padding is computed on words
without a trap. -/
theorem layout_exact_or_refused (r : Record)
    (hcat : ∀ f ∈ r.fields, f.type ∈ ScalarType.catalog) :
    ((∃ l, r.layout = .ok l) ↔ ∀ s ∈ r.exactSlots, s.stop ≤ 2 ^ 64 - 1)
      ∧ (∀ l, r.layout = .ok l →
          l.record = r.name ∧ l.slots = r.exactSlots
            ∧ l.slots.map Slot.name = r.fields.map Field.name
            ∧ l.bufferSize = lastStop l.slots ∧ l.Fills)
      ∧ (∀ e, r.layout = .error e →
          ∃ i f s, r.fields[i]? = some f ∧ r.exactSlots[i]? = some s
            ∧ (∀ t ∈ r.exactSlots.take i, t.stop ≤ 2 ^ 64 - 1) ∧ 2 ^ 64 - 1 < s.stop
            ∧ e = ⟨f.line, .recordTooLarge r.name⟩)
      ∧ (∀ i f, r.fields[i]? = some f →
          (∀ t ∈ r.exactSlots.take i, t.stop ≤ 2 ^ 64 - 1) →
          PaddingFitsWords (lastStop (r.exactSlots.take i)) f.alignUnit) := by
  have hlimit : ∀ n, n ≤ 2 ^ 64 - 1 ↔ n < Size.limit := fun n => by
    rw [Size.limit]
    omega
  simp only [hlimit]
  have hunit := fun f hf => Field.alignUnit_pos (f := f) (hcat f hf)
  refine ⟨⟨fun ⟨l, hl⟩ => fit_of_layout_eq_ok hcat hl, fun hfit => ⟨_, layout_eq_ok hcat hfit⟩⟩,
    ?_, ?_, ?_⟩
  · intro l hl
    have heq := eq_of_layout_eq_ok hcat hl
    exact ⟨congrArg Layout.record heq, congrArg Layout.slots heq,
      map_name_of_layout_eq_ok hcat hl, heq ▸ rfl, fills_of_layout_eq_ok hcat hl⟩
  · intro e he
    rcases exactSlotsFrom_fit_or_first 0 r.fields with
      hfit | ⟨before, f, after, hsplit, hbefore, hf⟩
    · rw [layout_eq_ok hcat (exactSlots_eq r ▸ hfit)] at he
      cases he
    · rw [layout_eq_error hcat hsplit hbefore hf] at he
      -- the fields that fit are those before the index of the one that does not
      have htake : r.fields.take before.length = before := by
        rw [hsplit, List.take_left]
      have hget : r.fields[before.length]? = some f := by
        rw [hsplit, List.getElem?_append_right (Nat.le_refl _), Nat.sub_self,
          List.getElem?_cons_zero]
      refine ⟨before.length, f, f.exactSlot (stopFrom 0 before), hget, ?_, ?_, ?_, ?_⟩
      · rw [exactSlots_eq, getElem?_exactSlotsFrom, hget, htake]
        rfl
      · rwa [exactSlots_eq, take_exactSlotsFrom, htake]
      · exact Nat.lt_of_lt_of_le (by decide) hf
      · exact (Except.error.inj he).symm
  · intro i f hget hfit
    rw [exactSlots_eq, take_exactSlotsFrom] at hfit ⊢
    rw [lastStop_exactSlotsFrom]
    obtain ⟨h0, h8⟩ := hunit f (List.mem_of_getElem? hget)
    exact paddingFitsWords (stopFrom_lt_limit hfit) h0 (Nat.lt_of_le_of_lt h8 (by decide))

/-- Three fields of which the second just misses the last size: alone it would
fit, and so would it without the padding in front of it. -/
def overfull : Record where
  name := "R"
  line := 1
  docs := []
  fields :=
    [⟨"a", 2, [], .scalar, .ofPlain "u8" "uint8_t" 1, false⟩,
     ⟨"b", 3, [], .array 2305843009213693951, .ofPlain "u64" "uint64_t" 8, false⟩,
     ⟨"c", 4, [], .scalar, .ofPlain "u64" "uint64_t" 8, false⟩]

theorem overfull_not_laid_out :
    (∀ f ∈ overfull.fields, f.type ∈ ScalarType.catalog)
      ∧ ¬ ∃ l, overfull.layout = .ok l :=
  ⟨by decide, (layout_exact_or_refused overfull (by decide)).1.not.2 (by decide)⟩

end Record

end FlatRecord
