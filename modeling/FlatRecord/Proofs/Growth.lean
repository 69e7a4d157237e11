import FlatRecord.Proofs.FieldReading
import FlatRecord.Proofs.Placement
import Mathlib.Data.List.Forall2

/-!
# Layouts of records that grow

A record may get further fields at its end, and its lengths may be raised. Buffers that
were written before are still there then, so it matters what becomes of the slots.

Fields behind others do not move these (`Record.layout_extended`). Where a field stands
is decided by the fields before it, and of those by their shapes and types alone, so a
layout with further fields begins with the layout without them, and where there is none,
there is none with them either and for the same reason.

With larger lengths no slot begins or ends earlier (`Record.layout_of_atMost`). This does
not follow field by field: a longer field may leave less to pad behind it. But padding
and what comes before it together are a multiple that is rounded up to
(`add_paddingTo_mono`), and where one record has come at most as far as another, it does
not overtake it there.
-/

namespace FlatRecord

/-! ## One field -/

/-- A field has a slot when its width is a size and so is the end of the slot, which is
then behind the padding. -/
theorem Field.slotAt?_eq_some_iff {f : Field} {cursor : Nat} {s : Slot} :
    f.slotAt? cursor = some s ↔
      f.width? = some s.width ∧ s.offset = cursor + paddingTo cursor f.alignUnit
        ∧ s.stop < Size.limit
        ∧ s.name = f.name ∧ s.padding = paddingTo cursor f.alignUnit
        ∧ s.align = f.alignUnit := by
  simp only [slotAt?, Option.bind_eq_bind, Option.bind_eq_some_iff, Size.add?,
    Size.ofNat?_eq_some_iff]
  constructor
  · rintro ⟨width, hwidth, offset, ⟨-, rfl⟩, stop, ⟨hstop, rfl⟩, h⟩
    obtain rfl := Option.some.inj h
    exact ⟨hwidth, rfl, hstop, rfl, rfl, rfl⟩
  · obtain ⟨name, offset, padding, width, align⟩ := s
    rintro ⟨hwidth, hoffset, hstop, rfl, rfl, rfl⟩
    obtain rfl : offset = cursor + paddingTo cursor f.alignUnit := hoffset
    have hlt : cursor + paddingTo cursor f.alignUnit + width < Size.limit := hstop
    exact ⟨width, hwidth, _, ⟨by omega, rfl⟩, _, ⟨hlt, rfl⟩, rfl⟩

/-- A slot is behind what was taken before. -/
theorem Field.le_stop_of_slotAt? {f : Field} {cursor : Nat} {s : Slot}
    (h : f.slotAt? cursor = some s) : cursor ≤ s.stop := by
  obtain ⟨-, hoffset, -⟩ := Field.slotAt?_eq_some_iff.1 h
  rw [Slot.stop, hoffset, Nat.add_assoc]
  exact Nat.le_add_right _ _

/-- **Fields that are placed alike**: they may differ in their lines, in their comments
and in being mutable. -/
structure Field.PlacedAlike (f g : Field) : Prop where
  /-- They have one name. -/
  name : f.name = g.name
  /-- They have one shape. -/
  shape : f.shape = g.shape
  /-- They have one type. -/
  type : f.type = g.type

theorem Field.PlacedAlike.slotAt?_eq {f g : Field} (h : f.PlacedAlike g) (cursor : Nat) :
    g.slotAt? cursor = f.slotAt? cursor := by
  have hwidth : g.width? = f.width? := by rw [width?, width?, h.shape, h.type]
  have hunit : g.alignUnit = f.alignUnit := by rw [alignUnit, alignUnit, h.shape, h.type]
  rw [slotAt?, slotAt?, hwidth, hunit, h.name]

/-! ## Several fields -/

section Fields

variable {record : String} {cursor stop : Nat} {fields : List Field} {slots : List Slot}

/-- Fields are placed when the first has a slot and the others are placed behind it. -/
theorem placeFields_cons_eq_ok_iff {f : Field} :
    placeFields record cursor (f :: fields) = .ok (slots, stop) ↔
      ∃ s others, f.slotAt? cursor = some s
        ∧ placeFields record s.stop fields = .ok (others, stop) ∧ slots = s :: others := by
  rw [placeFields]
  cases hs : f.slotAt? cursor with
  | none => simp
  | some s =>
    dsimp only
    rw [bind_eq_ok]
    constructor
    · rintro ⟨⟨others, last⟩, hothers, h⟩
      obtain ⟨rfl, rfl⟩ := Prod.mk.inj (Except.ok.inj h)
      exact ⟨s, others, rfl, hothers, rfl⟩
    · rintro ⟨_, others, heq, hothers, rfl⟩
      obtain rfl := Option.some.inj heq
      exact ⟨_, hothers, rfl⟩

/-- Fields that are placed have a slot each, and end behind what was taken before. -/
theorem length_and_le_of_placeFields (h : placeFields record cursor fields = .ok (slots, stop)) :
    slots.length = fields.length ∧ cursor ≤ stop := by
  induction fields generalizing cursor slots with
  | nil =>
    obtain ⟨rfl, rfl⟩ := Prod.mk.inj (Except.ok.inj h)
    exact ⟨rfl, le_rfl⟩
  | cons f rest ih =>
    obtain ⟨s, others, hs, hothers, rfl⟩ := placeFields_cons_eq_ok_iff.1 h
    obtain ⟨hlength, hle⟩ := ih hothers
    exact ⟨congrArg (· + 1) hlength, (Field.le_stop_of_slotAt? hs).trans hle⟩

/-- **Fields are placed before those behind them**, which begin where they end. -/
theorem placeFields_append (before after : List Field) :
    placeFields record cursor (before ++ after)
      = (do
        let (slots, stop) ← placeFields record cursor before
        let (others, last) ← placeFields record stop after
        return (slots ++ others, last)) := by
  induction before generalizing cursor with
  | nil =>
    rw [List.nil_append]
    show _ = placeFields record cursor after >>= _
    cases placeFields record cursor after <;> rfl
  | cons f before ih =>
    rw [List.cons_append, placeFields, placeFields]
    cases f.slotAt? cursor with
    | none => rfl
    | some s =>
      dsimp only
      rw [ih]
      cases placeFields record s.stop before with
      | error e => rfl
      | ok p =>
        show ((placeFields record p.2 after >>= _) >>= _) = (placeFields record p.2 after >>= _)
        cases placeFields record p.2 after <;> rfl

/-- Fields that are placed alike have the same slots. -/
theorem placeFields_of_placedAlike {others : List Field}
    (h : List.Forall₂ Field.PlacedAlike fields others)
    (hplaced : placeFields record cursor fields = .ok (slots, stop)) :
    placeFields record cursor others = .ok (slots, stop) := by
  induction h generalizing cursor slots with
  | nil => exact hplaced
  | cons hf _ ih =>
    obtain ⟨s, rest, hs, hrest, rfl⟩ := placeFields_cons_eq_ok_iff.1 hplaced
    exact placeFields_cons_eq_ok_iff.2 ⟨s, rest, (hf.slotAt?_eq cursor).trans hs, ih hrest, rfl⟩

end Fields

/-! ## Further fields -/

namespace Record

theorem layout_eq_ok_iff {r : Record} {l : Layout} :
    r.layout = .ok l ↔
      placeFields r.name 0 r.fields = .ok (l.slots, l.bufferSize) ∧ l.record = r.name := by
  obtain ⟨record, slots, bufferSize⟩ := l
  rw [layout, bind_eq_ok]
  constructor
  · rintro ⟨p, hp, h⟩
    obtain ⟨rfl, rfl, rfl⟩ := Layout.mk.inj (Except.ok.inj h)
    exact ⟨hp, rfl⟩
  · rintro ⟨hp, rfl⟩
    exact ⟨_, hp, rfl⟩

theorem layout_eq_error_iff {r : Record} {e : SchemaError} :
    r.layout = .error e ↔ placeFields r.name 0 r.fields = .error e := by
  rw [layout, bind_eq_error]
  refine ⟨?_, .inl⟩
  rintro (h | ⟨_, -, h⟩)
  · exact h
  · cases h

/-- The record with further fields behind its own. -/
def extended (r : Record) (more : List Field) : Record := { r with fields := r.fields ++ more }

/-- **Further fields do not move a slot.** A layout of a record with further fields begins
with a layout of the record: the same slots, one for each field, in a buffer that is not
larger. If the record has no layout, then with further fields it has none either, and the
error is the same. And as long as its own fields have slots, nothing depends on their
lines, on their comments or on their being mutable, be it a slot of theirs, one behind
them, or an error there. -/
theorem layout_extended (r : Record) (more : List Field) :
    (∀ l, (r.extended more).layout = .ok l →
        ∃ own, r.layout = .ok own ∧ own.record = l.record ∧ own.slots <+: l.slots
          ∧ own.slots.length = r.fields.length ∧ own.bufferSize ≤ l.bufferSize)
      ∧ (∀ e, r.layout = .error e → (r.extended more).layout = .error e)
      ∧ ∀ (r' : Record) (own : Layout), r.layout = .ok own → r'.name = r.name →
          List.Forall₂ Field.PlacedAlike r.fields r'.fields →
          (r'.extended more).layout = (r.extended more).layout := by
  refine ⟨fun l hl => ?_, fun e he => ?_, fun r' own hown hname halike => ?_⟩
  · obtain ⟨hplaced, hrecord⟩ := layout_eq_ok_iff.1 hl
    have hplaced : placeFields r.name 0 (r.fields ++ more) = .ok (l.slots, l.bufferSize) := hplaced
    rw [placeFields_append] at hplaced
    obtain ⟨⟨slots, stop⟩, hown, hplaced⟩ := bind_eq_ok.1 hplaced
    obtain ⟨⟨others, last⟩, hmore, hplaced⟩ := bind_eq_ok.1 hplaced
    obtain ⟨hslots, rfl⟩ := Prod.mk.inj (Except.ok.inj hplaced)
    refine ⟨⟨r.name, slots, stop⟩, layout_eq_ok_iff.2 ⟨hown, rfl⟩, hrecord.symm,
      ⟨others, hslots⟩, (length_and_le_of_placeFields hown).1, ?_⟩
    exact (length_and_le_of_placeFields hmore).2
  · rw [layout_eq_error_iff] at he ⊢
    show placeFields r.name 0 (r.fields ++ more) = .error e
    rw [placeFields_append, he]
    rfl
  · obtain ⟨hplaced, -⟩ := layout_eq_ok_iff.1 hown
    have hplaced' := placeFields_of_placedAlike halike hplaced
    -- the fields behind are placed from where these end
    have hsame : placeFields r.name 0 (r'.fields ++ more)
        = placeFields r.name 0 (r.fields ++ more) := by
      rw [placeFields_append, hplaced', placeFields_append, hplaced]
    simp only [layout, extended, hname, hsame]

/-- A byte, and a word behind padding. -/
def byteAndWord : Record where
  name := "R"
  line := 1
  docs := []
  fields :=
    [⟨"a", 2, [], .scalar, .ofPlain "u8" "uint8_t" 1, false⟩,
     ⟨"b", 3, [], .scalar, .ofPlain "u32" "uint32_t" 4, false⟩]

/-- The same further down, with comments, and mutable. -/
def documentedByteAndWord : Record where
  name := "R"
  line := 5
  docs := ["A byte and a word."]
  fields :=
    [⟨"a", 7, ["The byte."], .scalar, .ofPlain "u8" "uint8_t" 1, true⟩,
     ⟨"b", 9, ["The word."], .scalar, .ofPlain "u32" "uint32_t" 4, true⟩]

theorem layout_extended_byteAndWord :
    ∃ more own l, byteAndWord.layout = .ok own ∧ (byteAndWord.extended more).layout = .ok l
      ∧ own.slots <+: l.slots ∧ own.bufferSize = 8 ∧ l.bufferSize = 16
      ∧ (documentedByteAndWord.extended more).layout = .ok l
      ∧ (overfull.extended more).layout = .error ⟨3, .recordTooLarge "R"⟩ := by
  let more : List Field := [⟨"c", 4, [], .scalar, .ofPlain "u64" "uint64_t" 8, false⟩]
  have hl : (byteAndWord.extended more).layout
      = .ok ⟨"R", [⟨"a", 0, 0, 1, 1⟩, ⟨"b", 4, 3, 4, 4⟩, ⟨"c", 8, 0, 8, 8⟩], 16⟩ := by decide
  have hown : byteAndWord.layout = .ok ⟨"R", [⟨"a", 0, 0, 1, 1⟩, ⟨"b", 4, 3, 4, 4⟩], 8⟩ := by
    decide
  obtain ⟨hbegins, -, hsame⟩ := layout_extended byteAndWord more
  obtain ⟨own, hown', -, hslots, -⟩ := hbegins _ hl
  obtain rfl := Except.ok.inj (hown.symm.trans hown')
  have halike : List.Forall₂ Field.PlacedAlike byteAndWord.fields documentedByteAndWord.fields :=
    .cons ⟨rfl, rfl, rfl⟩ (.cons ⟨rfl, rfl, rfl⟩ .nil)
  exact ⟨more, _, _, hown, hl, hslots, rfl, rfl,
    (hsame documentedByteAndWord _ hown rfl halike).trans hl,
    (layout_extended overfull more).2.1 _ (by decide)⟩

end Record

/-! ## Larger lengths -/

theorem roundUp_mono {unit : Nat} (h : 0 < unit) {m n : Nat} (hmn : m ≤ n) :
    roundUp unit m ≤ roundUp unit n :=
  (isLeast_roundUp h m).2 ⟨(isLeast_roundUp h n).1.1, hmn.trans (le_roundUp h n)⟩

/-- Padding does not let a number overtake a larger one, though there may be more of
it. -/
theorem add_paddingTo_mono (unit : Nat) {m n : Nat} (hmn : m ≤ n) :
    m + paddingTo m unit ≤ n + paddingTo n unit := by
  rcases Nat.eq_zero_or_pos unit with rfl | h
  · simpa [paddingTo] using hmn
  · rw [add_paddingTo h, add_paddingTo h]
    exact roundUp_mono h hmn

/-- Below a size there are only sizes. -/
theorem Size.ofNat?_of_le {m n k : Nat} (hmn : m ≤ n) (h : ofNat? n = some k) :
    ∃ j, ofNat? m = some j ∧ j ≤ k := by
  obtain ⟨hlt, rfl⟩ := ofNat?_eq_some_iff.1 h
  exact ⟨m, ofNat?_eq_some_iff.2 ⟨hmn.trans_lt hlt, rfl⟩, hmn⟩

/-- **Shapes of one kind, the lengths of the first at most those of the second.** Text
without a capacity has one character, and an optional value without a length is not an
array of any. -/
inductive Shape.AtMost : Shape → Shape → Prop
  /-- One value. -/
  | scalar : AtMost .scalar .scalar
  /-- An array. -/
  | array {m n : Nat} (h : m ≤ n) : AtMost (.array m) (.array n)
  /-- One value that may be absent. -/
  | optional : AtMost (.optional none) (.optional none)
  /-- An array that may be absent. -/
  | optionalArray {m n : Nat} (h : m ≤ n) : AtMost (.optional (some m)) (.optional (some n))
  /-- Text seen as a string. -/
  | string {c d : Option Nat} (h : c.getD 1 ≤ d.getD 1) : AtMost (.string c) (.string d)
  /-- Text seen as a pointer. -/
  | cString {c d : Option Nat} (h : c.getD 1 ≤ d.getD 1) : AtMost (.cString c) (.cString d)

/-- **Fields of one type and kind, the lengths of the first at most those of the second.**
Nothing else has to agree. -/
structure Field.AtMost (f g : Field) : Prop where
  /-- They have one type. -/
  type : f.type = g.type
  /-- Their shapes are of one kind. -/
  shape : f.shape.AtMost g.shape

namespace Field.AtMost

variable {f g : Field}

/-- Fields of one kind are aligned to one unit, whatever their lengths. -/
theorem alignUnit_eq (h : f.AtMost g) : f.alignUnit = g.alignUnit := by
  obtain ⟨htype, hshape⟩ := h
  obtain ⟨name, line, docs, shape, type, mutable⟩ := f
  obtain ⟨name', line', docs', shape', type', mutable'⟩ := g
  obtain rfl : type = type' := htype
  cases hshape <;> rfl

/-- The width of a field is a size when that of a longer one is. -/
theorem exists_width? (h : f.AtMost g) {w : Nat} (hw : g.width? = some w) :
    ∃ v, f.width? = some v ∧ v ≤ w := by
  obtain ⟨htype, hshape⟩ := h
  obtain ⟨name, line, docs, shape, type, mutable⟩ := f
  obtain ⟨name', line', docs', shape', type', mutable'⟩ := g
  obtain rfl : type = type' := htype
  -- a product with something added is one number that has to be a size
  have hsum : ∀ {m n : Nat} (k : Nat), m ≤ n →
      (Size.mul? type.width n).bind (Size.add? · k) = some w →
        ∃ v, (Size.mul? type.width m).bind (Size.add? · k) = some v ∧ v ≤ w := by
    intro m n k hmn hn
    rw [Size.mul?, Size.bind_add?_ofNat?] at hn ⊢
    exact Size.ofNat?_of_le (Nat.add_le_add_right (Nat.mul_le_mul_left _ hmn) k) hn
  cases hshape with
  | scalar | optional => exact ⟨w, hw, le_rfl⟩
  | array hmn => exact Size.ofNat?_of_le (Nat.mul_le_mul_left _ hmn) hw
  | optionalArray hmn => exact hsum _ hmn hw
  | string hcd | cString hcd => exact hsum _ hcd hw

/-- **A field has a slot when a longer one has**, and then it begins no later and ends no
later, if what was taken before does so. -/
theorem exists_slotAt? (h : f.AtMost g) {c d : Nat} (hcd : c ≤ d) {t : Slot}
    (ht : g.slotAt? d = some t) :
    ∃ s, f.slotAt? c = some s ∧ s.offset ≤ t.offset ∧ s.stop ≤ t.stop := by
  obtain ⟨hwidth, hoffset, hstop, -⟩ := Field.slotAt?_eq_some_iff.1 ht
  obtain ⟨v, hv, hle⟩ := h.exists_width? hwidth
  have hbegin : c + paddingTo c f.alignUnit ≤ t.offset := by
    rw [hoffset, h.alignUnit_eq]
    exact add_paddingTo_mono _ hcd
  have hend : c + paddingTo c f.alignUnit + v ≤ t.stop := Nat.add_le_add hbegin hle
  let s : Slot :=
    ⟨f.name, c + paddingTo c f.alignUnit, paddingTo c f.alignUnit, v, f.alignUnit⟩
  have hs : f.slotAt? c = some s :=
    Field.slotAt?_eq_some_iff.2 ⟨hv, rfl, hend.trans_lt hstop, rfl, rfl, rfl⟩
  exact ⟨s, hs, hbegin, hend⟩

end Field.AtMost

/-- Fields are placed when longer ones are, and each begins and ends no later. -/
theorem placeFields_of_atMost {fields longer : List Field}
    (h : List.Forall₂ Field.AtMost fields longer) {record' : String} {c d : Nat}
    (hcd : c ≤ d) {slots' : List Slot} {stop' : Nat}
    (hlonger : placeFields record' d longer = .ok (slots', stop')) (record : String) :
    ∃ slots stop, placeFields record c fields = .ok (slots, stop)
      ∧ List.Forall₂ (fun s t => s.offset ≤ t.offset ∧ s.stop ≤ t.stop) slots slots'
      ∧ stop ≤ stop' := by
  induction h generalizing c d slots' with
  | nil =>
    obtain ⟨rfl, rfl⟩ := Prod.mk.inj (Except.ok.inj hlonger)
    exact ⟨[], c, rfl, .nil, hcd⟩
  | cons hf _ ih =>
    obtain ⟨t, others', ht, hothers', rfl⟩ := placeFields_cons_eq_ok_iff.1 hlonger
    obtain ⟨s, hs, hoffset, hstop⟩ := hf.exists_slotAt? hcd ht
    obtain ⟨others, stop, hothers, hslots, hle⟩ := ih hstop hothers'
    exact ⟨s :: others, stop, placeFields_cons_eq_ok_iff.2 ⟨s, others, hs, hothers, rfl⟩,
      .cons ⟨hoffset, hstop⟩ hslots, hle⟩

namespace Record

/-- **Larger lengths do not move a slot to the front.** When a record has a layout, so has
each record with as many fields of the same types and kinds and with lengths that are at
most as large, and there every slot begins no later and ends no later, and the buffer is
not larger. -/
theorem layout_of_atMost {r longer : Record} (h : List.Forall₂ Field.AtMost r.fields longer.fields)
    {l' : Layout} (hl' : longer.layout = .ok l') :
    ∃ l, r.layout = .ok l
      ∧ List.Forall₂ (fun s t => s.offset ≤ t.offset ∧ s.stop ≤ t.stop) l.slots l'.slots
      ∧ l.bufferSize ≤ l'.bufferSize := by
  obtain ⟨slots, stop, hplaced, hslots, hle⟩ :=
    placeFields_of_atMost h le_rfl (layout_eq_ok_iff.1 hl').1 r.name
  exact ⟨⟨r.name, slots, stop⟩, layout_eq_ok_iff.2 ⟨hplaced, rfl⟩, hslots, hle⟩

/-- Bytes, a word, and text. -/
def bytesAndText (bytes : Nat) (capacity : Option Nat) : Record where
  name := "R"
  line := 1
  docs := []
  fields :=
    [⟨"a", 2, [], .array bytes, .ofPlain "u8" "uint8_t" 1, false⟩,
     ⟨"b", 3, [], .scalar, .ofPlain "u64" "uint64_t" 8, false⟩,
     ⟨"c", 4, [], .string capacity,
       ⟨"str", "const std::string &", "std::string_view", 1, 8, .string⟩, false⟩]

/-- The padding behind the bytes becomes less, and still nothing moves to the front. -/
theorem layout_of_fewer_bytes :
    List.Forall₂ Field.AtMost (bytesAndText 2 none).fields (bytesAndText 8 (some 5)).fields
      ∧ (bytesAndText 8 (some 5)).layout
        = .ok ⟨"R", [⟨"a", 0, 0, 8, 1⟩, ⟨"b", 8, 0, 8, 8⟩, ⟨"c", 16, 0, 14, 8⟩], 30⟩
      ∧ ∃ l, (bytesAndText 2 none).layout = .ok l
        ∧ l.slots.map Slot.padding = [0, 6, 0] ∧ l.bufferSize ≤ 30 := by
  have hle : List.Forall₂ Field.AtMost (bytesAndText 2 none).fields
      (bytesAndText 8 (some 5)).fields :=
    .cons ⟨rfl, .array (by decide)⟩ (.cons ⟨rfl, .scalar⟩
      (.cons ⟨rfl, .string (by decide)⟩ .nil))
  have hlonger : (bytesAndText 8 (some 5)).layout
      = .ok ⟨"R", [⟨"a", 0, 0, 8, 1⟩, ⟨"b", 8, 0, 8, 8⟩, ⟨"c", 16, 0, 14, 8⟩], 30⟩ := by
    decide
  obtain ⟨l, hl, -, hsize⟩ := layout_of_atMost hle hlonger
  have hpaddings : (bytesAndText 2 none).layout.toOption.map (·.slots.map Slot.padding)
      = some [0, 6, 0] := by
    decide
  rw [hl] at hpaddings
  exact ⟨hle, hlonger, l, hl, Option.some.inj hpaddings, hsize⟩

end Record

end FlatRecord
