import FlatRecord.Proofs.Compilation
import FlatRecord.Proofs.Placement
import FlatRecord.Proofs.WellFormed
import Mathlib.Data.List.Pairwise

/-!
# What is declared is what is laid out

The types of accessors and the slots of a layout come from a field by two
different ways: one builds a C++ type, which the compiler of that language will
give a size of its own, the other a number. Here that size is spelled out
(`TypeExpr.bytes?`), and the two ways are shown to meet: what the class declares for a
field takes exactly the slot of the field (`Field.types_of_plain`,
`Field.capacity_of_text`).

So a class can be judged by itself. `ClassDecl.accesses` are all stretches of the
buffer that its constructor, its getters and its setters touch, each under the
constant that says where it begins. In a class that was generated every one of
them begins at a multiple of its unit and lies within the buffer, and two that go
by different constants have no byte in common (`ClassDecl.AccessesFit`).
-/

namespace FlatRecord

/-! ## The size of a type -/

namespace TypeExpr

/-- The bytes that a scalar type takes, by its spelling. -/
def scalarBytes? (spelling : String) : Option Nat :=
  [("bool", 1), ("char", 1), ("unsigned char", 1), ("int8_t", 1), ("uint8_t", 1),
   ("int16_t", 2), ("uint16_t", 2), ("int32_t", 4), ("uint32_t", 4), ("float", 4),
   ("int64_t", 8), ("uint64_t", 8), ("double", 8)].lookup spelling

/-- The alignment of a type: that of a scalar is its size, and arrays and optionals
have that of what they hold. -/
def alignBytes? : TypeExpr → Option Nat
  | .named spelling => scalarBytes? spelling
  | .array element _ => element.alignBytes?
  | .optional value => value.alignBytes?
  | .constRef _ => none

/-- The size of a type. An optional holds a flag behind its value, and is rounded up
to the alignment of the value. -/
def bytes? : TypeExpr → Option Nat
  | .named spelling => scalarBytes? spelling
  | .array element length => element.bytes?.map (length * ·)
  | .optional value => do return roundUp (← value.alignBytes?) ((← value.bytes?) + 1)
  | .constRef _ => none

/-- What is left of a type without a reference around it. -/
def referent : TypeExpr → TypeExpr
  | .constRef target => target
  | t => t

end TypeExpr

/-- Rounding up what ends one byte behind a multiple adds a whole unit. -/
theorem roundUp_mul_add_one {unit : Nat} (h : 0 < unit) (k : Nat) :
    roundUp unit (unit * k + 1) = unit * k + unit := by
  have hleast := isLeast_roundUp h (unit * k + 1)
  refine Nat.le_antisymm (hleast.2 ⟨⟨k + 1, by rw [Nat.mul_succ]⟩, by omega⟩) ?_
  obtain ⟨⟨m, hm⟩, hle⟩ := hleast.1
  rw [hm] at hle ⊢
  have hlt : k < m := Nat.lt_of_mul_lt_mul_left (show unit * k < unit * m by omega)
  calc unit * k + unit = unit * (k + 1) := (Nat.mul_succ _ _).symm
    _ ≤ unit * m := Nat.mul_le_mul_left _ hlt

/-! ## Fields -/

namespace ScalarType

/-- A type stored inline is spelled the same everywhere, and has the size that its
spelling has. -/
theorem plain_of_mem_catalog {t : ScalarType} (h : t ∈ catalog) (hs : t.storage = .plain) :
    t.resultForm = t.parameterForm
      ∧ TypeExpr.scalarBytes? t.parameterForm = some t.width := by
  revert t
  decide

/-- Text takes one byte a character, and is aligned like a pointer. -/
theorem text_of_mem_catalog {t : ScalarType} (h : t ∈ catalog) (hs : t.storage ≠ .plain) :
    t.width = 1 ∧ t.align = 8 := by
  revert t
  decide

end ScalarType

namespace Field

/-- **A field stored inline is read as a value of just its size**, at just its
alignment, and is set by a value of the same type or a reference to one. -/
theorem types_of_plain {f : Field} (h : f.WellFormed) (hs : f.type.storage = .plain) :
    f.getter.buffer = .typed f.resultType
      ∧ f.resultType.bytes? = some f.exactWidth
      ∧ f.resultType.alignBytes? = some f.alignUnit
      ∧ (f.parameterType = f.resultType ∨ f.parameterType = .constRef f.resultType)
      ∧ f.store.capacity = none := by
  obtain ⟨hform, hbytes⟩ := ScalarType.plain_of_mem_catalog h.type hs
  have hpos := (ScalarType.pos_of_mem_catalog h.type).1.1
  have hsuits := h.shape
  obtain ⟨name, line, docs, shape, type, mutable⟩ := f
  dsimp only at hform hbytes hpos hs hsuits
  cases shape with
  | scalar =>
    refine ⟨rfl, ?_, ?_, .inl (congrArg TypeExpr.named hform.symm), rfl⟩
    · exact (congrArg _ hform).trans hbytes
    · exact (congrArg _ hform).trans hbytes
  | array length =>
    refine ⟨rfl, ?_, hbytes, .inr rfl, rfl⟩
    show (TypeExpr.scalarBytes? type.parameterForm).map (length * ·) = _
    rw [hbytes]
    exact congrArg some (Nat.mul_comm _ _)
  | optional length =>
    cases length with
    | none =>
      refine ⟨rfl, ?_, (congrArg _ hform).trans hbytes, .inr ?_, rfl⟩
      · show (TypeExpr.optional (.named type.resultForm)).bytes? = some (2 * type.width)
        -- the flag takes one byte, and rounding makes that a whole unit
        have hround := roundUp_mul_add_one hpos 1
        rw [Nat.mul_one] at hround
        simp only [TypeExpr.bytes?, TypeExpr.alignBytes?, hform, hbytes]
        exact congrArg some (hround.trans (Nat.two_mul _).symm)
      · show TypeExpr.constRef (.optional (.named type.parameterForm))
          = .constRef (.optional (.named type.resultForm))
        rw [hform]
    | some length =>
      refine ⟨rfl, ?_, hbytes, .inr rfl, rfl⟩
      show (TypeExpr.optional (.array (.named type.parameterForm) length)).bytes?
        = some (type.width * length + type.width)
      simp only [TypeExpr.bytes?, TypeExpr.alignBytes?, hbytes]
      rw [Option.map_some, Nat.mul_comm length]
      exact congrArg some (roundUp_mul_add_one hpos length)
  | string capacity | cString capacity => exact absurd (hs.symm.trans hsuits) nofun

/-- **A text field is stored with just the capacity it has room for.** -/
theorem capacity_of_text {f : Field} (h : f.WellFormed) (hs : f.type.storage ≠ .plain) :
    (∀ type, f.getter.buffer ≠ .typed type)
      ∧ f.alignUnit = 8 ∧ ∃ n, f.store.capacity = some n ∧ n + 9 = f.exactWidth := by
  obtain ⟨hwidth, halign⟩ := ScalarType.text_of_mem_catalog h.type hs
  have hsuits := h.shape
  obtain ⟨name, line, docs, shape, type, mutable⟩ := f
  dsimp only at hwidth halign hs hsuits
  cases shape with
  | scalar | array _ | optional _ => exact absurd hsuits hs
  | string capacity | cString capacity =>
    refine ⟨nofun, halign, textCapacity capacity, rfl, ?_⟩
    show textCapacity capacity + 9 = type.width * capacity.getD 1 + 9
    rw [hwidth, Nat.one_mul, textCapacity]

end Field

/-! ## Accesses -/

/-- A stretch of the buffer that is read or written at once. -/
structure Access where
  /-- The constant that says where it begins. -/
  constant : String
  /-- Its length. -/
  bytes : Nat
  /-- The unit its begin has to be a multiple of. -/
  align : Nat
deriving DecidableEq, Repr

/-- The access to a value of a type, if the type has a size. -/
def TypeExpr.access? (t : TypeExpr) (constant : String) : Option Access := do
  return ⟨constant, ← t.bytes?, ← t.alignBytes?⟩

/-- The accesses of a getter that reads a value. Text is read up to its end, which
is where the stores have put it. -/
def Getter.accesses (g : Getter) : List (Option Access) :=
  match g.buffer with
  | .typed type => [type.access? g.constant]
  | .cString | .string => []

/-- The access of a store. Text is written in a stretch that its capacity gives,
any other value by its type. -/
def Store.access? (s : Store) (type : TypeExpr) : Option Access :=
  match s.capacity with
  | some n => some ⟨s.constant, n + 9, 8⟩
  | none => type.referent.access? s.constant

namespace ClassDecl

/-- The accesses of a class: those of the constructor, then those of the accessors. -/
def accesses (c : ClassDecl) : List (Option Access) :=
  List.zipWith (fun s p => s.access? p.type) c.stores c.parameters
    ++ c.accessors.flatMap fun a =>
      a.getter.accesses ++ (a.setter.map fun s => s.store.access? s.parameter.type).toList

/-- The value of an offset constant of the class. -/
def offsetOf? (c : ClassDecl) (constant : String) : Option Nat :=
  (c.constants.find? (·.name == constant)).map (·.offset)

/-- **Accesses fit in the buffer.** -/
structure AccessesFit (c : ClassDecl) : Prop where
  /-- Each has a size and a begin, is aligned, and ends within the buffer. -/
  inside : ∀ a ∈ c.accesses, ∃ x start, a = some x ∧ c.offsetOf? x.constant = some start
    ∧ start % x.align = 0 ∧ start + x.bytes ≤ c.bufferSize
  /-- Two that begin at different constants have no byte in common. -/
  apart : ∀ x y : Access, some x ∈ c.accesses → some y ∈ c.accesses →
    x.constant ≠ y.constant → ∀ i j, c.offsetOf? x.constant = some i →
      c.offsetOf? y.constant = some j →
      (List.range' i x.bytes).Disjoint (List.range' j y.bytes)

end ClassDecl

/-- The access to the whole slot that a field has. -/
def Field.slotAccess (f : Field) : Access := ⟨offsetConstant f.name, f.exactWidth, f.alignUnit⟩

namespace Field

theorem access?_resultType {f : Field} (h : f.WellFormed) (hs : f.type.storage = .plain) :
    f.resultType.access? (offsetConstant f.name) = some f.slotAccess := by
  obtain ⟨-, hbytes, halign, -⟩ := types_of_plain h hs
  simp only [TypeExpr.access?, hbytes, halign]
  rfl

theorem referent_parameterType {f : Field} (h : f.WellFormed) (hs : f.type.storage = .plain) :
    f.parameterType.referent = f.resultType := by
  obtain ⟨-, hbytes, -, hparam | hparam, -⟩ := types_of_plain h hs
  · -- a type that has a size is not itself a reference
    rw [hparam]
    cases hresult : f.resultType with
    | constRef target => rw [hresult] at hbytes; cases hbytes
    | named | array | optional => rfl
  · rw [hparam, TypeExpr.referent]

theorem constant_store (f : Field) : f.store.constant = offsetConstant f.name := by
  unfold store
  cases f.shape <;> rfl

/-- What is stored without a capacity is the parameter itself. -/
theorem value_store {f : Field} (h : f.store.capacity = none) : f.store.value = f.name := by
  obtain ⟨name, line, docs, shape, type, mutable⟩ := f
  cases shape with
  | scalar | array _ | optional _ | cString _ => rfl
  | string capacity => cases h

theorem access?_store {f : Field} (h : f.WellFormed) :
    f.store.access? f.parameterType = some f.slotAccess := by
  by_cases hs : f.type.storage = .plain
  · obtain ⟨-, -, -, -, hcap⟩ := types_of_plain h hs
    simp only [Store.access?, hcap]
    rw [referent_parameterType h hs, constant_store, access?_resultType h hs]
  · obtain ⟨-, halign, n, hcap, hn⟩ := capacity_of_text h hs
    simp only [Store.access?, hcap]
    rw [slotAccess, constant_store, halign, ← hn]

theorem accesses_getter {f : Field} (h : f.WellFormed) :
    ∀ a ∈ f.getter.accesses, a = some f.slotAccess := by
  intro a ha
  by_cases hs : f.type.storage = .plain
  · obtain ⟨htyped, -⟩ := types_of_plain h hs
    rw [Getter.accesses, htyped] at ha
    obtain rfl := List.mem_singleton.1 ha
    exact access?_resultType h hs
  · obtain ⟨htext, -⟩ := capacity_of_text h hs
    cases hbuffer : f.getter.buffer with
    | typed type => exact absurd hbuffer (htext type)
    | cString | string =>
      rw [Getter.accesses, hbuffer] at ha
      exact absurd ha List.not_mem_nil

end Field

/-- **Every access of a generated class is to the whole slot of a field.** -/
theorem ClassDecl.mem_accesses_ofRecord {r : Record} (h : ∀ f ∈ r.fields, f.WellFormed)
    {layout : Layout} {allMutable : Bool} {a : Option Access}
    (ha : a ∈ (ClassDecl.ofRecord r layout allMutable).accesses) :
    ∃ f ∈ r.fields, a = some f.slotAccess := by
  rcases List.mem_append.1 ha with ha | ha
  · rw [ClassDecl.ofRecord, List.zipWith_map, List.zipWith_self] at ha
    obtain ⟨f, hf, rfl⟩ := List.mem_map.1 ha
    exact ⟨f, hf, Field.access?_store (h f hf)⟩
  · obtain ⟨accessor, haccessor, ha⟩ := List.mem_flatMap.1 ha
    obtain ⟨f, hf, rfl⟩ := List.mem_map.1 haccessor
    rcases List.mem_append.1 ha with ha | ha
    · exact ⟨f, hf, Field.accesses_getter (h f hf) a ha⟩
    · rw [Field.accessor] at ha
      split at ha
      · obtain rfl := List.mem_singleton.1 ha
        exact ⟨f, hf, Field.access?_store (h f hf)⟩
      · exact absurd ha List.not_mem_nil

/-! ## Classes over a layout -/

theorem offsetConstant_inj {a b : String} : offsetConstant a = offsetConstant b ↔ a = b :=
  String.append_right_inj _

/-- The constants of the fields have different names, as the fields have. -/
theorem Record.NamesFree.nodup_constants {r : Record} (h : r.NamesFree) :
    (r.fields.map (offsetConstant ·.name)).Nodup := by
  show (r.fields.map (offsetConstant ∘ Field.name)).Nodup
  rw [← List.map_map]
  exact h.nodup.map fun a b => offsetConstant_inj.1

/-- A field has the slot in its place, which is of its name, its width and its unit. -/
theorem Record.exists_slot {r : Record} {l : Layout} (hl : l.slots = r.exactSlots) {i : Nat}
    {f : Field} (hf : r.fields[i]? = some f) :
    ∃ s, l.slots[i]? = some s ∧ s.name = f.name ∧ s.width = f.exactWidth
      ∧ s.align = f.alignUnit := by
  rw [hl, Record.exactSlots_eq, getElem?_exactSlotsFrom, hf]
  exact ⟨_, rfl, rfl, rfl, rfl⟩

/-- The constant of a slot has the offset of the slot, when no two slots share a
name. -/
theorem ClassDecl.offsetOf?_ofRecord {r : Record} {l : Layout} {allMutable : Bool}
    (hnodup : (l.slots.map Slot.name).Nodup) {s : Slot} (hs : s ∈ l.slots) :
    (ClassDecl.ofRecord r l allMutable).offsetOf? (offsetConstant s.name) = some s.offset := by
  have hfind : l.slots.find? (fun t => offsetConstant t.name == offsetConstant s.name)
      = some s := by
    obtain ⟨before, after, hsplit⟩ := List.append_of_mem hs
    -- no slot before this one has its name
    refine List.find?_eq_some_iff_append.2 ⟨beq_self_eq_true _, before, after, hsplit, ?_⟩
    intro t ht
    rw [hsplit, List.map_append, List.map_cons] at hnodup
    have hne := (List.nodup_append.1 hnodup).2.2 t.name (List.mem_map_of_mem ht) s.name
      List.mem_cons_self
    simpa [offsetConstant_inj] using hne
  show (List.find? _ (l.slots.map Slot.constant)).map _ = _
  rw [List.find?_map]
  show (Option.map Slot.constant (l.slots.find? fun t =>
    offsetConstant t.name == offsetConstant s.name)).map _ = _
  rw [hfind]
  rfl

/-- **The accesses of a generated class fit in its buffer.** -/
theorem Record.accessesFit {r : Record} {l : Layout} (hwf : ∀ f ∈ r.fields, f.WellFormed)
    (hnodup : (r.fields.map Field.name).Nodup) (hl : r.layout = .ok l) (allMutable : Bool) :
    (ClassDecl.ofRecord r l allMutable).AccessesFit := by
  have hcat : ∀ f ∈ r.fields, f.type ∈ ScalarType.catalog := fun f hf => (hwf f hf).type
  have hslots : l.slots = r.exactSlots :=
    congrArg Layout.slots (eq_of_layout_eq_ok hcat hl)
  have hfills := fills_of_layout_eq_ok hcat hl
  have hnames : (l.slots.map Slot.name).Nodup := map_name_of_layout_eq_ok hcat hl ▸ hnodup
  -- what an access touches is a slot of the layout
  have hslot : ∀ {a}, a ∈ (ClassDecl.ofRecord r l allMutable).accesses →
      ∃ s ∈ l.slots, a = some ⟨offsetConstant s.name, s.width, s.align⟩ := by
    intro a ha
    obtain ⟨f, hf, rfl⟩ := ClassDecl.mem_accesses_ofRecord hwf ha
    obtain ⟨i, hi⟩ := List.getElem?_of_mem hf
    obtain ⟨s, hs, hname, hwidth, halign⟩ := Record.exists_slot hslots hi
    refine ⟨s, List.mem_of_getElem? hs, ?_⟩
    rw [Field.slotAccess, hname, hwidth, halign]
  refine ⟨fun a ha => ?_, fun x y hx hy hne i j hi hj => ?_⟩
  · obtain ⟨s, hs, rfl⟩ := hslot ha
    exact ⟨_, s.offset, rfl, ClassDecl.offsetOf?_ofRecord hnames hs, hfills.aligned s hs,
      stop_le_of_layout_eq_ok hcat hl s hs⟩
  · obtain ⟨s, hs, hxs⟩ := hslot hx
    obtain ⟨t, ht, hyt⟩ := hslot hy
    obtain rfl := Option.some.inj hxs
    obtain rfl := Option.some.inj hyt
    rw [ClassDecl.offsetOf?_ofRecord hnames hs] at hi
    rw [ClassDecl.offsetOf?_ofRecord hnames ht] at hj
    obtain rfl := Option.some.inj hi
    obtain rfl := Option.some.inj hj
    have : Std.Symm fun s t : Slot => s.bytes.Disjoint t.bytes := ⟨fun _ _ h => h.symm⟩
    exact hfills.disjoint.forall hs ht fun heq => hne (heq ▸ rfl)

/-! ## Stores -/

theorem Store.render_of_capacity_none {st : Store} (h : st.capacity = none) :
    st.render = "assign_buffer(" ++ st.constant ++ ", " ++ st.value ++ ");" := by
  unfold render
  rw [h]
  dsimp only
  rw [String.append_empty]

theorem Store.render_of_capacity_some {st : Store} {n : Nat} (h : st.capacity = some n) :
    st.render
      = "assign_buffer(" ++ st.constant ++ ", " ++ st.value ++ ", " ++ n.repr ++ ");" := by
  unfold render
  rw [h]
  dsimp only
  rw [← String.append_assoc]

end FlatRecord
