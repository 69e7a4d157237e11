import FlatRecord.FieldLine
import FlatRecord.Proofs.TypeTokenGrammar

/-!
# Fields that were read

What a field line gives is a well-formed field (`Field.WellFormed`): its name is
an identifier, its type is one of the catalog, its shape suits the storage of
the type, and a length that was written is a size other than zero. Everything
after reading – the layout, the accessors, the printed form – may count on that.

`Field.read_eq_ok_iff` is what reading a field line comes to, step by step, so
that no later proof needs to open it.
-/

namespace FlatRecord

/-- A sequence of two steps succeeds when both do. -/
theorem bind_eq_ok {ε α β : Type} {x : Except ε α} {f : α → Except ε β} {b : β} :
    (x >>= f) = .ok b ↔ ∃ a, x = .ok a ∧ f a = .ok b := by
  cases x with
  | ok a => exact ⟨fun h => ⟨a, rfl, h⟩, fun ⟨_, ha, h⟩ => Except.ok.inj ha ▸ h⟩
  | error e => exact ⟨nofun, nofun⟩

/-- It fails when the first step does, or the second after the first. -/
theorem bind_eq_error {ε α β : Type} {x : Except ε α} {f : α → Except ε β} {e : ε} :
    (x >>= f) = .error e ↔ x = .error e ∨ ∃ a, x = .ok a ∧ f a = .error e := by
  cases x with
  | ok a =>
    exact ⟨fun h => .inr ⟨a, rfl, h⟩, fun h => h.elim nofun fun ⟨_, ha, h⟩ => Except.ok.inj ha ▸ h⟩
  | error e' =>
    exact ⟨fun h => .inl (congrArg Except.error (Except.error.inj h)), fun h =>
      h.elim (fun he => congrArg Except.error (Except.error.inj he)) nofun⟩

/-- What is looked up is found. -/
theorem elim_eq_ok {ε α : Type} {o : Option α} {e : ε} {a : α} :
    o.elim (Except.error e) Except.ok = .ok a ↔ o = some a := by
  cases o <;> simp

/-- What is looked up is missing. -/
theorem elim_eq_error {ε α : Type} {o : Option α} {e e' : ε} :
    o.elim (Except.error e) Except.ok = .error e' ↔ o = none ∧ e = e' := by
  cases o <;> simp

/-! ## Well-formed fields -/

/-- Whether a shape is one that a type's storage allows. -/
def Shape.Suits (shape : Shape) (storage : Storage) : Prop :=
  match shape with
  | .scalar | .array _ | .optional _ => storage = .plain
  | .cString _ => storage = .cString
  | .string _ => storage = .string

/-- **A well-formed field.** -/
structure Field.WellFormed (f : Field) : Prop where
  /-- Its name is an identifier. -/
  name : Text.isIdentifier f.name.toList = true
  /-- Its type is one there is. -/
  type : f.type ∈ ScalarType.catalog
  /-- Its shape is one that values of the type can have. -/
  shape : f.shape.Suits f.type.storage
  /-- A length that is written is a size other than zero. -/
  length : ∀ n, f.shape.length? = some n → 0 < n ∧ n < Size.limit

/-! ## Field lines -/

/-- A length that a type token gives is a size other than zero. -/
theorem TypeToken.bounds_of_read {text : String} {token : TypeToken}
    (h : TypeToken.read text = .ok token) :
    ∀ n, token.length = some n → 0 < n ∧ n < Size.limit := by
  obtain ⟨f, rfl, rfl⟩ := TypeToken.read_eq_ok_iff_form.1 h
  intro n hn
  obtain ⟨digits, hdigits, rfl⟩ := Option.map_eq_some_iff.1 hn
  obtain ⟨-, hpos, hmax⟩ := f.isLength digits hdigits
  unfold Size.limit
  omega

/-- A shape that a type token gives suits the type, and its length is the one of
the token. -/
theorem TypeToken.suits_of_shapeOver {token : TypeToken} {type : ScalarType} {shape : Shape}
    (h : token.shapeOver type = .ok shape) :
    shape.Suits type.storage ∧ shape.length? = token.length := by
  obtain ⟨isOptional, name, length⟩ := token
  unfold shapeOver at h
  -- of the six cases the two that make an optional of text are errors
  cases hs : type.storage <;> cases isOptional <;> simp only [hs] at h <;> cases h
  · cases length <;> exact ⟨rfl, rfl⟩
  · exact ⟨rfl, rfl⟩
  · exact ⟨rfl, rfl⟩
  · exact ⟨rfl, rfl⟩

/-- Reading a field line is splitting it into words, reading its type token, and
looking up and checking what these say. -/
theorem Field.read_eq_ok_iff {text : String} {line : Nat} {f : Field} :
    Field.read text line = .ok f ↔
      ∃ words token,
        FieldWords.split text = .ok words ∧ TypeToken.read words.type = .ok token
          ∧ ScalarType.find? token.name = some f.type ∧ token.shapeOver f.type = .ok f.shape
          ∧ Text.isIdentifier words.name.toList = true
          ∧ f.name = words.name ∧ f.line = line ∧ f.docs = [] ∧ f.mutable = words.mutable := by
  constructor
  · intro h
    obtain ⟨words, hwords, h⟩ := bind_eq_ok.1 h
    obtain ⟨token, htoken, h⟩ := bind_eq_ok.1 h
    obtain ⟨type, htype, h⟩ := bind_eq_ok.1 h
    obtain ⟨shape, hshape, h⟩ := bind_eq_ok.1 h
    have hfind : ScalarType.find? token.name = some type := elim_eq_ok.1 htype
    split at h
    · rename_i hname
      obtain rfl := Except.ok.inj h
      exact ⟨words, token, hwords, htoken, hfind, hshape, hname, rfl, rfl, rfl, rfl⟩
    · cases h
  · rintro ⟨words, token, hwords, htoken, hfind, hshape, hname, h1, h2, h3, h4⟩
    obtain ⟨name, line', docs, shape, type, mutable⟩ := f
    obtain rfl : name = words.name := h1
    obtain rfl : line' = line := h2
    obtain rfl : docs = [] := h3
    obtain rfl : mutable = words.mutable := h4
    refine bind_eq_ok.2 ⟨words, hwords, bind_eq_ok.2 ⟨token, htoken, ?_⟩⟩
    refine bind_eq_ok.2 ⟨type, elim_eq_ok.2 hfind, bind_eq_ok.2 ⟨shape, hshape, ?_⟩⟩
    rw [if_pos hname]
    rfl

/-- **A field that was read is well-formed.** -/
theorem Field.wellFormed_of_read {text : String} {line : Nat} {f : Field}
    (h : Field.read text line = .ok f) : f.WellFormed := by
  obtain ⟨words, token, -, htoken, hfind, hshape, hname, hfname, -⟩ := Field.read_eq_ok_iff.1 h
  obtain ⟨hsuits, hlength⟩ := TypeToken.suits_of_shapeOver hshape
  exact ⟨hfname ▸ hname, ScalarType.mem_catalog_of_find? hfind, hsuits,
    fun n hn => TypeToken.bounds_of_read htoken n (hlength ▸ hn)⟩

end FlatRecord
