import FlatRecord.Proofs.ClassText
import FlatRecord.Proofs.Comments
import Mathlib.Data.List.DropRight

/-!
# Reading a header back

What a header says of a layout can be read off its lines. Behind the line that opens
the private part of the class stand the constants: one for the offset of each field,
with the padding in a note, and the size of the buffer last (`readPlaces?`). And in
front of it stand the functions, which name these constants where they call on the
buffer. A call is made by a statement on a line of its own, as in the constructor, or
between the braces behind the signature of a member function (`readCall?`).

The readers know nothing of classes and records. They look at how a line begins, and
then at one thing after the other.
-/

namespace FlatRecord

/-! ## Constants -/

/-- Takes a number off the start of a text. -/
def takeNumber? (cs : List Char) : Option (Nat × List Char) :=
  let digits := cs.takeWhile Char.isDigit
  if digits.isEmpty then none
  else some (Nat.ofDigitChars 10 digits 0, cs.dropWhile Char.isDigit)

/-- The place of a field, as the constants of a class tell it. -/
structure Place where
  /-- The name of the field. -/
  name : String
  /-- Where it begins. -/
  offset : Nat
  /-- The bytes left free before it. -/
  padding : Nat
deriving DecidableEq, Repr

/-- The place of a slot. -/
def Slot.place (s : Slot) : Place := ⟨s.name, s.offset, s.padding⟩

/-- The padding that the note behind a constant tells; without a note there is none. -/
def readNote? (cs : List Char) : Option Nat :=
  if cs.isEmpty then some 0
  else do
    let (padding, rest) ← takeNumber? (← " /* ".toList.isPrefixOf? cs)
    if rest = " padding */".toList then some padding else none

/-- The place that a line tells, if it is that of an offset constant. -/
def readPlace? (line : List Char) : Option Place := do
  let constant ← "    static constexpr size_t offset_".toList.isPrefixOf? line
  let name := constant.takeWhile Text.isIdentifierPart
  let value ← " = ".toList.isPrefixOf? (constant.dropWhile Text.isIdentifierPart)
  let (offset, rest) ← takeNumber? value
  let padding ← readNote? (← ";".toList.isPrefixOf? rest)
  return ⟨String.ofList name, offset, padding⟩

/-- The size that a line tells, if it is that of the buffer. -/
def readSize? (line : List Char) : Option Nat := do
  let value ← "    static constexpr size_t buffer_size = ".toList.isPrefixOf? line
  let (size, rest) ← takeNumber? value
  if rest = ";".toList then some size else none

/-- The places that lines tell, up to the size of the buffer, which follows them. -/
def readPlaces? : List (List Char) → Option (List Place × Nat)
  | [] => none
  | line :: rest =>
    match readPlace? line with
    | some place => do
      let (places, size) ← readPlaces? rest
      return (place :: places, size)
    | none => do return ([], ← readSize? line)

/-! ## Calls -/

/-- **A call on the buffer.** -/
structure BufferCall where
  /-- The member function it stands in; the constructor has no name of its own. -/
  member : Option String
  /-- The function that is called. -/
  function : String
  /-- The first argument. -/
  argument : String
deriving DecidableEq, Repr

/-- The functions that store in the buffer and read it. -/
def bufferFunctions : List String :=
  ["assign_buffer", "buffer_at", "buffer_at_cstr", "buffer_at_str"]

/-- The call on the buffer at the start of a text, if there is one. -/
def readFunction? (member : Option String) (cs : List Char) : Option BufferCall :=
  let function := String.ofList (cs.takeWhile Text.isIdentifierPart)
  let arguments := (cs.dropWhile (· != '(')).drop 1
  if bufferFunctions.contains function then
    some ⟨member, function, String.ofList (arguments.takeWhile fun c => c != ',' && c != ')')⟩
  else none

/-- The call on the buffer that a statement makes or returns. -/
def readStatement? (member : Option String) (cs : List Char) : Option BufferCall :=
  readFunction? member (("return ".toList.isPrefixOf? cs).getD cs)

/-- The call on the buffer that stands on a line: as a statement, or in the body of a
member function, whose name is the last thing before its parameters. -/
def readCall? (line : List Char) : Option BufferCall :=
  match "        ".toList.isPrefixOf? line with
  | some statement => readStatement? none statement
  | none => do
    let function ← "    inline ".toList.isPrefixOf? line
    let name := (function.takeWhile (· != '(')).rtakeWhile Text.isIdentifierPart
    readStatement? (some (String.ofList name)) ((function.dropWhile (· != '\x7b')).drop 2)

/-! ## Reading what was written -/

theorem isPrefixOf?_append (front rest : List Char) :
    front.isPrefixOf? (front ++ rest) = some rest :=
  List.isPrefixOf?_eq_some_iff_append_eq.2 rfl

/-- What holds of the character that a text begins with. -/
theorem forall_head?_cons {P : Char → Prop} {c : Char} (h : P c) (cs : List Char) :
    ∀ d, (c :: cs).head? = some d → P d :=
  fun _ hd => Option.some.inj hd ▸ h

theorem takeNumber?_repr (n : Nat) (rest : List Char)
    (h : ∀ c, rest.head? = some c → c.isDigit = false) :
    takeNumber? (n.repr.toList ++ rest) = some (n, rest) := by
  have hdigits : ∀ c ∈ n.repr.toList, c.isDigit = true := fun c hc => by
    rw [Nat.toList_repr] at hc
    exact Nat.isDigit_of_mem_toDigits (by decide) (by decide) hc
  obtain ⟨htake, hdrop⟩ := takeWhile_append_of_head? hdigits h
  have hne : n.repr.toList.isEmpty = false := by
    rw [Nat.toList_repr, List.isEmpty_eq_false_iff]
    exact Nat.toDigits_ne_nil
  unfold takeNumber?
  dsimp only
  rw [htake, hdrop, hne, if_neg Bool.false_ne_true, Nat.toList_repr,
    Nat.ofDigitChars_ten_toDigits]

theorem readNote?_note (padding : Nat) :
    readNote? (" /* ".toList ++ (padding.repr.toList ++ " padding */".toList)) = some padding := by
  unfold readNote?
  rw [isPrefixOf?_append]
  show (takeNumber? _ >>= _) = _
  rw [takeNumber?_repr padding " padding */".toList (forall_head?_cons (by decide) _)]
  rfl

/-- A name that something else follows is what is taken of a text. -/
theorem takeWhile_identifier {name : List Char} (h : Text.isIdentifier name = true)
    (rest : List Char) (hrest : ∀ c, rest.head? = some c → Text.isIdentifierPart c = false) :
    (name ++ rest).takeWhile Text.isIdentifierPart = name
      ∧ (name ++ rest).dropWhile Text.isIdentifierPart = rest :=
  takeWhile_append_of_head? (fun _ hc => Text.isIdentifierPart_of_mem h hc) hrest

/-- **An offset constant tells the place of its slot.** -/
theorem readPlace?_render {s : Slot} (h : Text.isIdentifier s.name.toList = true) :
    readPlace? s.constant.render.toList = some s.place := by
  obtain ⟨note, hline, hnote⟩ : ∃ note, s.constant.render.toList
      = "    static constexpr size_t offset_".toList ++ (s.name.toList ++ (" = ".toList
        ++ (s.offset.repr.toList ++ (";".toList ++ note)))) ∧ readNote? note = some s.padding := by
    refine ⟨(if s.padding = 0 then "" else " /* " ++ s.padding.repr ++ " padding */").toList,
      ?_, ?_⟩
    · show (memberIndent ++ "static constexpr size_t " ++ ("offset_" ++ s.name) ++ " = "
        ++ s.offset.repr ++ ";" ++ _).toList = _
      simp only [String.toList_append, List.append_assoc]
      rfl
    · split
      · rename_i hpadding
        rw [hpadding]
        rfl
      · rw [String.toList_append, String.toList_append, List.append_assoc]
        exact readNote?_note s.padding
  have hnumber := takeNumber?_repr s.offset (";".toList ++ note)
    (forall_head?_cons (by decide) _)
  obtain ⟨htake, hdrop⟩ := takeWhile_identifier h
    (" = ".toList ++ (s.offset.repr.toList ++ (";".toList ++ note)))
    (forall_head?_cons (by decide) _)
  simp only [readPlace?, hline, isPrefixOf?_append, Option.bind_eq_bind, Option.bind_some, htake,
    hdrop, hnumber, hnote, String.ofList_toList]
  rfl

/-- The last constant tells the size of the buffer. -/
theorem readSize?_render (size : Nat) :
    readPlace? ("    static constexpr size_t buffer_size = " ++ size.repr ++ ";").toList = none
      ∧ readSize? ("    static constexpr size_t buffer_size = " ++ size.repr ++ ";").toList
        = some size := by
  have hline : ("    static constexpr size_t buffer_size = " ++ size.repr ++ ";").toList
      = "    static constexpr size_t buffer_size = ".toList
        ++ (size.repr.toList ++ ";".toList) := by
    simp only [String.toList_append, List.append_assoc]
  have hnumber := takeNumber?_repr size ";".toList (forall_head?_cons (by decide) _)
  rw [hline]
  refine ⟨rfl, ?_⟩
  simp only [readSize?, isPrefixOf?_append, Option.bind_eq_bind, Option.bind_some, hnumber]
  rfl

/-- **The constants of a layout tell the layout**, with whatever comes after them. -/
theorem readPlaces?_layout {slots : List Slot}
    (h : ∀ s ∈ slots, Text.isIdentifier s.name.toList = true) (size : Nat)
    (rest : List (List Char)) :
    readPlaces? ((slots.map fun s => s.constant.render.toList)
        ++ ("    static constexpr size_t buffer_size = " ++ size.repr ++ ";").toList :: rest)
      = some (slots.map Slot.place, size) := by
  induction slots with
  | nil =>
    obtain ⟨hplace, hsize⟩ := readSize?_render size
    rw [List.map_nil, List.nil_append, readPlaces?, hplace, hsize]
    rfl
  | cons s slots ih =>
    obtain ⟨hs, hslots⟩ := List.forall_mem_cons.1 h
    rw [List.map_cons, List.cons_append, readPlaces?, readPlace?_render hs, ih hslots]
    rfl

/-! ## Calls that were written -/

/-- A text up to a character of a kind that it has none of. -/
theorem takeWhile_append_cons {p : Char → Bool} {front : List Char}
    (hfront : ∀ c ∈ front, p c = true) {c : Char} (hc : p c = false) (rest : List Char) :
    (front ++ c :: rest).takeWhile p = front ∧ (front ++ c :: rest).dropWhile p = c :: rest :=
  takeWhile_append_of_head? hfront (forall_head?_cons hc rest)

theorem isIdentifier_bufferFunctions :
    ∀ function ∈ bufferFunctions, Text.isIdentifier function.toList = true := by
  decide

/-- **A text that names a function**: it begins with the name, and opens no arguments. -/
def NamesFunction (text function : String) : Prop :=
  ∃ more, text.toList = function.toList ++ more ∧ (∀ c ∈ more, c ≠ '(')
    ∧ ∀ c, more.head? = some c → Text.isIdentifierPart c = false

/-- A name names itself. -/
theorem NamesFunction.self (function : String) : NamesFunction function function :=
  ⟨[], (List.append_nil _).symm, List.forall_mem_nil _, nofun⟩

/-- A call on the buffer is read with its first argument. -/
theorem readFunction?_call (member : Option String) {text function argument : String}
    (hfunction : function ∈ bufferFunctions) (htext : NamesFunction text function)
    (hargument : Text.isIdentifier argument.toList = true) {close : Char}
    (hclose : close = ',' ∨ close = ')') (rest : List Char) :
    readFunction? member (text.toList ++ '(' :: (argument.toList ++ close :: rest))
      = some ⟨member, function, argument⟩ := by
  obtain ⟨more, htext, hmore, hhead⟩ := htext
  have hname := isIdentifier_bufferFunctions function hfunction
  have hnext : ∀ c, (more ++ '(' :: (argument.toList ++ close :: rest)).head? = some c →
      Text.isIdentifierPart c = false := by
    cases more with
    | nil => exact forall_head?_cons (by decide) _
    | cons d ds => exact hhead
  obtain ⟨htake, -⟩ := takeWhile_identifier hname _ hnext
  -- there is no bracket before that of the arguments
  have hopen : ∀ c ∈ text.toList, (c != '(') = true := by
    rw [htext, List.forall_mem_append]
    exact ⟨fun c hc => bne_iff_ne.2
      (Text.ne_of_isIdentifierPart (Text.isIdentifierPart_of_mem hname hc) (by decide)),
      fun c hc => bne_iff_ne.2 (hmore c hc)⟩
  obtain ⟨-, hdrop⟩ := takeWhile_append_cons hopen (by decide : ('(' != '(') = false)
    (argument.toList ++ close :: rest)
  have hplain : ∀ c ∈ argument.toList, (c != ',' && c != ')') = true := by
    intro c hc
    have hpart := Text.isIdentifierPart_of_mem hargument hc
    exact Bool.and_eq_true_iff.2 ⟨bne_iff_ne.2 (Text.ne_of_isIdentifierPart hpart (by decide)),
      bne_iff_ne.2 (Text.ne_of_isIdentifierPart hpart (by decide))⟩
  obtain ⟨htakeArgument, -⟩ := takeWhile_append_cons hplain
    (by rcases hclose with rfl | rfl <;> decide : (close != ',' && close != ')') = false) rest
  unfold readFunction?
  dsimp only
  rw [hdrop, htext, List.append_assoc, htake, String.ofList_toList, List.drop_succ_cons,
    List.drop_zero, htakeArgument, String.ofList_toList,
    if_pos (List.contains_iff_mem.2 hfunction)]

theorem readStatement?_function (member : Option String) {function : String}
    (hfunction : function ∈ bufferFunctions) (rest : List Char) :
    readStatement? member (function.toList ++ rest)
      = readFunction? member (function.toList ++ rest) := by
  have hreturn : ∀ function ∈ bufferFunctions, ∀ rest : List Char,
      "return ".toList.isPrefixOf? (function.toList ++ rest) = none := by
    simp only [bufferFunctions, List.forall_mem_cons]
    exact ⟨fun _ => rfl, fun _ => rfl, fun _ => rfl, fun _ => rfl, nofun⟩
  unfold readStatement?
  rw [hreturn function hfunction rest]
  rfl

theorem readStatement?_return (member : Option String) (cs : List Char) :
    readStatement? member ("return ".toList ++ cs) = readFunction? member cs := by
  unfold readStatement?
  rw [isPrefixOf?_append]
  rfl

/-- What a store calls, whatever stands around it. -/
theorem readStatement?_store (member : Option String) {s : Store}
    (h : Text.isIdentifier s.constant.toList = true) (rest : List Char) :
    readStatement? member (s.render.toList ++ rest)
      = some ⟨member, "assign_buffer", s.constant⟩ := by
  have hfunction : "assign_buffer" ∈ bufferFunctions := List.mem_cons_self
  obtain ⟨more, hmore⟩ : ∃ more, s.render.toList ++ rest
      = "assign_buffer".toList ++ '(' :: (s.constant.toList ++ ',' :: more) := by
    unfold Store.render
    simp only [String.toList_append, List.append_assoc]
    exact ⟨_, rfl⟩
  rw [hmore, readStatement?_function member hfunction,
    readFunction?_call member hfunction (.self _) h (.inl rfl)]

/-- **A store on its own line is the constructor's.** -/
theorem readCall?_store {s : Store} (h : Text.isIdentifier s.constant.toList = true) :
    readCall? ("        " ++ s.render).toList = some ⟨none, "assign_buffer", s.constant⟩ := by
  have hcall := readStatement?_store none h []
  rw [List.append_nil] at hcall
  unfold readCall?
  rw [String.toList_append, isPrefixOf?_append]
  exact hcall

/-! ## Functions that were written -/

/-- Whether a character opens neither parameters nor a body. -/
def isUnopened (c : Char) : Bool := c != '(' && c != '\x7b'

theorem isUnopened_iff {c : Char} : isUnopened c = true ↔ c ≠ '(' ∧ c ≠ '\x7b' := by
  simp [isUnopened]

theorem isUnopened_of_isIdentifierPart {c : Char} (h : Text.isIdentifierPart c = true) :
    isUnopened c = true :=
  isUnopened_iff.2 ⟨Text.ne_of_isIdentifierPart h (by decide),
    Text.ne_of_isIdentifierPart h (by decide)⟩

/-- **A text that declares a name**: the name is its end, and what stands in front is
apart from it and opens nothing. -/
def Declares (text name : String) : Prop :=
  ∃ front, text.toList = front ++ name.toList ∧ (∀ c ∈ front, isUnopened c = true)
    ∧ front.getLast?.any Text.isIdentifierPart = false

namespace Declares

variable {text name : String}

/-- A declaration of an identifier opens nothing. -/
theorem isUnopened (h : Declares text name) (hname : Text.isIdentifier name.toList = true) :
    ∀ c ∈ text.toList, isUnopened c = true := by
  obtain ⟨front, htext, hfront, -⟩ := h
  rw [htext, List.forall_mem_append]
  exact ⟨hfront, fun c hc =>
    isUnopened_of_isIdentifierPart (Text.isIdentifierPart_of_mem hname hc)⟩

/-- The name is found again from the end. -/
theorem rtakeWhile (h : Declares text name) (hname : Text.isIdentifier name.toList = true) :
    text.toList.rtakeWhile Text.isIdentifierPart = name.toList := by
  obtain ⟨front, htext, -, happart⟩ := h
  have hreverse : ∀ c ∈ name.toList.reverse, Text.isIdentifierPart c = true := fun c hc =>
    Text.isIdentifierPart_of_mem hname (List.mem_reverse.1 hc)
  obtain ⟨htake, -⟩ := @takeWhile_append_of_head? _ _ front.reverse hreverse
    fun c hc => by
      rw [List.head?_reverse] at hc
      rwa [hc] at happart
  rw [htext, List.rtakeWhile, List.reverse_append, htake, List.reverse_reverse]

end Declares

/-- The body of a member function is read under the function's name. -/
theorem readCall?_function {signature name : String} (h : Declares signature name)
    (hname : Text.isIdentifier name.toList = true) {parameters : List Char}
    (hparameters : ∀ c ∈ parameters, c ≠ '\x7b') (body : List Char) :
    readCall? ("    inline ".toList
        ++ (signature.toList ++ '(' :: (parameters ++ '\x7b' :: ' ' :: body)))
      = readStatement? (some name) body := by
  have hunopened := h.isUnopened hname
  obtain ⟨htake, -⟩ := takeWhile_append_cons
    (fun c hc => bne_iff_ne.2 (isUnopened_iff.1 (hunopened c hc)).1)
    (by decide : ('(' != '(') = false) (parameters ++ '\x7b' :: ' ' :: body)
  have hsignature : ∀ c ∈ signature.toList ++ '(' :: parameters, (c != '\x7b') = true := by
    rw [List.forall_mem_append, List.forall_mem_cons]
    exact ⟨fun c hc => bne_iff_ne.2 (isUnopened_iff.1 (hunopened c hc)).2, by decide,
      fun c hc => bne_iff_ne.2 (hparameters c hc)⟩
  obtain ⟨-, hdrop⟩ := takeWhile_append_cons hsignature (by decide : ('\x7b' != '\x7b') = false)
    (' ' :: body)
  rw [List.append_assoc, List.cons_append] at hdrop
  have hstatement : ∀ cs, "        ".toList.isPrefixOf? ("    inline ".toList ++ cs) = none :=
    fun _ => rfl
  unfold readCall?
  rw [hstatement, isPrefixOf?_append]
  simp only [Option.bind_eq_bind, Option.bind_some]
  rw [htake, h.rtakeWhile hname, hdrop, String.ofList_toList]
  rfl

/-- A function that returns what it reads is read as a call under its name. -/
theorem readCall?_read {signature name text function constant : String}
    (h : Declares signature name) (hname : Text.isIdentifier name.toList = true)
    (hfunction : function ∈ bufferFunctions) (htext : NamesFunction text function)
    (hconstant : Text.isIdentifier constant.toList = true) :
    readCall? (memberIndent ++ "inline " ++ signature ++ "() const \x7b return " ++ text
        ++ "(" ++ constant ++ "); \x7d").toList
      = some ⟨some name, function, constant⟩ := by
  have hline : (memberIndent ++ "inline " ++ signature ++ "() const \x7b return " ++ text
        ++ "(" ++ constant ++ "); \x7d").toList
      = "    inline ".toList ++ (signature.toList ++ '(' :: (") const ".toList
        ++ '\x7b' :: ' ' :: ("return ".toList
          ++ (text.toList ++ '(' :: (constant.toList ++ ')' :: "; \x7d".toList))))) := by
    simp only [String.toList_append, List.append_assoc]
    rfl
  rw [hline, readCall?_function h hname (Text.forall_mem_of_all rfl), readStatement?_return,
    readFunction?_call _ hfunction htext hconstant (.inr rfl)]

namespace TypeExpr

variable {t : TypeExpr}

/-- The spelling of a type opens nothing as that of its scalar type does not. -/
theorem isUnopened_render (h : ∀ c ∈ t.scalar.toList, isUnopened c = true) :
    ∀ c ∈ t.render.toList, isUnopened c = true := by
  induction t with
  | named => exact h
  | array element length ih =>
    have hlength : ∀ c ∈ length.repr.toList, isUnopened c = true := fun c hc => by
      rw [Nat.toList_repr] at hc
      have hdigit := Nat.isDigit_of_mem_toDigits (by decide) (by decide) hc
      exact isUnopened_of_isIdentifierPart (Text.isIdentifierPart_of_isDigit hdigit)
    unfold render
    simp only [String.toList_append, List.forall_mem_append]
    exact ⟨⟨⟨⟨Text.forall_mem_of_all rfl, ih h⟩, Text.forall_mem_of_all rfl⟩, hlength⟩,
      Text.forall_mem_of_all rfl⟩
  | optional value ih =>
    unfold render
    simp only [String.toList_append, List.forall_mem_append]
    exact ⟨⟨Text.forall_mem_of_all rfl, ih h⟩, Text.forall_mem_of_all rfl⟩
  | constRef target ih =>
    unfold render
    simp only [String.toList_append, List.forall_mem_append]
    exact ⟨⟨Text.forall_mem_of_all rfl, ih h⟩, Text.forall_mem_of_all rfl⟩

theorem declares_declare (h : ∀ c ∈ t.scalar.toList, isUnopened c = true) (name : String) :
    Declares (t.declare name) name := by
  have hrender := isUnopened_render h
  unfold declare
  dsimp only
  split
  · rename_i hlast
    exact ⟨t.render.toList, String.toList_append, hrender, by rw [hlast]; rfl⟩
  · rename_i hlast
    exact ⟨t.render.toList, String.toList_append, hrender, by rw [hlast]; rfl⟩
  · refine ⟨t.render.toList ++ [' '], ?_, ?_, ?_⟩
    · rw [String.toList_append, String.toList_append]
      rfl
    · rw [List.forall_mem_append]
      exact ⟨hrender, Text.forall_mem_of_all rfl⟩
    · rw [List.getLast?_concat]
      rfl

/-- A reference to a type is declared with its mark. -/
theorem declares_reference (h : ∀ c ∈ t.scalar.toList, isUnopened c = true) (name : String) :
    Declares (t.render ++ " &" ++ name) name := by
  refine ⟨t.render.toList ++ " &".toList, ?_, ?_, ?_⟩
  · rw [String.toList_append, String.toList_append]
  · rw [List.forall_mem_append]
    exact ⟨isUnopened_render h, Text.forall_mem_of_all rfl⟩
  · rw [List.getLast?_append]
    rfl

/-- The function that reads a value is named with the type of the value. -/
theorem namesFunction_buffer_at (h : ∀ c ∈ t.scalar.toList, isUnopened c = true) :
    NamesFunction ("buffer_at<" ++ t.render ++ ">") "buffer_at" := by
  refine ⟨'<' :: (t.render.toList ++ ">".toList), ?_, ?_, forall_head?_cons (by decide) _⟩
  · rw [String.toList_append, String.toList_append, List.append_assoc]
    rfl
  · rw [List.forall_mem_cons, List.forall_mem_append]
    exact ⟨by decide, fun c hc => (isUnopened_iff.1 (isUnopened_render h c hc)).1,
      Text.forall_mem_of_all rfl⟩

end TypeExpr

namespace Field

variable {f : Field}

/-- The spellings of types open nothing. -/
theorem isUnopened_scalar (h : f.WellFormed) :
    (∀ c ∈ f.parameterType.scalar.toList, isUnopened c = true)
      ∧ ∀ c ∈ f.resultType.scalar.toList, isUnopened c = true := by
  have hspelling : ∀ t ∈ ScalarType.catalog,
      (t.parameterForm.toList.all isUnopened && t.resultForm.toList.all isUnopened) = true := by
    decide +kernel
  obtain ⟨hparameter, hresult⟩ := Bool.and_eq_true_iff.1 (hspelling f.type h.type)
  rw [List.all_eq_true] at hparameter hresult
  refine ⟨f.scalar_parameterType ▸ hparameter, ?_⟩
  rcases f.scalar_resultType with heq | heq
  · exact heq ▸ hparameter
  · exact heq ▸ hresult

/-- The function that the getter of a field calls. -/
def bufferFunction (f : Field) : String :=
  match f.shape with
  | .string _ => "buffer_at_str"
  | .cString _ => "buffer_at_cstr"
  | _ => "buffer_at"

/-- **A getter reads the place of its field.** -/
theorem readCall?_getter (h : f.WellFormed) :
    readCall? f.getter.render.toList
      = some ⟨some f.name, f.bufferFunction, offsetConstant f.name⟩ := by
  have hscalar := (isUnopened_scalar h).2
  have hconstant := isIdentifier_offsetConstant h.name
  -- text is declared with its type and read by a function of its own, any other value is
  -- read as one of its type and given out by reference
  have htext := TypeExpr.declares_declare hscalar f.name
  have hvalue := TypeExpr.declares_reference hscalar f.name
  have hread := TypeExpr.namesFunction_buffer_at hscalar
  unfold bufferFunction getter Getter.render
  cases f.shape with
  | string =>
    have hfunction : "buffer_at_str" ∈ bufferFunctions := by decide
    exact readCall?_read htext h.name hfunction (.self _) hconstant
  | cString =>
    have hfunction : "buffer_at_cstr" ∈ bufferFunctions := by decide
    exact readCall?_read htext h.name hfunction (.self _) hconstant
  | scalar | array | optional =>
    have hfunction : "buffer_at" ∈ bufferFunctions := by decide
    exact readCall?_read hvalue h.name hfunction hread hconstant

/-- **A setter stores in the place of its field.** -/
theorem readCall?_setter (h : f.WellFormed) :
    readCall? f.setter.render.toList
      = some ⟨some f.name, "assign_buffer", offsetConstant f.name⟩ := by
  have hsignature : Declares ("void " ++ f.name) f.name :=
    ⟨"void ".toList, String.toList_append, Text.forall_mem_of_all rfl, rfl⟩
  have hparameter : ∀ c ∈ f.parameter.render.toList ++ ") ".toList, c ≠ '\x7b' := by
    have hdeclare := TypeExpr.declares_declare (isUnopened_scalar h).1 f.name
    rw [List.forall_mem_append]
    exact ⟨fun c hc => (isUnopened_iff.1 (hdeclare.isUnopened h.name c hc)).2,
      Text.forall_mem_of_all rfl⟩
  have hline : f.setter.render.toList = "    inline ".toList
      ++ (("void " ++ f.name).toList ++ '(' :: (f.parameter.render.toList ++ ") ".toList
        ++ '\x7b' :: ' ' :: (f.store.render.toList ++ " \x7d".toList))) := by
    unfold Setter.render
    simp only [String.toList_append, List.append_assoc]
    rfl
  have hconstant : Text.isIdentifier f.store.constant.toList = true :=
    f.constant_store ▸ isIdentifier_offsetConstant h.name
  rw [hline, readCall?_function hsignature h.name hparameter, readStatement?_store _ hconstant,
    constant_store]

end Field

/-! ## Other lines -/

/-- A line that tells a place makes no call. -/
theorem readCall?_of_readPlace? {line : List Char} {place : Place}
    (h : readPlace? line = some place) : readCall? line = none := by
  unfold readPlace? at h
  obtain ⟨constant, hprefix, -⟩ := Option.bind_eq_some_iff.1 h
  obtain rfl := List.isPrefixOf?_eq_some_iff_append_eq.1 hprefix
  rfl

/-- A line that makes a call tells no place. -/
theorem readPlace?_of_readCall? {line : List Char} {call : BufferCall}
    (h : readCall? line = some call) : readPlace? line = none := by
  rw [Option.eq_none_iff_forall_ne_some]
  intro place hplace
  rw [readCall?_of_readPlace? hplace] at h
  cases h

/-- A line that does not begin with a space tells nothing. -/
theorem readLine_cons {c : Char} (hc : c ≠ ' ') (cs : List Char) :
    readPlace? (c :: cs) = none ∧ readCall? (c :: cs) = none := by
  have hindent : ∀ more : List Char, (' ' :: more).isPrefixOf? (c :: cs) = none := fun more => by
    rw [List.isPrefixOf?, if_neg (by simpa using Ne.symm hc)]
  constructor
  · unfold readPlace?
    rw [show "    static constexpr size_t offset_".toList
      = ' ' :: "   static constexpr size_t offset_".toList from rfl, hindent]
    rfl
  · unfold readCall?
    rw [show "        ".toList = ' ' :: "       ".toList from rfl, hindent,
      show "    inline ".toList = ' ' :: "   inline ".toList from rfl, hindent]
    rfl

/-- A member that begins with a name does not begin with another word. -/
theorem isPrefixOf?_member {name word : List Char} (hname : Text.isIdentifier name = true)
    (hword : ∀ c ∈ word, Text.isIdentifierPart c = true) (hne : name ≠ word) {c d : Char}
    (hc : Text.isIdentifierPart c = false) (hd : Text.isIdentifierPart d = false)
    (rest more : List Char) :
    ("    ".toList ++ (word ++ c :: rest)).isPrefixOf? ("    ".toList ++ (name ++ d :: more))
      = none := by
  cases hprefix : ("    ".toList ++ (word ++ c :: rest)).isPrefixOf?
      ("    ".toList ++ (name ++ d :: more)) with
  | none => rfl
  | some after =>
    have heq := List.isPrefixOf?_eq_some_iff_append_eq.1 hprefix
    rw [List.append_assoc, List.append_assoc, List.cons_append] at heq
    have htake := congrArg (List.takeWhile Text.isIdentifierPart) (List.append_cancel_left heq)
    rw [(takeWhile_append_cons hword hc _).1,
      (takeWhile_append_cons (fun c hc => Text.isIdentifierPart_of_mem hname hc) hd _).1] at htake
    exact absurd htake.symm hne

/-- A member that begins with a name tells nothing, unless that is a word that tells
otherwise. -/
theorem readLine_member {name : List Char} (h : Text.isIdentifier name = true)
    (hstatic : name ≠ "static".toList) (hinline : name ≠ "inline".toList) {d : Char}
    (hd : Text.isIdentifierPart d = false) (more : List Char) :
    readPlace? ("    ".toList ++ (name ++ d :: more)) = none
      ∧ readCall? ("    ".toList ++ (name ++ d :: more)) = none := by
  have hempty : name ≠ [] := by
    rintro rfl
    cases h
  have hspace : Text.isIdentifierPart ' ' = false := by decide
  have hconstant : "    static constexpr size_t offset_".toList.isPrefixOf?
      ("    ".toList ++ (name ++ d :: more)) = none :=
    isPrefixOf?_member h (Text.forall_mem_of_all rfl) hstatic hspace hd
      "constexpr size_t offset_".toList more
  have hstatement : "        ".toList.isPrefixOf? ("    ".toList ++ (name ++ d :: more)) = none :=
    isPrefixOf?_member h (Text.forall_mem_of_all rfl) hempty hspace hd "   ".toList more
  have hfunction : "    inline ".toList.isPrefixOf? ("    ".toList ++ (name ++ d :: more)) = none :=
    isPrefixOf?_member h (Text.forall_mem_of_all rfl) hinline hspace hd [] more
  constructor
  · unfold readPlace?
    rw [hconstant]
    rfl
  · unfold readCall?
    rw [hstatement, hfunction]
    rfl

/-- The lines of a comment block begin with a star. -/
theorem exists_docLine (indent text : String) :
    ∃ more, (docLine indent text).toList = indent.toList ++ " *".toList ++ more := by
  have hline : (indent ++ " * " ++ text).toList
      = (indent.toList ++ [' ']) ++ '*' :: (' ' :: text.toList) := by
    simp only [String.toList_append, List.append_assoc]
    rfl
  refine ⟨Text.trimEnd (' ' :: text.toList), ?_⟩
  rw [docLine, String.toList_ofList, hline, Text.trimEnd_append_cons (by decide)]
  simp only [List.append_assoc]
  rfl

end FlatRecord
