import FlatRecord.Text.CodeRange

/-!
# Identifiers

The identifiers of C++: ASCII letters, digits and the underscore, with the
extended characters of the basic plane that the standard allows. A digit and a
combining character may not come first; apart from that the two classes agree,
so the second one is stated as the first with these added.
-/

namespace FlatRecord.Text

/-- The extended characters that may stand anywhere in an identifier. -/
def extendedTable : List CodeRange :=
  [⟨0xA8, 0xA8⟩, ⟨0xAA, 0xAA⟩, ⟨0xAD, 0xAD⟩, ⟨0xAF, 0xAF⟩, ⟨0xB2, 0xB5⟩,
   ⟨0xB7, 0xBA⟩, ⟨0xBC, 0xBE⟩, ⟨0xC0, 0xD6⟩, ⟨0xD8, 0xF6⟩, ⟨0xF8, 0x2FF⟩,
   ⟨0x370, 0x167F⟩, ⟨0x1681, 0x180D⟩, ⟨0x180F, 0x1DBF⟩, ⟨0x1E00, 0x1FFF⟩,
   ⟨0x200B, 0x200D⟩, ⟨0x202A, 0x202E⟩, ⟨0x203F, 0x2040⟩, ⟨0x2054, 0x2054⟩,
   ⟨0x2060, 0x20CF⟩, ⟨0x2100, 0x218F⟩, ⟨0x2460, 0x24FF⟩, ⟨0x2776, 0x2793⟩,
   ⟨0x2C00, 0x2DFF⟩, ⟨0x2E80, 0x2FFF⟩, ⟨0x3004, 0x3007⟩, ⟨0x3021, 0x302F⟩,
   ⟨0x3031, 0xD7FF⟩, ⟨0xF900, 0xFD3D⟩, ⟨0xFD40, 0xFDCF⟩, ⟨0xFDF0, 0xFE1F⟩,
   ⟨0xFE30, 0xFE44⟩, ⟨0xFE47, 0xFFFD⟩]

/-- The combining characters, which may stand anywhere but first. -/
def combiningTable : List CodeRange :=
  [⟨0x300, 0x36F⟩, ⟨0x1DC0, 0x1DFF⟩, ⟨0x20D0, 0x20FF⟩, ⟨0xFE20, 0xFE2F⟩]

/-- Whether a character may begin an identifier. -/
def isIdentifierStart (c : Char) : Bool :=
  c.isAlpha || c == '_' || inRanges extendedTable c

/-- Whether a character may follow in an identifier. -/
def isIdentifierPart (c : Char) : Bool :=
  isIdentifierStart c || c.isDigit || inRanges combiningTable c

/-- Whether a text is an identifier; the empty text is not. -/
def isIdentifier : List Char → Bool
  | [] => false
  | c :: cs => isIdentifierStart c && cs.all isIdentifierPart

theorem isIdentifierPart_of_start {c : Char} (h : isIdentifierStart c = true) :
    isIdentifierPart c = true := by
  simp [isIdentifierPart, h]

theorem isIdentifier_ne_nil {cs : List Char} (h : isIdentifier cs = true) : cs ≠ [] := by
  rintro rfl
  simp [isIdentifier] at h

/-- Every character of an identifier is one that may follow in it. -/
theorem isIdentifierPart_of_mem {cs : List Char} (h : isIdentifier cs = true) {c : Char}
    (hc : c ∈ cs) : isIdentifierPart c = true := by
  cases cs with
  | nil => simp at hc
  | cons d ds =>
    simp only [isIdentifier, Bool.and_eq_true, List.all_eq_true] at h
    rcases List.mem_cons.1 hc with rfl | hc
    · exact isIdentifierPart_of_start h.1
    · exact h.2 c hc

/-- An identifier has none of the other characters. -/
theorem ne_of_isIdentifierPart {c d : Char} (hc : isIdentifierPart c = true)
    (hd : isIdentifierPart d = false) : c ≠ d := by
  rintro rfl
  rw [hc] at hd
  cases hd

theorem not_mem_of_isIdentifier {cs : List Char} (h : isIdentifier cs = true) {c : Char}
    (hc : isIdentifierPart c = false) : c ∉ cs := fun hmem =>
  ne_of_isIdentifierPart (isIdentifierPart_of_mem h hmem) hc rfl

/-- What begins with an identifier begins with none of them. -/
theorem head?_ne_of_isIdentifier {cs : List Char} (h : isIdentifier cs = true) {c : Char}
    (hc : isIdentifierPart c = false) (more : List Char) : (cs ++ more).head? ≠ some c := by
  cases cs with
  | nil => cases h
  | cons d ds => exact fun heq =>
      ne_of_isIdentifierPart (isIdentifierPart_of_mem h List.mem_cons_self) hc (Option.some.inj heq)

end FlatRecord.Text
