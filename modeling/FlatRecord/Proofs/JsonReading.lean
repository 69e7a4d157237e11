import FlatRecord.Layout.Json
import FlatRecord.Proofs.Comments

/-!
# Reading JSON

A text is read as JSON in two passes. The first cuts it into tokens, one character
after the other (`Json.Lexer`), and the second makes values of the tokens, however deep
they lie in one another (`Json.readValue`). Both are strict: a number begins with a zero
only when it is zero, control characters in a text are escaped, and there is one comma
between two items and none behind the last. Of the values of JSON those are left out that
nothing here prints, which are the literal names and numbers with signs or fractions.

The tokens of values, one behind the other, are read as these values
(`Json.readValue_flatMap_tokens`). And a text that is printed in lines is cut into
tokens line by line (`Json.Lexed`), at whatever depth the lines stand.
-/

namespace FlatRecord

/-- **A value of JSON.** -/
inductive Json where
  /-- A text. -/
  | text (s : String)
  /-- A number. -/
  | number (n : Nat)
  /-- An array of values. -/
  | array (items : List Json)
  /-- An object, whose members have a key and a value. -/
  | object (members : List (String × Json))

namespace Json

/-- What a text of JSON is made of. -/
inductive Token where
  /-- A comma. -/
  | comma
  /-- A colon. -/
  | colon
  /-- The bracket before the items of an array. -/
  | opensArray
  /-- The bracket behind them. -/
  | closesArray
  /-- The brace before the members of an object. -/
  | opensObject
  /-- The brace behind them. -/
  | closesObject
  /-- A text. -/
  | text (s : String)
  /-- A number. -/
  | number (n : Nat)
deriving DecidableEq

/-! ## Tokens -/

/-- The token of one character. -/
def Token.ofChar? : Char → Option Token
  | ',' => some .comma
  | ':' => some .colon
  | '[' => some .opensArray
  | ']' => some .closesArray
  | '\x7b' => some .opensObject
  | '\x7d' => some .closesObject
  | _ => none

/-- The characters that may stand between tokens. -/
def isSpace (c : Char) : Bool := c == ' ' || c == '\n' || c == '\r' || c == '\t'

/-- The character that an escape of one letter stands for. -/
def unescape? : Char → Option Char
  | '"' => some '"'
  | '\\' => some '\\'
  | '/' => some '/'
  | 'b' => some '\x08'
  | 'f' => some '\x0c'
  | 'n' => some '\n'
  | 'r' => some '\r'
  | 't' => some '\t'
  | _ => none

/-- The value of a hexadecimal digit. -/
def hexValue? (c : Char) : Option Nat := "0123456789abcdef".toList.idxOf? c.toLower

/-- The character of a number, which may not be that of a surrogate. -/
def charOf? (n : Nat) : Option Char := if n.isValidChar then some (.ofNat n) else none

/-- How far a token has been read. -/
inductive Lexer where
  /-- No token has begun. -/
  | between
  /-- The digits of a number, which may go on. -/
  | number (n : Nat)
  /-- A text, behind its first quote. -/
  | text (read : List Char)
  /-- A text, behind a backslash. -/
  | escape (read : List Char)
  /-- A text, behind the beginning of a character's number; so many digits are missing. -/
  | code (read : List Char) (missing value : Nat)
deriving DecidableEq

namespace Lexer

/-- Reads a character that no token goes on with. -/
def start (c : Char) : Option (List Token × Lexer) :=
  if isSpace c then some ([], between)
  else if c = '"' then some ([], text [])
  else if c.isDigit then some ([], number (c.toNat - '0'.toNat))
  else do return ([← Token.ofChar? c], between)

/-- Reads a character, and tells the tokens that have ended. -/
def step : Lexer → Char → Option (List Token × Lexer)
  | between, c => start c
  | number n, c =>
    if c.isDigit then
      if n = 0 then none else some ([], number (10 * n + (c.toNat - '0'.toNat)))
    else do
      let (tokens, lexer) ← start c
      return (.number n :: tokens, lexer)
  | text read, c =>
    if c = '"' then some ([.text (String.ofList read)], between)
    else if c = '\\' then some ([], escape read)
    else if c.toNat < 0x20 then none
    else some ([], text (read ++ [c]))
  | escape read, c =>
    if c = 'u' then some ([], code read 4 0)
    else do return ([], text (read ++ [← unescape? c]))
  | code read missing value, c => do
    let value := 16 * value + (← hexValue? c)
    if 1 < missing then return ([], code read (missing - 1) value)
    else return ([], text (read ++ [← charOf? value]))

/-- Reads characters one after the other. -/
def run (lexer : Lexer) : List Char → Option (List Token × Lexer)
  | [] => some ([], lexer)
  | c :: rest => do
    let (tokens, lexer) ← lexer.step c
    let (more, lexer) ← lexer.run rest
    return (tokens ++ more, lexer)

/-- The tokens of a text. A number may go on to its end. -/
def tokens? (cs : List Char) : Option (List Token) := do
  match ← run between cs with
  | (tokens, between) => return tokens
  | (tokens, number n) => return tokens ++ [.number n]
  | _ => none

end Lexer

/-! ## Values -/

/-- What is around the place where a value is read, and has been read already. -/
inductive Around where
  /-- The value stands for itself, behind others. -/
  | outside (values : List Json)
  /-- The value is in an array. -/
  | array (items : List Json) (around : Around)
  /-- The value is that of a key in an object. -/
  | object (members : List (String × Json)) (key : String) (around : Around)

mutual

/-- Reads a value and what comes behind it. Outside of all values there need be none. -/
def readValue (around : Around) (tokens : List Token) : Option (List Json) :=
  match around, tokens with
  | .outside values, [] => some values
  | around, .text s :: rest => readNext around (.text s) rest
  | around, .number n :: rest => readNext around (.number n) rest
  | around, .opensArray :: .closesArray :: rest => readNext around (.array []) rest
  | around, .opensArray :: rest => readValue (.array [] around) rest
  | around, .opensObject :: .closesObject :: rest => readNext around (.object []) rest
  | around, .opensObject :: .text key :: .colon :: rest => readValue (.object [] key around) rest
  | _, _ => none
termination_by (tokens.length, 0)

/-- Reads what comes behind a value. -/
def readNext (around : Around) (v : Json) (tokens : List Token) : Option (List Json) :=
  match around, tokens with
  | .outside values, rest => readValue (.outside (values ++ [v])) rest
  | .array items around, .comma :: rest => readValue (.array (items ++ [v]) around) rest
  | .array items around, .closesArray :: rest => readNext around (.array (items ++ [v])) rest
  | .object members key around, .comma :: .text next :: .colon :: rest =>
    readValue (.object (members ++ [(key, v)]) next around) rest
  | .object members key around, .closesObject :: rest =>
    readNext around (.object (members ++ [(key, v)])) rest
  | _, _ => none
termination_by (tokens.length, 1)

end

/-- **The values that a text holds**, one behind the other. -/
def readAll? (text : String) : Option (List Json) := do
  readValue (.outside []) (← Lexer.tokens? text.toList)

mutual

/-- The tokens of a value. -/
def tokens : Json → List Token
  | .text s => [.text s]
  | .number n => [.number n]
  | .array [] => [.opensArray, .closesArray]
  | .array (v :: rest) => .opensArray :: (v.tokens ++ moreItems rest)
  | .object [] => [.opensObject, .closesObject]
  | .object ((key, v) :: rest) =>
    .opensObject :: .text key :: .colon :: (v.tokens ++ moreMembers rest)

/-- The tokens of the items behind another, to the end of their array. -/
def moreItems : List Json → List Token
  | [] => [.closesArray]
  | v :: rest => .comma :: (v.tokens ++ moreItems rest)

/-- The tokens of the members behind another, to the end of their object. -/
def moreMembers : List (String × Json) → List Token
  | [] => [.closesObject]
  | (key, v) :: rest => .comma :: .text key :: .colon :: (v.tokens ++ moreMembers rest)

end

/-! ## Reading the tokens of values -/

/-- A bracket that is not closed again begins an item. -/
theorem readValue_opensArray {rest : List Token} (h : ∀ more, rest ≠ .closesArray :: more)
    (around : Around) :
    readValue around (.opensArray :: rest) = readValue (.array [] around) rest := by
  cases around <;> rw [readValue] <;> exact h

/-- No value begins with a closing bracket. -/
theorem tokens_append_ne (v : Json) (rest more : List Token) :
    v.tokens ++ rest ≠ .closesArray :: more := by
  rcases v with s | n | (_ | ⟨v, items⟩) | (_ | ⟨⟨key, v⟩, members⟩) <;> exact nofun

mutual

/-- **The tokens of a value are read as the value**, wherever it stands. -/
theorem readValue_tokens (v : Json) (around : Around) (rest : List Token) :
    readValue around (v.tokens ++ rest) = readNext around v rest := by
  match v with
  | .text s => rw [tokens, List.singleton_append, readValue]
  | .number n => rw [tokens, List.singleton_append, readValue]
  | .array [] => rw [tokens, List.cons_append, List.singleton_append, readValue]
  | .array (v :: items) =>
    have hmore := readNext_moreItems items [] v around rest
    rw [tokens, List.cons_append, List.append_assoc, readValue_opensArray (tokens_append_ne v _),
      readValue_tokens v, hmore]
    rfl
  | .object [] => rw [tokens, List.cons_append, List.singleton_append, readValue]
  | .object ((key, v) :: members) =>
    have hmore := readNext_moreMembers members [] key v around rest
    rw [tokens, List.cons_append, List.cons_append, List.cons_append, List.append_assoc,
      readValue, readValue_tokens v, hmore]
    rfl

/-- Behind an item come the others, with those before it in hand. -/
theorem readNext_moreItems (more items : List Json) (v : Json) (around : Around)
    (rest : List Token) :
    readNext (.array items around) v (moreItems more ++ rest)
      = readNext around (.array (items ++ v :: more)) rest := by
  match more with
  | [] => rw [moreItems, List.singleton_append, readNext]
  | w :: more =>
    rw [moreItems, List.cons_append, List.append_assoc, readNext, readValue_tokens w,
      readNext_moreItems more, List.append_assoc]
    rfl

/-- Behind a member come the others, with those before it in hand. -/
theorem readNext_moreMembers (more members : List (String × Json)) (key : String) (v : Json)
    (around : Around) (rest : List Token) :
    readNext (.object members key around) v (moreMembers more ++ rest)
      = readNext around (.object (members ++ (key, v) :: more)) rest := by
  match more with
  | [] => rw [moreMembers, List.singleton_append, readNext]
  | (next, w) :: more =>
    rw [moreMembers, List.cons_append, List.cons_append, List.cons_append, List.append_assoc,
      readNext, readValue_tokens w, readNext_moreMembers more, List.append_assoc]
    rfl

end

/-- **The tokens of values, one behind the other, are read as the values.** -/
theorem readValue_flatMap_tokens (vs values : List Json) :
    readValue (.outside values) (vs.flatMap tokens) = some (values ++ vs) := by
  induction vs generalizing values with
  | nil => rw [List.flatMap_nil, readValue, List.append_nil]
  | cons v vs ih =>
    rw [List.flatMap_cons, readValue_tokens, readNext, ih, List.append_assoc]
    rfl

/-- An array and an object; no comma may stand behind the last item. -/
example : readAll? "[1, \"\\u00e4\"]\n\x7b\x7d" = some [.array [.number 1, .text "ä"], .object []]
    ∧ readAll? "[1,]" = none := by
  constructor <;> cbv

/-! ## Cutting text into tokens -/

namespace Lexer

/-- **What a lexer makes of characters**: the tokens that end in them, and how far it has
come behind them. -/
def Reads (lexer : Lexer) (cs : List Char) (tokens : List Token) (lexer' : Lexer) : Prop :=
  lexer.run cs = some (tokens, lexer')

variable {lexer lexer' lexer'' : Lexer} {cs cs' : List Char} {tokens tokens' : List Token}

theorem Reads.cons {c : Char} (h : lexer.step c = some (tokens, lexer'))
    (hrest : Reads lexer' cs tokens' lexer'') :
    Reads lexer (c :: cs) (tokens ++ tokens') lexer'' := by
  unfold Reads run
  rw [h]
  show (run lexer' cs >>= _) = _
  rw [hrest]
  rfl

theorem Reads.append (h : Reads lexer cs tokens lexer') (h' : Reads lexer' cs' tokens' lexer'') :
    Reads lexer (cs ++ cs') (tokens ++ tokens') lexer'' := by
  induction cs generalizing lexer tokens with
  | nil =>
    cases h
    exact h'
  | cons c cs ih =>
    obtain ⟨⟨first, next⟩, hstep, h⟩ := Option.bind_eq_some_iff.1 h
    obtain ⟨⟨more, last⟩, hrun, hmore⟩ := Option.bind_eq_some_iff.1 h
    cases hmore
    rw [List.append_assoc]
    exact .cons hstep (ih hrun)

/-- A character at which no token ends. -/
theorem Reads.skip {c : Char} (h : lexer.step c = some ([], lexer'))
    (hrest : Reads lexer' cs tokens lexer'') : Reads lexer (c :: cs) tokens lexer'' :=
  .cons h hrest

/-- Characters in which no token ends. -/
theorem Reads.before (h : Reads lexer cs [] lexer') (h' : Reads lexer' cs' tokens lexer'') :
    Reads lexer (cs ++ cs') tokens lexer'' :=
  h.append h'

theorem Reads.exists_of_append (h : Reads lexer (cs ++ cs') tokens lexer'') :
    ∃ first lexer' more, Reads lexer cs first lexer' ∧ Reads lexer' cs' more lexer''
      ∧ tokens = first ++ more := by
  induction cs generalizing lexer tokens with
  | nil => exact ⟨[], lexer, tokens, rfl, h, rfl⟩
  | cons c cs ih =>
    obtain ⟨⟨ended, next⟩, hstep, h⟩ := Option.bind_eq_some_iff.1 h
    obtain ⟨⟨later, last⟩, hrun, hlater⟩ := Option.bind_eq_some_iff.1 h
    cases hlater
    obtain ⟨first, lexer', more, hfirst, hmore, rfl⟩ := ih hrun
    exact ⟨_, lexer', more, .cons hstep hfirst, hmore, (List.append_assoc ..).symm⟩

/-! ### Texts and numbers -/

theorem hexValue?_digitChar {n : Nat} (h : n < 16) : hexValue? (Nat.digitChar n) = some n := by
  revert n
  decide

theorem charOf?_toNat (c : Char) : charOf? c.toNat = some c := by
  unfold charOf?
  rw [if_pos (show c.toNat.isValidChar from c.valid), Char.ofNat_toNat]

theorem step_code_of_lt {c : Char} {digit missing : Nat} (h : hexValue? c = some digit)
    (hmissing : 1 < missing) (read : List Char) (value : Nat) :
    (code read missing value).step c = some ([], code read (missing - 1) (16 * value + digit)) := by
  simp only [step, h, Option.bind_eq_bind, Option.bind_some, if_pos hmissing]
  rfl

/-- The number of a control character is read as the character. -/
theorem reads_hexEscape (read : List Char) {c : Char} (h : c.toNat < 0x20) :
    Reads (text read) (Text.hexEscape c) [] (text (read ++ [c])) := by
  have hzero : hexValue? '0' = some 0 := by decide
  have hhigh : hexValue? (Nat.digitChar (c.toNat / 16)) = some (c.toNat / 16) :=
    hexValue?_digitChar (by omega)
  have hlow : hexValue? (Nat.digitChar (c.toNat % 16)) = some (c.toNat % 16) :=
    hexValue?_digitChar (by omega)
  have hbegun : Reads (text read) ['\\', 'u'] [] (code read 4 0) := rfl
  have hfirst : (code read 4 0).step '0' = some ([], code read 3 0) :=
    step_code_of_lt hzero (by decide) read 0
  have hsecond : (code read 3 0).step '0' = some ([], code read 2 0) :=
    step_code_of_lt hzero (by decide) read 0
  have hthird : (code read 2 0).step (Nat.digitChar (c.toNat / 16))
      = some ([], code read 1 (16 * 0 + c.toNat / 16)) :=
    step_code_of_lt hhigh (by decide) read 0
  have hlast : (code read 1 (16 * 0 + c.toNat / 16)).step (Nat.digitChar (c.toNat % 16))
      = some ([], text (read ++ [c])) := by
    simp only [step, hlow, Nat.mul_zero, Nat.zero_add, Nat.div_add_mod, charOf?_toNat,
      Option.bind_eq_bind, Option.bind_some]
    rfl
  exact hbegun.before (.skip hfirst (.skip hsecond (.skip hthird (.skip hlast rfl))))

/-- A character that was escaped is read as itself. -/
theorem reads_escape (read : List Char) (c : Char) :
    Reads (text read) (Text.escape c) [] (text (read ++ [c])) := by
  unfold Text.escape
  iterate 7
    split
    · subst_vars
      rfl
  split
  · rename_i hcontrol
    exact reads_hexEscape read hcontrol
  · rename_i hquote hbackslash _ _ _ _ _ hcontrol
    refine .skip ?_ rfl
    simp only [step, if_neg hquote, if_neg hbackslash, if_neg hcontrol]

theorem reads_quoteChars (cs : List Char) :
    Reads between (Text.quoteChars cs) [.text (String.ofList cs)] between := by
  have hbody : ∀ read, Reads (text read) (cs.flatMap Text.escape) [] (text (read ++ cs)) := by
    induction cs with
    | nil =>
      intro read
      rw [List.append_nil]
      rfl
    | cons c cs ih =>
      intro read
      rw [List.flatMap_cons, List.append_cons]
      exact (reads_escape read c).append (ih (read ++ [c]))
  exact .skip rfl ((hbody []).before rfl)

/-- A decimal digit is one, and no other token begins with it. -/
theorem start_digitChar {n : Nat} (h : n < 10) :
    start (Nat.digitChar n) = some ([], number n) := by
  revert n
  decide

theorem step_number_digitChar {n digit : Nat} (hn : n ≠ 0) (h : digit < 10) :
    (number n).step (Nat.digitChar digit) = some ([], number (10 * n + digit)) := by
  have hdigit : (Nat.digitChar digit).isDigit = true := by
    rw [Nat.isDigit_digitChar, decide_eq_true h]
  have hvalue : (Nat.digitChar digit).toNat - '0'.toNat = digit :=
    Nat.toNat_digitChar_sub_48_of_lt_ten h
  simp only [step, if_pos hdigit, if_neg hn, hvalue]

/-- A number is read from its digits, and could go on. -/
theorem reads_repr (n : Nat) : Reads between n.repr.toList [] (number n) := by
  rw [Nat.toList_repr]
  induction n using Nat.strongRecOn with
  | ind n ih =>
    by_cases h : n < 10
    · rw [Nat.toDigits_of_lt_base h]
      exact .skip (start_digitChar h) rfl
    · rw [Nat.toDigits_of_base_le (by decide) (by omega)]
      have hlast := step_number_digitChar (n := n / 10) (by omega) (n.mod_lt (by decide : 0 < 10))
      rw [Nat.div_add_mod] at hlast
      exact (ih (n / 10) (by omega)).before (.skip hlast rfl)

end Lexer

/-! ## Lines -/

theorem Lexer.reads_indent : between.Reads "  ".toList [] between := rfl

/-- **Lines and their tokens.** Every line is read on its own. -/
inductive Lexed : List String → List Token → Prop where
  /-- No lines have no tokens. -/
  | nil : Lexed [] []
  /-- A line has its tokens before those of the others. -/
  | cons {line : String} {rest : List String} {tokens more : List Token}
      (h : Lexer.between.Reads (line.toList ++ ['\n']) tokens .between)
      (hrest : Lexed rest more) : Lexed (line :: rest) (tokens ++ more)

section

variable {lines lines' : List String} {tokens tokens' : List Token}

theorem Lexed.append (h : Lexed lines tokens) (h' : Lexed lines' tokens') :
    Lexed (lines ++ lines') (tokens ++ tokens') := by
  induction h with
  | nil => exact h'
  | cons h _ ih =>
    rw [List.append_assoc]
    exact .cons h ih

theorem Lexed.single {line : String}
    (h : Lexer.between.Reads (line.toList ++ ['\n']) tokens .between) : Lexed [line] tokens := by
  rw [← List.append_nil tokens]
  exact .cons h .nil

theorem Lexed.reads (h : Lexed lines tokens) :
    Lexer.between.Reads (textOf lines) tokens .between := by
  induction h with
  | nil => rfl
  | cons h _ ih => exact h.append ih

/-- The text of the lines has these tokens. -/
theorem Lexed.tokens? (h : Lexed lines tokens) : Lexer.tokens? (textOf lines) = some tokens := by
  unfold Lexer.tokens?
  rw [h.reads]
  rfl

/-- The depth of lines is nothing to their tokens. -/
theorem Lexed.deeper (h : Lexed lines tokens) : Lexed (deeper lines) tokens := by
  induction h with
  | nil => exact .nil
  | @cons line _ tokens _ h _ ih =>
    refine .cons ?_ ih
    rw [String.toList_append, List.append_assoc]
    exact Lexer.reads_indent.before h

/-- Where a line can end a comma can stand. -/
theorem Lexer.Reads.comma {cs : List Char} (h : between.Reads (cs ++ ['\n']) tokens between) :
    between.Reads (cs ++ [',', '\n']) (tokens ++ [.comma]) between := by
  obtain ⟨first, lexer, more, hcs, hend, rfl⟩ := h.exists_of_append
  cases lexer with
  | between =>
    cases hend
    rw [List.append_assoc]
    exact hcs.append rfl
  | number n =>
    cases hend
    rw [List.append_assoc]
    exact hcs.append rfl
  | text read => cases hend
  | escape read => cases hend
  | code read missing value => cases hend

/-- Lines whose last one gets a comma have a comma behind their tokens. -/
theorem Lexed.comma (h : Lexed lines tokens) (hne : lines ≠ []) :
    Lexed (lines.dropLast ++ lines.getLast?.toList.map (· ++ ",")) (tokens ++ [.comma]) := by
  induction h with
  | nil => exact absurd rfl hne
  | @cons line rest tokens more h hrest ih =>
    cases rest with
    | nil =>
      cases hrest
      refine .single ?_
      rw [List.append_nil, String.toList_append, List.append_assoc]
      exact h.comma
    | cons next rest =>
      rw [List.append_assoc]
      exact .cons h (ih (List.cons_ne_nil _ _))

theorem moreItems_eq (vs : List Json) :
    moreItems vs = vs.flatMap (fun v => .comma :: v.tokens) ++ [.closesArray] := by
  induction vs with
  | nil => rfl
  | cons v vs ih =>
    rw [moreItems, ih, List.flatMap_cons, List.append_assoc]
    rfl

/-- **Items with commas between them** have the tokens of their values, with commas
between them. -/
theorem Lexed.separated {item : List String} {items : List (List String)} {v : Json}
    {vs : List Json} (h : Lexed item v.tokens)
    (hitems : List.Forall₂ (fun item v => item ≠ [] ∧ Lexed item (Json.tokens v)) items vs)
    (hne : item ≠ []) :
    Lexed (separated (item :: items)) (v.tokens ++ vs.flatMap fun v => .comma :: v.tokens) := by
  induction hitems generalizing item v with
  | nil =>
    rw [List.flatMap_nil, List.append_nil]
    exact h
  | @cons next w items vs hnext _ ih =>
    have hrest := ih hnext.2 hnext.1
    rw [List.flatMap_cons, List.cons_append, List.append_cons]
    exact (h.comma hne).append hrest

end

end Json

end FlatRecord
