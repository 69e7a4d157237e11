import FlatRecord.TypeToken
import Mathlib.Data.String.Basic

/-!
# Type tokens by a cursor in bytes

A text is stored as bytes, and a character of it takes one to four of them. A reader
that keeps its place as a number of bytes cuts the text at that place again and again,
and a cut inside a character is no text at all. Here type tokens are read that way:
a cursor stands at a byte of the token (`Cursor.Move`), looks at what stands behind,
and moves on; a cut inside a character is the outcome `none`.

`TypeToken.readByCursor_eq` is that such a cut never happens, whatever the characters of
the token, and that the reading is the one that takes characters off a list. It is
proved move by move: `Cursor.Follows` says of a move of the cursor and a step on
characters that from the same place they do the same and arrive at the same place, and it
passes from two to their sequence (`Cursor.Follows.bind`).
-/

namespace FlatRecord

namespace Cursor

open String (utf8Len)
open String.Pos (Raw)

/-! ## Cuts -/

/-- What stands in a text from a byte on, unless that byte is inside a character. -/
def sliceFrom? (text : String) (p : Raw) : Option String :=
  if p.isValid text then some (p.extract text text.rawEndPos) else none

/-- What stands in a text before a byte, unless that byte is inside a character. -/
def sliceTo? (text : String) (p : Raw) : Option String :=
  if p.isValid text then some (Raw.extract text ⟨0⟩ p) else none

theorem isValid_append (before after : List Char) :
    Raw.isValid (String.ofList (before ++ after)) ⟨utf8Len before⟩ = true := by
  refine String.Pos.Raw.isValid_eq_true_iff.2 (String.Pos.Raw.isValid_iff_exists_append.2 ?_)
  exact ⟨String.ofList before, String.ofList after, String.ofList_append,
    (String.rawEndPos_ofList before).symm⟩

/-- A cut between characters leaves the characters behind it. -/
theorem sliceFrom?_append (before after : List Char) :
    sliceFrom? (String.ofList (before ++ after)) ⟨utf8Len before⟩
      = some (String.ofList after) := by
  have hcut := String.extract_of_valid before after []
  rw [List.append_nil] at hcut
  rw [sliceFrom?, if_pos (isValid_append before after), String.rawEndPos_ofList,
    String.utf8Len_append, hcut]

/-- And the characters before it. -/
theorem sliceTo?_append (before after : List Char) :
    sliceTo? (String.ofList (before ++ after)) ⟨utf8Len before⟩
      = some (String.ofList before) := by
  have hcut := String.extract_of_valid [] before after
  rw [List.nil_append, String.utf8Len_nil, Nat.zero_add] at hcut
  rw [sliceTo?, if_pos (isValid_append before after), hcut]

/-! ## Moves -/

/-- **A move of a cursor**: from the byte where it stands it comes to a result or to a
violation, and to the byte where it stands then – or to nothing, if the text would be
cut inside a character. -/
abbrev Move (α : Type) : Type := ExceptT Violation (StateT Raw Option) α

/-- A step on characters: it takes some off the start of a list. -/
abbrev Taking (α : Type) : Type := List Char → Except Violation (α × List Char)

/-- Two steps on characters, one after the other. -/
def Taking.andThen {α β : Type} (taking : Taking α) (next : α → Taking β) : Taking β :=
  fun cs => taking cs >>= fun result => next result.1 result.2

theorem Taking.andThen_of_eq_ok {α β : Type} {taking : Taking α} {next : α → Taking β}
    {cs left : List Char} {a : α} (h : taking cs = .ok (a, left)) :
    taking.andThen next cs = next a left := by
  rw [Taking.andThen, h]
  rfl

theorem Taking.andThen_of_eq_error {α β : Type} {taking : Taking α} {next : α → Taking β}
    {cs : List Char} {e : Violation} (h : taking cs = .error e) :
    taking.andThen next cs = .error e := by
  rw [Taking.andThen, h]
  rfl

/-- What stands behind the cursor. -/
def rest (text : String) : Move String := ExceptT.mk fun p =>
  (sliceFrom? text p).map fun left => (.ok left, p)

/-- Moves over a text, if it stands behind the cursor. -/
def eat (text expected : String) : Move Bool := ExceptT.mk fun p =>
  (sliceFrom? text p).map fun left =>
    match expected.toList.isPrefixOf? left.toList with
    | some _ => (.ok true, ⟨p.byteIdx + expected.utf8ByteSize⟩)
    | none => (.ok false, p)

/-- The byte of a text where the first character stands that does not pass a test. -/
def sizeWhile (test : Char → Bool) (text : String) : Nat :=
  utf8Len (text.toList.takeWhile test)

/-- Moves over the characters that pass a test, up to the first that does not. -/
def takeWhile (text : String) (test : Char → Bool) : Move String := ExceptT.mk fun p =>
  (sliceFrom? text p).bind fun left =>
    (sliceTo? left ⟨sizeWhile test left⟩).map fun taken =>
      (.ok taken, ⟨p.byteIdx + sizeWhile test left⟩)

/-- **A move of the cursor does what a step on characters does**: from a place between
two characters of the text it comes to the same result, and to the place that the
other has come to, or it comes to the same violation. -/
def Follows {α : Type} (text : String) (move : Move α) (taking : Taking α) : Prop :=
  ∀ before after, text.toList = before ++ after →
    match taking after with
    | .ok (a, left) =>
      ∃ taken, after = taken ++ left
        ∧ move.run.run ⟨utf8Len before⟩ = some (.ok a, ⟨utf8Len (before ++ taken)⟩)
    | .error e => ∃ p, move.run.run ⟨utf8Len before⟩ = some (.error e, p)

variable {α β : Type} {text : String}

theorem Follows.pure (a : α) : Follows text (pure a) (fun cs => .ok (a, cs)) := fun before _ _ =>
  ⟨[], rfl, by rw [List.append_nil]; rfl⟩

theorem Follows.throw (e : Violation) :
    Follows (α := α) text (throw e) (fun _ => .error e) := fun _ _ _ => ⟨_, rfl⟩

theorem Follows.ofExcept (x : Except Violation α) :
    Follows text (MonadExcept.ofExcept x) (fun cs => x.map (·, cs)) := by
  cases x with
  | ok a => exact Follows.pure a
  | error e => exact Follows.throw e

theorem Follows.ite {p : Prop} [Decidable p] {move move' : Move α} {taking taking' : Taking α}
    (h : Follows text move taking) (h' : Follows text move' taking') :
    Follows text (if p then move else move') (fun cs => if p then taking cs else taking' cs) := by
  by_cases hp : p
  · simp only [if_pos hp]
    exact h
  · simp only [if_neg hp]
    exact h'

/-- What matters of the step on characters is what it comes to. -/
theorem Follows.congr {move : Move α} {taking taking' : Taking α}
    (h : Follows text move taking) (heq : ∀ cs, taking cs = taking' cs) :
    Follows text move taking' := fun before after hsplit => heq after ▸ h before after hsplit

/-- **Two moves one after the other do what two steps on characters do.** -/
theorem Follows.bind {move : Move α} {taking : Taking α} {next : α → Move β}
    {takingNext : α → Taking β} (h : Follows text move taking)
    (hnext : ∀ a, Follows text (next a) (takingNext a)) :
    Follows text (move >>= next) (taking.andThen takingNext) := by
  intro before after hsplit
  have hfirst := h before after hsplit
  rw [ExceptT.run_bind, StateT.run_bind, Taking.andThen]
  cases htaking : taking after with
  | error e =>
    rw [htaking] at hfirst
    obtain ⟨p, hp⟩ := hfirst
    rw [hp]
    exact ⟨p, rfl⟩
  | ok result =>
    obtain ⟨a, left⟩ := result
    rw [htaking] at hfirst
    obtain ⟨taken, rfl, hstep⟩ := hfirst
    have hsecond := hnext a (before ++ taken) left (by rw [hsplit, List.append_assoc])
    rw [hstep]
    show match takingNext a left with
      | .ok (b, left') => ∃ taken', taken ++ left = taken' ++ left'
          ∧ (next a).run.run ⟨utf8Len (before ++ taken)⟩
            = some (.ok b, ⟨utf8Len (before ++ taken')⟩)
      | .error e => ∃ p, (next a).run.run ⟨utf8Len (before ++ taken)⟩ = some (.error e, p)
    cases hrest : takingNext a left with
    | error e =>
      rw [hrest] at hsecond
      exact hsecond
    | ok result =>
      rw [hrest] at hsecond
      obtain ⟨taken', rfl, hstep'⟩ := hsecond
      refine ⟨taken ++ taken', (List.append_assoc _ _ _).symm, ?_⟩
      rw [← List.append_assoc]
      exact hstep'

theorem rest_follows : Follows text (rest text) (fun cs => .ok (String.ofList cs, cs)) := by
  intro before after hsplit
  obtain rfl : text = String.ofList (before ++ after) := by rw [← hsplit, String.ofList_toList]
  refine ⟨[], rfl, ?_⟩
  show (sliceFrom? _ _).map _ = _
  rw [sliceFrom?_append, List.append_nil]
  rfl

theorem takeWhile_follows (test : Char → Bool) :
    Follows text (takeWhile text test)
      (fun cs => .ok (String.ofList (cs.takeWhile test), cs.dropWhile test)) := by
  intro before after hsplit
  obtain rfl : text = String.ofList (before ++ after) := by rw [← hsplit, String.ofList_toList]
  refine ⟨after.takeWhile test, List.takeWhile_append_dropWhile.symm, ?_⟩
  have hcut := sliceTo?_append (after.takeWhile test) (after.dropWhile test)
  rw [List.takeWhile_append_dropWhile] at hcut
  show (sliceFrom? _ _).bind _ = _
  rw [sliceFrom?_append, Option.bind_some, sizeWhile, String.toList_ofList, hcut,
    String.utf8Len_append]
  rfl

/-- Takes some characters off the start of a list, if they stand there. -/
def eatChars (expected : List Char) : Taking Bool := fun cs =>
  match expected.isPrefixOf? cs with
  | some left => .ok (true, left)
  | none => .ok (false, cs)

theorem eatChars_cons (c : Char) (cs : List Char) : eatChars [c] (c :: cs) = .ok (true, cs) := by
  simp [eatChars, List.isPrefixOf?]

theorem eatChars_of_head? {c : Char} {cs : List Char} (h : cs.head? ≠ some c) :
    eatChars [c] cs = .ok (false, cs) := by
  cases cs with
  | nil => rfl
  | cons d cs =>
    have hne : c ≠ d := fun heq => h (congrArg some heq.symm)
    simp [eatChars, List.isPrefixOf?, hne]

theorem eat_follows (expected : String) :
    Follows text (eat text expected) (eatChars expected.toList) := by
  intro before after hsplit
  obtain rfl : text = String.ofList (before ++ after) := by rw [← hsplit, String.ofList_toList]
  have hrun : (eat (String.ofList (before ++ after)) expected).run.run ⟨utf8Len before⟩
      = some (match expected.toList.isPrefixOf? after with
        | some _ => (.ok true, ⟨utf8Len before + expected.utf8ByteSize⟩)
        | none => (.ok false, ⟨utf8Len before⟩)) := by
    show (sliceFrom? _ _).map _ = _
    rw [sliceFrom?_append, Option.map_some, String.toList_ofList]
  rw [hrun]
  cases hprefix : expected.toList.isPrefixOf? after with
  | some left =>
    have htake : eatChars expected.toList after = .ok (true, left) := by
      rw [eatChars, hprefix]
    rw [htake]
    refine ⟨expected.toList, (List.append_eq_of_isPrefixOf?_eq_some hprefix).symm, ?_⟩
    rw [String.utf8Len_append, ← String.utf8ByteSize_ofList expected.toList,
      String.ofList_toList]
  | none =>
    have htake : eatChars expected.toList after = .ok (false, after) := by
      rw [eatChars, hprefix]
    rw [htake]
    exact ⟨[], rfl, by rw [List.append_nil]⟩

end Cursor

/-! ## Type tokens -/

namespace TypeToken

open Cursor (Move Taking Follows eat takeWhile rest)

/-- Reads the name of a type behind a cursor. -/
def nameByCursor (token : String) : Move String := do
  let name ← takeWhile token isNameChar
  if name.toList.isEmpty then throw (.malformed (.typeName token)) else return name

/-- Reads the digits of a length behind a cursor, and the bracket that closes them. -/
def digitsByCursor (token : String) : Move Nat := do
  let digits ← takeWhile token Char.isDigit
  if digits.toList.isEmpty then throw (.malformed (.bracket token))
  else if ← eat token "]" then MonadExcept.ofExcept (lengthOfDigits digits.toList)
  else throw (.malformed (.bracket token))

/-- Reads a length in brackets behind a cursor. -/
def lengthByCursor (token : String) : Move (Option Nat) := do
  if ← eat token "[" then return some (← digitsByCursor token) else return none

/-- Reads what closes an optional type behind a cursor. -/
def closerByCursor (token : String) (isOptional : Bool) : Move Unit :=
  if isOptional then do
    if ← eat token ">" then return () else throw (.malformed (.unclosedOptional token))
  else return ()

/-- Checks that nothing is left behind a cursor. -/
def endByCursor (token : String) : Move Unit := do
  let left ← rest token
  if left.toList.isEmpty then return () else throw (.malformed (.leftover left token))

/-- Reads a type token by a cursor. -/
def tokenByCursor (token : String) : Move TypeToken := do
  let isOptional ← eat token "optional<"
  let name ← nameByCursor token
  let length ← lengthByCursor token
  closerByCursor token isOptional
  endByCursor token
  return ⟨isOptional, name, length⟩

/-- **Reads a type token in bytes**, from its first byte on: there is no result if it
would be cut inside a character. -/
def readByCursor (token : String) : Option (Except Violation TypeToken) :=
  ((tokenByCursor token).run.run ⟨0⟩).map Prod.fst

/-! ## The same steps on characters -/

/-- Takes the name of a type off the start of a list. -/
def nameTaking (token : String) : Taking String := fun cs =>
  if (cs.takeWhile isNameChar).isEmpty then .error (.malformed (.typeName token))
  else .ok (String.ofList (cs.takeWhile isNameChar), cs.dropWhile isNameChar)

/-- Takes the digits of a length off the start of a list, and the bracket that closes them. -/
def digitsTaking (token : String) : Taking Nat := fun cs =>
  match cs.takeWhile Char.isDigit, cs.dropWhile Char.isDigit with
  | d :: ds, ']' :: rest => (lengthOfDigits (d :: ds)).map (·, rest)
  | _, _ => .error (.malformed (.bracket token))

/-- Takes what closes an optional type off the start of a list. -/
def closerTaking (token : String) (isOptional : Bool) : Taking Unit := fun cs =>
  (takeCloser token isOptional cs).map ((), ·)

/-- Checks that no characters are left. -/
def endTaking (token : String) : Taking Unit := fun cs =>
  if cs.isEmpty then .ok ((), cs)
  else .error (.malformed (.leftover (String.ofList cs) token))

/-- Takes a type token off the start of a list. -/
def tokenTaking (token : String) : Taking TypeToken :=
  (Cursor.eatChars optionalOpener).andThen fun isOptional =>
    (nameTaking token).andThen fun name => Taking.andThen (takeLength token) fun length =>
      (closerTaking token isOptional).andThen fun _ => (endTaking token).andThen fun _ cs =>
        .ok (⟨isOptional, name, length⟩, cs)

theorem nameByCursor_follows (token : String) :
    Follows token (nameByCursor token) (nameTaking token) := by
  refine Follows.congr ((Cursor.takeWhile_follows isNameChar).bind fun name =>
    Follows.ite (.throw _) (.pure name)) fun cs => ?_
  show (if (String.ofList (cs.takeWhile isNameChar)).toList.isEmpty then _ else _) = _
  rw [String.toList_ofList]
  rfl

theorem digitsByCursor_follows (token : String) :
    Follows token (digitsByCursor token) (digitsTaking token) := by
  refine Follows.congr ((Cursor.takeWhile_follows Char.isDigit).bind fun digits =>
    Follows.ite (.throw _) ((Cursor.eat_follows "]").bind fun _ =>
      Follows.ite (.ofExcept (lengthOfDigits digits.toList)) (.throw _))) fun cs => ?_
  show (if (String.ofList (cs.takeWhile Char.isDigit)).toList.isEmpty then Except.error _
    else (Cursor.eatChars [']'] (cs.dropWhile Char.isDigit)) >>= fun closed => if closed.1 then
      (lengthOfDigits (String.ofList (cs.takeWhile Char.isDigit)).toList).map (·, closed.2)
      else Except.error _) = _
  rw [String.toList_ofList, digitsTaking]
  rcases cs.takeWhile Char.isDigit with _ | ⟨d, ds⟩
  · rfl
  · rcases cs.dropWhile Char.isDigit with _ | ⟨c, rest⟩
    · rfl
    · by_cases hc : c = ']'
      · subst hc
        rw [Cursor.eatChars_cons]
        rfl
      · have hhead : (c :: rest).head? ≠ some ']' := fun heq => hc (Option.some.inj heq)
        rw [Cursor.eatChars_of_head? hhead]
        show Except.error _ = _
        split
        · rename_i heq
          exact absurd (List.cons.inj heq).1 hc
        · rfl

/-- Behind an opening bracket there are digits and a closing bracket, or no length is
taken. -/
theorem closed_or_not_taken (token : String) (cs : List Char) :
    (∃ d ds rest, cs.takeWhile Char.isDigit = d :: ds ∧ cs.dropWhile Char.isDigit = ']' :: rest)
      ∨ digitsTaking token cs = .error (.malformed (.bracket token))
        ∧ takeLength token ('[' :: cs) = .error (.malformed (.bracket token)) := by
  by_cases hclosed : ∃ d ds rest,
      cs.takeWhile Char.isDigit = d :: ds ∧ cs.dropWhile Char.isDigit = ']' :: rest
  · exact .inl hclosed
  · refine .inr ⟨?_, ?_⟩
    · rw [digitsTaking]
      split
      · exact absurd ⟨_, _, _, ‹_›, ‹_›⟩ hclosed
      · rfl
    · rw [takeLength]
      split
      · exact absurd ⟨_, _, _, ‹_›, ‹_›⟩ hclosed
      · rfl

/-- What stands behind an opening bracket is taken as a length. -/
theorem takeLength_cons (token : String) (cs : List Char) :
    takeLength token ('[' :: cs)
      = (digitsTaking token).andThen (fun n left => .ok (some n, left)) cs := by
  rcases closed_or_not_taken token cs with ⟨d, ds, rest, hdigits, hclose⟩ | ⟨htaking, hlength⟩
  · rw [takeLength, Taking.andThen, digitsTaking, hdigits, hclose]
    show (lengthOfDigits (d :: ds) >>= fun n => pure (some n, rest))
      = (lengthOfDigits (d :: ds)).map (·, rest) >>= fun sized => .ok (some sized.1, sized.2)
    cases lengthOfDigits (d :: ds) <;> rfl
  · rw [hlength, Taking.andThen_of_eq_error htaking]

theorem lengthByCursor_follows (token : String) :
    Follows token (lengthByCursor token) (takeLength token) := by
  refine Follows.congr ((Cursor.eat_follows "[").bind fun _ => Follows.ite
    ((digitsByCursor_follows token).bind fun n => .pure (some n)) (.pure none)) fun cs => ?_
  rw [show "[".toList = ['['] from rfl]
  by_cases hopen : cs.head? = some '['
  · obtain ⟨cs, rfl⟩ := List.head?_eq_some_iff.1 hopen
    rw [Taking.andThen_of_eq_ok (Cursor.eatChars_cons '[' cs), takeLength_cons]
    rfl
  · rw [Taking.andThen_of_eq_ok (Cursor.eatChars_of_head? hopen), takeLength_of_head? hopen]
    rfl

theorem closerByCursor_follows (token : String) (isOptional : Bool) :
    Follows token (closerByCursor token isOptional) (closerTaking token isOptional) := by
  cases isOptional with
  | false => exact Follows.pure ()
  | true =>
    refine Follows.congr ((Cursor.eat_follows ">").bind fun _ =>
      Follows.ite (.pure ()) (.throw _)) fun cs => ?_
    rw [show ">".toList = ['>'] from rfl, Taking.andThen, closerTaking]
    unfold takeCloser
    split
    · rename_i heq
      cases heq
    · rw [Cursor.eatChars_cons]
      rfl
    · rename_i hother
      rw [Cursor.eatChars_of_head? fun hhead => ?_]
      · rfl
      · obtain ⟨left, hleft⟩ := List.head?_eq_some_iff.1 hhead
        exact hother left hleft

theorem endByCursor_follows (token : String) :
    Follows token (endByCursor token) (endTaking token) := by
  refine Follows.congr (Cursor.rest_follows.bind fun left =>
    Follows.ite (.pure ()) (.throw _)) fun cs => ?_
  show (if (String.ofList cs).toList.isEmpty then _ else _) = _
  rw [String.toList_ofList]
  rfl

theorem tokenByCursor_follows (token : String) :
    Follows token (tokenByCursor token) (tokenTaking token) :=
  (Cursor.eat_follows "optional<").bind fun isOptional =>
    (nameByCursor_follows token).bind fun name => (lengthByCursor_follows token).bind fun length =>
      (closerByCursor_follows token isOptional).bind fun _ =>
        (endByCursor_follows token).bind fun _ => Follows.pure (TypeToken.mk isOptional name length)

/-- Reading a token is taking it off the list of its characters. -/
theorem read_eq_tokenTaking (token : String) :
    read token = (tokenTaking token token.toList).map Prod.fst := by
  rcases hopen : takeOpener token.toList with ⟨isOptional, cs⟩
  have heat : Cursor.eatChars optionalOpener token.toList = .ok (isOptional, cs) := by
    rw [← hopen, Cursor.eatChars, takeOpener]
    cases optionalOpener.isPrefixOf? token.toList <;> rfl
  rw [tokenTaking, Taking.andThen_of_eq_ok heat, read, hopen]
  dsimp only
  split
  · rename_i hname
    rw [Taking.andThen_of_eq_error (if_pos hname)]
    rfl
  · rename_i hname
    rw [Taking.andThen_of_eq_ok (if_neg hname)]
    rcases hlength : takeLength token (cs.dropWhile isNameChar) with e | ⟨length, left⟩
    · rw [Taking.andThen_of_eq_error hlength]
      rfl
    · rw [Taking.andThen_of_eq_ok hlength]
      rcases hclose : takeCloser token isOptional left with e | rest
      · rw [Taking.andThen_of_eq_error (by rw [closerTaking, hclose]; rfl)]
        show (takeCloser token isOptional left >>= _) = _
        rw [hclose]
        rfl
      · rw [Taking.andThen_of_eq_ok (by rw [closerTaking, hclose]; rfl)]
        show (takeCloser token isOptional left >>= _) = _
        rw [hclose]
        show (if rest.isEmpty then _ else _) = _
        rw [Taking.andThen, endTaking]
        split <;> rfl

/-- **A token is never cut inside a character**, and what is read in bytes is what is
read in characters. -/
theorem readByCursor_eq (token : String) : readByCursor token = some (read token) := by
  have h := tokenByCursor_follows token [] token.toList rfl
  rw [read_eq_tokenTaking, readByCursor]
  cases htaking : tokenTaking token token.toList with
  | ok result =>
    rw [htaking] at h
    obtain ⟨taken, -, hstep⟩ := h
    exact congrArg (Option.map Prod.fst) hstep
  | error e =>
    rw [htaking] at h
    obtain ⟨p, hstep⟩ := h
    exact congrArg (Option.map Prod.fst) hstep

end TypeToken

end FlatRecord
