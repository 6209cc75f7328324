import Multiway.Decimal.Shortest
import Multiway.Json.Failure

/-!
Reading a JSON text from its front.

A reader takes what it needs from the front of the text and leaves the rest. It keeps count of the
lines and of the bytes, so that a failure can tell its place. Some failures are found by a look at
the next character and come after the first byte of that character; when it is a line feed, they
belong to the next line.

Each reader below takes one kind of token: blanks, a word, a string, a number. The value of a
string may be shorter than its text, and the value of a number larger than any machine word, so
both are read in two steps: first the characters that belong to the token, then what they mean.
-/

namespace Multiway.Json

/-- The part of a text that has not been read, and the place where it begins. -/
structure Source where
  rest : List Char
  place : Place := {}
deriving DecidableEq, Repr

/-- A source after the characters at its front that pass a test. -/
def Source.dropWhile (test : Char → Bool) (source : Source) : Source :=
  ⟨source.rest.dropWhile test, (source.rest.takeWhile test).foldl Place.after source.place⟩

/-- A reader of one part of a text. -/
abbrev Reader := StateT Source (Except Failure)

namespace Reader

variable {α β : Type}

/-- Stops in front of the next character. -/
def failHere (cause : Cause) : Reader α := do
  throw ⟨cause, some (← get).place⟩

/-- Stops because of the next character. -/
def failAhead (cause : Cause) : Reader α := do
  let source ← get
  throw ⟨cause, some (source.rest.head?.elim source.place source.place.afterByte)⟩

/-- The next character, which stays. -/
def peek : Reader (Option Char) := do
  return (← get).rest.head?

/-- Takes the next character. -/
def next : Reader (Option Char) := do
  match ← get with
  | ⟨[], _⟩ => return none
  | ⟨c :: rest, place⟩ =>
    set (⟨rest, place.after c⟩ : Source)
    return some c

/-- Blanks may stand around every token. -/
def isBlank (c : Char) : Bool := c = ' ' || c = '\n' || c = '\t' || c = '\r'

/-- Takes all characters at the front that pass a test. -/
def takeWhile (test : Char → Bool) : Reader (List Char) := do
  let source ← get
  set (source.dropWhile test)
  return source.rest.takeWhile test

/-- The next character that is no blank, which stays. -/
def peekToken : Reader (Option Char) := do
  let _ ← takeWhile isBlank
  peek

/-- Takes a word of which the first letter is known already. -/
def word : List Char → Reader Unit
  | [] => return ()
  | expected :: rest => do
    match ← peek with
    | none => failHere .endsBeforeValue
    | some c =>
      if c ≠ expected then failAhead .noWord
      let _ ← next
      word rest

/-! ### Strings -/

/-- The value of a digit in base sixteen. -/
def hexDigit? (c : Char) : Option Nat :=
  if c.isDigit then some (c.toNat - '0'.toNat)
  else if 'a' ≤ c ∧ c ≤ 'f' then some (c.toNat - 'a'.toNat + 10)
  else if 'A' ≤ c ∧ c ≤ 'F' then some (c.toNat - 'A'.toNat + 10)
  else none

/-- Takes the characters of `size` bytes, the last of which may reach further. -/
def takeBytes (size : Nat) : Nat → Reader (List Char)
  | 0 => return []
  | characters + 1 => do
    if size = 0 then return []
    match ← next with
    | none => failHere .endsInString
    | some c => return c :: (← takeBytes (size - c.utf8Size) characters)

/-- The number behind `\u`: four digits in base sixteen. Where they are none, reading stops after
four bytes, be it inside of a character. -/
def hexEscape : Reader Nat := do
  let digits ← takeBytes 4 4
  match digits.mapM hexDigit? with
  | some [a, b, c, d] => return ((a * 16 + b) * 16 + c) * 16 + d
  | _ =>
    let place := (← get).place
    let beyond := (String.ofList digits).utf8ByteSize - 4
    throw ⟨.invalidEscape, some { place with column := place.column - beyond }⟩

/-- Takes one character of the second escape of a surrogate pair. -/
def pairMark (mark : Char) : Reader Unit := do
  match ← peek with
  | none => failHere .endsInString
  | some c =>
    if c ≠ mark then failAhead .unfinishedPair
    let _ ← next

/-- The character of an escape that gives its number: the number itself, or a surrogate pair. -/
def unicodeEscape : Reader Char := do
  let high ← hexEscape
  if high < 0xD800 ∨ 0xDFFF < high then return Char.ofNat high
  if 0xDC00 ≤ high then failHere .loneSurrogate
  pairMark '\\'
  pairMark 'u'
  let low ← hexEscape
  if low < 0xDC00 ∨ 0xDFFF < low then failHere .loneSurrogate
  return Char.ofNat (0x10000 + (high - 0xD800) * 0x400 + (low - 0xDC00))

/-- The character that a letter stands for behind a backslash. -/
def shortEscape? : Char → Option Char
  | '"' => some '"'
  | '\\' => some '\\'
  | '/' => some '/'
  | 'b' => some '\x08'
  | 'f' => some '\x0c'
  | 'n' => some '\n'
  | 'r' => some '\r'
  | 't' => some '\t'
  | _ => none

/-- The character of an escape, after the backslash. -/
def escape : Reader Char := do
  match ← peek with
  | none => failHere .endsInString
  | some 'u' => do
    let _ ← next
    unicodeEscape
  | some c =>
    match shortEscape? c with
    | none => failAhead .invalidEscape
    | some meant => do
      let _ ← next
      return meant

/-- The characters of a string up to its closing quote. Each step takes a character, so the number
of characters left bounds the steps. -/
def stringChars : Nat → Reader (List Char)
  | 0 => failHere .endsInString
  | steps + 1 => do
    match ← next with
    | none => failHere .endsInString
    | some '"' => return []
    | some '\\' => do
      let c ← escape
      return c :: (← stringChars steps)
    | some c =>
      if c.toNat < 32 then failHere .controlCharacter
      else return c :: (← stringChars steps)

/-- The rest of a string whose opening quote has been taken. -/
def stringTail : Reader String := do
  return String.ofList (← stringChars ((← get).rest.length + 1))

/-! ### Numbers -/

/-- The value of a number token. -/
inductive Number where
  | integer (value : Int)
  | decimal (value : Decimal)
deriving DecidableEq, Repr

/-- The largest significand that is kept exactly. -/
def largestSignificand : Nat := Nat.pow 2 64 - 1

/-- Appends digits to a number while it does not pass a limit, and counts the digits that no longer
fit. -/
def appendDigits (limit value : Nat) : List Char → Nat × Nat
  | [] => (value, 0)
  | digit :: rest =>
    let longer := value * 10 + (digit.toNat - '0'.toNat)
    if longer ≤ limit then appendDigits limit longer rest
    else (value, (digit :: rest).length)

/-- The largest power of ten that is a floating point number. -/
def largestPower : Nat := 308

/-- The floating point number near `value * 10 ^ exponent`, or none if it is too large. A number
far below one is reached by several divisions, and is zero after a few of them. -/
def scaled? : Nat → Float → Int → Option Float
  | 0, value, _ => some value
  | steps + 1, value, exponent =>
    if exponent.natAbs ≤ largestPower then
      if 0 ≤ exponent then
        let product := value * Float.ofScientific 1 false exponent.natAbs
        if product.isInf then none else some product
      else some (value / Float.ofScientific 1 false exponent.natAbs)
    else if value == 0 then some value
    else if 0 ≤ exponent then none
    else scaled? steps (value / Float.ofScientific 1 false largestPower) (exponent + largestPower)

/-- The value of a number with a point or an exponent. -/
def decimal (positive : Bool) (significand : Nat) (exponent : Int) : Reader Number := do
  match scaled? 4 significand.toUInt64.toFloat exponent with
  | none => failHere .numberOutOfRange
  | some value => return .decimal (.ofFloat (if positive then value else -value))

/-- The largest exponent that is read to its end. -/
def largestExponent : Nat := Nat.pow 2 31 - 1

/-- The exponent behind `e`, and the number it belongs to. -/
def exponentTail (positive : Bool) (significand : Nat) (start : Int) : Reader Number := do
  let _ ← next
  let sign ← peek
  if sign = some '+' ∨ sign = some '-' then
    let _ ← next
  match ← peek with
  | none => failHere .endsBeforeValue
  | some c => if !c.isDigit then failAhead .invalidNumber
  let source ← get
  let digits ← takeWhile Char.isDigit
  let (size, dropped) := appendDigits largestExponent 0 digits
  if dropped = 0 then
    decimal positive significand (if sign = some '-' then start - size else start + size)
  else if significand ≠ 0 ∧ sign ≠ some '-' then
    -- The first digit too many is the last one that is looked at.
    let taken := digits.take (digits.length - dropped + 1)
    throw ⟨.numberOutOfRange, some (taken.foldl Place.after source.place)⟩
  else decimal positive 0 0

/-- What follows the digits in front of a point: nothing, or an exponent. -/
def numberTail (positive : Bool) (significand : Nat) (exponent : Int) : Reader Number := do
  match ← peek with
  | some 'e' | some 'E' => exponentTail positive significand exponent
  | _ => decimal positive significand exponent

/-- The digits behind a point, and what follows them. -/
def fractionTail (positive : Bool) (significand : Nat) (exponent : Int) : Reader Number := do
  let _ ← next
  let digits ← takeWhile Char.isDigit
  if digits.isEmpty then
    failAhead (if (← peek).isSome then .invalidNumber else .endsBeforeValue)
  let (significand, dropped) := appendDigits largestSignificand significand digits
  numberTail positive significand (exponent - (digits.length - dropped : Nat))

/-- A number after its sign. A whole number that can be kept is exact; the negative of zero
and everything else is a floating point number. -/
def number (positive : Bool) : Reader Number := do
  match ← peek with
  | none => failHere .endsBeforeValue
  | some c =>
    if !c.isDigit then failAhead .invalidNumber
    let digits ← if c = '0' then do
        let _ ← next
        if (← peek).any Char.isDigit then failAhead .invalidNumber
        pure ['0']
      else takeWhile Char.isDigit
    let (significand, dropped) := appendDigits largestSignificand 0 digits
    match ← peek with
    | some '.' => fractionTail positive significand dropped
    | some 'e' | some 'E' => exponentTail positive significand dropped
    | _ =>
      if dropped ≠ 0 then decimal positive significand dropped
      else if positive then return .integer significand
      else if significand = 0 ∨ Nat.pow 2 63 < significand then decimal positive significand 0
      else return .integer (-significand)

/-- What a number is in a message. -/
def Number.found : Number → Found
  | .integer value => .integer value
  | .decimal value => .decimal value

/-! ### Refusals -/

/-- Stops because a value is not what is wanted. A word, a number or a string is read to its end
first and may be faulty itself; of an array or an object only the bracket is looked at. -/
def refuse (wanted : Wanted) : Reader α := do
  match ← peek with
  | some 'n' => do
    let _ ← next
    word ['u', 'l', 'l']
    failHere (.wrongKind .null wanted)
  | some 't' => do
    let _ ← next
    word ['r', 'u', 'e']
    failHere (.wrongKind (.boolean true) wanted)
  | some 'f' => do
    let _ ← next
    word ['a', 'l', 's', 'e']
    failHere (.wrongKind (.boolean false) wanted)
  | some '-' => do
    let _ ← next
    let value ← number false
    failHere (.wrongKind value.found wanted)
  | some '"' => do
    let _ ← next
    let value ← stringTail
    failHere (.wrongKind (.text value) wanted)
  | some '[' => failHere (.wrongKind .sequence wanted)
  | some '\x7b' => failHere (.wrongKind .map wanted)
  | some c =>
    if c.isDigit then do
      let value ← number true
      failHere (.wrongKind value.found wanted)
    else failAhead .noValue
  | none => failAhead .noValue

/-- The first character of the value that is due. -/
def peekValue : Reader Char := do
  match ← peekToken with
  | some c => return c
  | none => failAhead .endsBeforeValue

end Reader

end Multiway.Json
