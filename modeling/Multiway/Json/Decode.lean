import Multiway.Json.Codec
import Multiway.Json.Scanner

/-!
Reading values, keys and whole texts.

A key stands in a string but need not be one: a number that is a key fills the quotes. The two
classes say how the values of a type are read where a value is due and where a key is due; a
reader of keys begins in front of the opening quote. Whatever can be read so makes up objects and
arrays.
-/

namespace Multiway.Json

/-- Values that can be read where a value is due. -/
class Readable (α : Type) where
  read : Reader α

/-- Values that can be read where a key is due. -/
class KeyReadable (α : Type) where
  readKey : Reader α

namespace Reader

variable {α β : Type}

/-- A value that begins with `first`; anything else is refused. -/
def beginning (first : Char) (wanted : Wanted) (body : Reader α) : Reader α := do
  if (← peekValue) = first then
    let _ ← next
    body
  else refuse wanted

/-! ### Single values -/

/-- The text of a string. -/
def text (wanted : Wanted) : Reader String := beginning '"' wanted stringTail

/-- The only character of a text. -/
def character (text : String) : Except Cause Char :=
  match text.toList with
  | [c] => .ok c
  | _ => .error (.wrongValue (.text text) .character)

/-- Takes a result or stops in front of the next character. -/
def orFail : Except Cause α → Reader α
  | .ok value => return value
  | .error cause => failHere cause

/-- An integer of a range, which has a name. -/
structure Range where
  name : String
  least : Int
  greatest : Int
deriving DecidableEq, Repr

/-- The integer that a number is, if it lies in a range. -/
def Range.check (range : Range) : Number → Except Cause Int
  | .integer value =>
    if range.least ≤ value ∧ value ≤ range.greatest then .ok value
    else .error (.wrongValue (.integer value) (.integer range.name))
  | .decimal value => .error (.wrongKind (.decimal value) (.integer range.name))

/-- An integer of a range. -/
def integer (range : Range) : Reader Int := do
  let c ← peekValue
  if c = '-' then
    let _ ← next
    orFail (range.check (← number false))
  else if c.isDigit then orFail (range.check (← number true))
  else refuse (.integer range.name)

/-- One of the two words for a truth value. -/
def boolean : Reader Bool := do
  match ← peekValue with
  | 't' => do
    let _ ← next
    word ['r', 'u', 'e']
    return true
  | 'f' => do
    let _ ← next
    word ['a', 'l', 's', 'e']
    return false
  | _ => refuse .boolean

/-- The word for no value. -/
def null (wanted : Wanted) : Reader Unit := beginning 'n' wanted (word ['u', 'l', 'l'])

/-- The word for no value, or some value. -/
def optional (value : Reader α) : Reader (Option α) := do
  if (← peekToken) = some 'n' then
    let _ ← next
    word ['u', 'l', 'l']
    return none
  else return some (← value)

/-! ### Arrays -/

/-- Whether another element follows. A comma stands in front of every element but the first. -/
def anotherElement (first : Bool) : Reader Bool := do
  match ← peekToken with
  | none => failAhead .endsInArray
  | some ']' => return false
  | some c =>
    if first then return true
    else if c = ',' then
      let _ ← next
      match ← peekToken with
      | some ']' => failAhead .trailingComma
      | some _ => return true
      | none => failAhead .endsBeforeValue
    else failAhead .noArrayEnd

/-- Takes the bracket at the end of an array that has no room for more elements. -/
def arrayEnd : Reader Unit := do
  match ← peekToken with
  | some ']' => do
    let _ ← next
  | some ',' => do
    let _ ← next
    failAhead (if (← peekToken) = some ']' then .trailingComma else .trailingCharacters)
  | some _ => failAhead .trailingCharacters
  | none => failAhead .endsInArray

/-- The elements of an array after its bracket. Each step takes a character, so the number of
characters left bounds the steps. -/
def elements (element : Reader α) : Nat → Bool → Reader (List α)
  | 0, _ => failHere .endsInArray
  | steps + 1, first => do
    if ← anotherElement first then
      let value ← element
      return value :: (← elements element steps false)
    else
      arrayEnd
      return []

/-- An array of any length. -/
def array (element : Reader α) : Reader (List α) :=
  beginning '[' .sequence do elements element ((← get).rest.length + 1) true

/-- Stops because an array is over too soon, behind its bracket. -/
def failShort (length : Nat) (wanted : Wanted) : Reader α := do
  arrayEnd
  failHere (.wrongLength length wanted)

/-- An array of two elements. -/
def pair (left : Reader α) (right : Reader β) : Reader (α × β) :=
  beginning '[' .pair do
    if !(← anotherElement true) then failShort 0 .pair
    let a ← left
    if !(← anotherElement false) then failShort 1 .pair
    let b ← right
    arrayEnd
    return (a, b)

/-! ### Keys -/

/-- A number that fills the quotes. -/
def quotedInteger (range : Range) : Reader Int := do
  let _ ← next
  if !(← peek).any (fun c => c.isDigit || c = '-') then failHere .keyNotNumber
  let value ← integer range
  match ← peek with
  | some '"' => do
    let _ ← next
    return value
  | _ => failAhead .noClosingQuote

/-- A truth value that fills the quotes. Where the first letter is neither of the two, the string
goes on behind it. -/
def quotedBoolean : Reader Bool := do
  let _ ← next
  match ← next with
  | none => failAhead .endsBeforeValue
  | some 't' => do
    word ['r', 'u', 'e', '"']
    return true
  | some 'f' => do
    word ['a', 'l', 's', 'e', '"']
    return false
  | some _ => do
    let rest ← stringTail
    failHere (.wrongKind (.text rest) .boolean)

/-- A key that a text has to be turned into. A text that does not fit is noticed in front of the
token behind the key, or behind it if it closes the object. -/
def quotedText (convert : String → Except Cause α) : Reader α := do
  let _ ← next
  let key ← stringTail
  match convert key with
  | .ok value => return value
  | .error cause => do
    if (← peekToken) = some '\x7d' then
      let _ ← next
    failHere cause

/-! ### Objects -/

/-- Whether another member follows. A comma stands in front of every member but the first. -/
def anotherMember (first : Bool) : Reader Bool := do
  match ← peekToken with
  | none => failAhead .endsInObject
  | some '\x7d' => return false
  | some c =>
    if first then
      if c = '"' then return true else failAhead .keyNotText
    else if c = ',' then
      let _ ← next
      match ← peekToken with
      | some '"' => return true
      | some '\x7d' => failAhead .trailingComma
      | some _ => failAhead .keyNotText
      | none => failAhead .endsBeforeValue
    else failAhead .noObjectEnd

/-- The colon between a key and its value. -/
def colon : Reader Unit := do
  match ← peekToken with
  | some ':' => do
    let _ ← next
  | some _ => failAhead .noColon
  | none => failAhead .endsInObject

/-- One member of an object. -/
def member (key : Reader α) (value : Reader β) : Reader (α × β) := do
  let k ← key
  colon
  return (k, ← value)

/-! ### Whole texts -/

/-- Nothing but blanks may follow the value that a text is. -/
def finish : Reader Unit := do
  if (← peekToken).isSome then failAhead .trailingCharacters

/-- Reads a whole text. -/
def runAll (reader : Reader α) (text : String) : Except Failure α := do
  return (← (reader <* finish).run { rest := text.toList }).1

/-- The next member of an object, or none if the object is over and the text with it. -/
def memberOrFinish (reader : Reader α) (first : Bool) : Reader (Option α) := do
  if ← anotherMember first then
    return some (← reader)
  else
    let _ ← next
    finish
    return none

/-- The members of an object after its bracket. Each of them takes a character, so the number of
characters left bounds the steps. -/
def membersFrom (reader : Reader α) : Nat → Bool → Source → Members α
  | 0, _, source => .failed ⟨.endsInObject, some source.place⟩
  | steps + 1, first, source =>
    match (memberOrFinish reader first).run source with
    | .error failure => .failed failure
    | .ok (none, _) => .done
    | .ok (some member, source) => .next member (membersFrom reader steps false source)

/-- The members of the object that a text is. -/
def allMembers (reader : Reader α) (text : String) : Members α :=
  match (beginning '\x7b' .map (pure ())).run { rest := text.toList } with
  | .error failure => .failed failure
  | .ok (_, source) => membersFrom reader (source.rest.length + 1) true source

end Reader

open Reader

instance {K V : Type} [KeyReadable K] [Readable V] : ObjectReader K V where
  members := allMembers (member KeyReadable.readKey Readable.read)

instance {T : Type} [Readable T] : ArrayReader T where
  readElements := runAll (array Readable.read)

/-! ### Types -/

/-- The range of the integers of 64 bits. -/
def int64Range : Range := ⟨"i64", -Nat.pow 2 63, Nat.pow 2 63 - 1⟩

/-- The range of the naturals of 8 bits. -/
def word8Range : Range := ⟨"u8", 0, Nat.pow 2 8 - 1⟩

/-- The range of the naturals of 32 bits. -/
def word32Range : Range := ⟨"u32", 0, Nat.pow 2 32 - 1⟩

instance : Readable Int64 where
  read := Int64.ofInt <$> integer int64Range

instance : KeyReadable Int64 where
  readKey := Int64.ofInt <$> quotedInteger int64Range

instance : Readable UInt8 where
  read := (UInt8.ofNat ·.toNat) <$> integer word8Range

instance : KeyReadable UInt8 where
  readKey := (UInt8.ofNat ·.toNat) <$> quotedInteger word8Range

instance : Readable UInt32 where
  read := (UInt32.ofNat ·.toNat) <$> integer word32Range

instance : Readable Bool where
  read := boolean

instance : KeyReadable Bool where
  readKey := quotedBoolean

instance : Readable String where
  read := text .text

instance : KeyReadable String where
  readKey := quotedText .ok

instance : Readable Char where
  read := do orFail (character (← text .character))

instance : KeyReadable Char where
  readKey := quotedText character

instance : Readable Unit where
  read := null .unit

instance {α : Type} [Readable α] : Readable (Option α) where
  read := optional Readable.read

/-- No key stands for the absence of a value. -/
instance {α : Type} [KeyReadable α] : KeyReadable (Option α) where
  readKey := some <$> KeyReadable.readKey

instance {α : Type} [Readable α] : Readable (List α) where
  read := array Readable.read

instance {α β : Type} [Readable α] [Readable β] : Readable (α × β) where
  read := pair Readable.read Readable.read

/-- No key is a pair. -/
instance {α β : Type} : KeyReadable (α × β) where
  readKey := quotedText fun key => .error (.wrongKind (.text key) .pair)

end Multiway.Json
