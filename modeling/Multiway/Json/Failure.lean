import Multiway.Decimal.Basic
import Multiway.Text.Literal

/-!
Why a JSON text cannot be read, or contents cannot be written as one.

A failure is a cause and, when a text was read, the place where reading stopped. Places are counted
in bytes, so a place may lie inside of a character.
-/

namespace Multiway.Json

/-- A place in a text: its line, counted from one, and the number of bytes between the line feed in
front of it and itself. -/
structure Place where
  line : Nat := 1
  column : Nat := 0
deriving DecidableEq, Repr

/-- The place after one more byte. A line feed ends its line. -/
def Place.afterByte (place : Place) (c : Char) : Place :=
  if c = '\n' then ⟨place.line + 1, 0⟩ else ⟨place.line, place.column + 1⟩

/-- The place after all bytes of a character. -/
def Place.after (place : Place) (c : Char) : Place :=
  if c = '\n' then ⟨place.line + 1, 0⟩ else ⟨place.line, place.column + c.utf8Size⟩

/-- A place at the end of a message. -/
def Place.text (place : Place) : String :=
  s!" at line {place.line} column {place.column}"

/-- What stands in the text where something else is wanted. -/
inductive Found where
  | null
  | boolean (value : Bool)
  | integer (value : Int)
  | decimal (value : Decimal)
  | text (value : String)
  | sequence
  | map
deriving DecidableEq, Repr

/-- What is wanted. -/
inductive Wanted where
  | map
  | sequence
  | pair
  | text
  | character
  | boolean
  | unit
  /-- An integer, by the name of its range. -/
  | integer (range : String)
deriving DecidableEq, Repr

/-- A reason to stop. -/
inductive Cause where
  /-- The text ends where a value is due. -/
  | endsBeforeValue
  /-- The text ends inside an object. -/
  | endsInObject
  /-- The text ends inside an array. -/
  | endsInArray
  /-- The text ends inside a string. -/
  | endsInString
  /-- No value begins like this. -/
  | noValue
  /-- A word that begins like `true`, `false` or `null` and is none of them. -/
  | noWord
  /-- A key is not followed by a colon. -/
  | noColon
  /-- A member of an object is not followed by a comma or the end. -/
  | noObjectEnd
  /-- An element of an array is not followed by a comma or the end. -/
  | noArrayEnd
  /-- A number that is a key goes on after the number. -/
  | noClosingQuote
  /-- A key is not a string. -/
  | keyNotText
  /-- A key is to be a number, and does not begin like one. -/
  | keyNotNumber
  /-- A comma comes last. -/
  | trailingComma
  /-- The value is over and the text is not. -/
  | trailingCharacters
  | invalidNumber
  | numberOutOfRange
  | invalidEscape
  /-- The second half of a surrogate pair without the first, or the first half twice. -/
  | loneSurrogate
  /-- The first half of a surrogate pair, and no second escape. -/
  | unfinishedPair
  /-- A control character stands unescaped in a string. -/
  | controlCharacter
  /-- A value of the wrong kind. -/
  | wrongKind (found : Found) (wanted : Wanted)
  /-- A value of the right kind that is none of the wanted ones. -/
  | wrongValue (found : Found) (wanted : Wanted)
  /-- A pair with too few parts. -/
  | wrongLength (length : Nat) (wanted : Wanted)
deriving DecidableEq, Repr

/-- Where the decimal point of a number in a message is written in its place. -/
def decimalStyle : Decimal.Style := ⟨-5, 15⟩

/-- The wording for what was found. -/
def Found.message : Found → String
  | .null => "null"
  | .boolean value => s!"boolean `{value}`"
  | .integer value => s!"integer `{value}`"
  | .decimal value => s!"floating point `{value.text decimalStyle}`"
  | .text value => s!"string {(Text.Printable.literal value).compact}"
  | .sequence => "sequence"
  | .map => "map"

/-- The wording for what is wanted. -/
def Wanted.message : Wanted → String
  | .map => "a map"
  | .sequence => "a sequence"
  | .pair => "a tuple of size 2"
  | .text => "a string"
  | .character => "a character"
  | .boolean => "a boolean"
  | .unit => "unit"
  | .integer range => range

/-- The wording of a cause. -/
def Cause.message : Cause → String
  | .endsBeforeValue => "EOF while parsing a value"
  | .endsInObject => "EOF while parsing an object"
  | .endsInArray => "EOF while parsing a list"
  | .endsInString => "EOF while parsing a string"
  | .noValue => "expected value"
  | .noWord => "expected ident"
  | .noColon => "expected `:`"
  | .noObjectEnd => "expected `,` or `\x7d`"
  | .noArrayEnd => "expected `,` or `]`"
  | .noClosingQuote => "expected `\"`"
  | .keyNotText => "key must be a string"
  | .keyNotNumber => "invalid value: expected key to be a number in quotes"
  | .trailingComma => "trailing comma"
  | .trailingCharacters => "trailing characters"
  | .invalidNumber => "invalid number"
  | .numberOutOfRange => "number out of range"
  | .invalidEscape => "invalid escape"
  | .loneSurrogate => "lone leading surrogate in hex escape"
  | .unfinishedPair => "unexpected end of hex escape"
  | .controlCharacter => "control character (\\u0000-\\u001F) found while parsing a string"
  | .wrongKind found wanted => s!"invalid type: {found.message}, expected {wanted.message}"
  | .wrongValue found wanted => s!"invalid value: {found.message}, expected {wanted.message}"
  | .wrongLength length wanted => s!"invalid length {length}, expected {wanted.message}"

/-- A cause, and the place where it was met. -/
structure Failure where
  cause : Cause
  place : Option Place := none
deriving DecidableEq, Repr

/-- The wording of a failure. -/
def Failure.message (failure : Failure) : String :=
  failure.cause.message ++ failure.place.elim "" Place.text

end Multiway.Json
