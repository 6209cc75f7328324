import Multiway.Decimal.Shortest
import Multiway.Json.Codec

/-!
Writing JSON.

A document is laid out either without any blanks or with every member on a line of its own, two
blanks deeper than its brackets. In a string the quote, the backslash and the control characters
below the blank are escaped; every other character stands for itself. A floating point number that is
not finite has no form of its own and is written as no value.

A value may have no document, and so nothing that contains it has one. The types below fail in one way
only, as keys.
-/

namespace Multiway.Json

/-- A JSON value. The members of an object keep their order. -/
inductive Document where
  | null
  | boolean (value : Bool)
  | integer (value : Int)
  | decimal (value : Decimal)
  | text (value : String)
  | array (elements : List Document)
  | object (members : List (String × Document))

/-- Values that can be written where a value is due. -/
class Writable (α : Type) where
  document : α → Except Failure Document

/-- Values that can be written as keys. -/
class KeyWritable (α : Type) where
  key : α → Except Failure String

/-- A character in a string. -/
def escapedChar (c : Char) : String :=
  if c = '"' then "\\\""
  else if c = '\\' then "\\\\"
  else if c = '\x08' then "\\b"
  else if c = '\x0c' then "\\f"
  else if c = '\n' then "\\n"
  else if c = '\r' then "\\r"
  else if c = '\t' then "\\t"
  else if c.toNat < 32 then
    String.ofList (['\\', 'u', '0', '0'] ++
      [Nat.digitChar (c.toNat / 16), Nat.digitChar (c.toNat % 16)])
  else c.toString

/-- A text as a string of the format. -/
def quotedString (text : String) : String :=
  "\"" ++ String.join (text.toList.map escapedChar) ++ "\""

namespace Document

mutual

/-- A document without blanks. -/
def compact : Document → String
  | .null => "null"
  | .boolean value => if value then "true" else "false"
  | .integer value => toString value
  | .decimal value => value.text decimalStyle
  | .text value => quotedString value
  | .array elements => "[" ++ ",".intercalate (compactElements elements) ++ "]"
  | .object members => "\x7b" ++ ",".intercalate (compactMembers members) ++ "\x7d"

/-- The elements of an array without blanks. -/
def compactElements : List Document → List String
  | [] => []
  | element :: rest => element.compact :: compactElements rest

/-- The members of an object without blanks. -/
def compactMembers : List (String × Document) → List String
  | [] => []
  | (key, value) :: rest => (quotedString key ++ ":" ++ value.compact) :: compactMembers rest

end

/-- The start of a line at a depth. -/
def newline (depth : Nat) : String := "\n".pushn ' ' (2 * depth)

/-- Parts between brackets, each on a line of its own; brackets without parts stay together. -/
def bracketed (depth : Nat) (opening : String) (parts : List String) (closing : String) : String :=
  if parts.isEmpty then opening ++ closing
  else
    let separator := "," ++ newline (depth + 1)
    opening ++ newline (depth + 1) ++ separator.intercalate parts ++ newline depth ++ closing

mutual

/-- A document over several lines, when it begins at some depth. -/
def prettyAt (depth : Nat) : Document → String
  | .null => "null"
  | .boolean value => if value then "true" else "false"
  | .integer value => toString value
  | .decimal value => value.text decimalStyle
  | .text value => quotedString value
  | .array elements => bracketed depth "[" (prettyElements (depth + 1) elements) "]"
  | .object members => bracketed depth "\x7b" (prettyMembers (depth + 1) members) "\x7d"

/-- The elements of an array at some depth. -/
def prettyElements (depth : Nat) : List Document → List String
  | [] => []
  | element :: rest => element.prettyAt depth :: prettyElements depth rest

/-- The members of an object at some depth. -/
def prettyMembers (depth : Nat) : List (String × Document) → List String
  | [] => []
  | (key, value) :: rest =>
    (quotedString key ++ ": " ++ value.prettyAt depth) :: prettyMembers depth rest

end

/-- A document over several lines. -/
def pretty (document : Document) : String := document.prettyAt 0

/-- A document in one of the two styles. -/
def layout : Style → Document → String
  | .compact => compact
  | .pretty => pretty

end Document

open Writable KeyWritable

/-- The object of some entries. -/
def ofEntries {K V : Type} [KeyWritable K] [Writable V] (entries : List (K × V)) :
    Except Failure Document := do
  return .object (← entries.mapM fun (k, v) => do return (← key k, ← document v))

/-- The array of some elements. -/
def ofElements {T : Type} [Writable T] (elements : List T) : Except Failure Document := do
  return .array (← elements.mapM document)

instance {K V : Type} [KeyWritable K] [Writable V] : ObjectWriter K V where
  writeMembers style entries := (ofEntries entries).map (Document.layout style)

instance {T : Type} [Writable T] : ArrayWriter T where
  writeElements style elements := (ofElements elements).map (Document.layout style)

/-! ### Types -/

instance : Writable Int64 where
  document n := return .integer n.toInt

instance : KeyWritable Int64 where
  key n := return toString n.toInt

instance : Writable UInt8 where
  document n := return .integer n.toNat

instance : KeyWritable UInt8 where
  key n := return toString n.toNat

instance : Writable UInt32 where
  document n := return .integer n.toNat

instance : Writable Float where
  document x := return if x.isFinite then .decimal (.ofFloat x) else .null

instance : Writable Bool where
  document b := return .boolean b

instance : KeyWritable Bool where
  key b := return if b then "true" else "false"

instance : Writable String where
  document s := return .text s

instance : KeyWritable String where
  key s := return s

instance : Writable Char where
  document c := return .text c.toString

instance : KeyWritable Char where
  key c := return c.toString

instance : Writable Unit where
  document _ := return .null

instance {α : Type} [Writable α] : Writable (Option α) where
  document
    | none => return .null
    | some value => document value

/-- The failure of a value that is no key. -/
def noKey : Except Failure String := .error { cause := .keyNotText }

/-- The absence of a value is no key. -/
instance {α : Type} [KeyWritable α] : KeyWritable (Option α) where
  key
    | none => noKey
    | some value => key value

instance {α : Type} [Writable α] : Writable (List α) where
  document := ofElements

instance {α β : Type} [Writable α] [Writable β] : Writable (α × β) where
  document p := return .array [← document p.1, ← document p.2]

/-- A pair is no key. -/
instance {α β : Type} : KeyWritable (α × β) where
  key _ := noKey

end Multiway.Json
