import Multiway.Text.Visible

/-!
The written forms of values.

A value has two of them. The plain form is the one for readers: a text stands for itself. The
literal form shows what kind of value it is: a text is quoted and the characters in it that a
reader cannot see are escaped. A literal can be written on one line, or with every member of a
group on a line of its own, four blanks deeper than the group.
-/

namespace Multiway.Text

/-- The literal form of a value, before it is laid out. -/
inductive Literal where
  /-- A form without parts. -/
  | atom (text : String)
  /-- A key and what belongs to it. -/
  | entry (key value : Literal)
  /-- Members between two brackets. -/
  | group (opening : String) (members : List Literal) (closing : String)

namespace Literal

mutual

/-- The form on one line. -/
def compact : Literal → String
  | .atom text => text
  | .entry key value => key.compact ++ ": " ++ value.compact
  | .group opening members closing => opening ++ ", ".intercalate (compactAll members) ++ closing

/-- The members of a group, each on one line. -/
def compactAll : List Literal → List String
  | [] => []
  | member :: rest => member.compact :: compactAll rest

end

/-- The blanks in front of a line at a depth. -/
def indent (depth : Nat) : String := "".pushn ' ' (4 * depth)

mutual

/-- The form over several lines, when it begins at some depth. -/
def prettyAt (depth : Nat) : Literal → String
  | .atom text => text
  | .entry key value => key.prettyAt depth ++ ": " ++ value.prettyAt depth
  | .group opening [] closing => opening ++ closing
  | .group opening (member :: rest) closing =>
    opening ++ "\n" ++ linesAt (depth + 1) (member :: rest) ++ indent depth ++ closing

/-- The members of a group, each on lines of its own that end in a comma. -/
def linesAt (depth : Nat) : List Literal → String
  | [] => ""
  | member :: rest => indent depth ++ member.prettyAt depth ++ ",\n" ++ linesAt depth rest

end

/-- The form over several lines. -/
def pretty (literal : Literal) : String := literal.prettyAt 0

/-- A character between `quote`s: the quote and the backslash are escaped, and so are the
characters that are not visible, the usual controls by a letter and the others by their number in
base sixteen. -/
def escaped (quote c : Char) : String :=
  if c = quote ∨ c = '\\' then String.ofList ['\\', c]
  else if c = '\x00' then "\\0"
  else if c = '\t' then "\\t"
  else if c = '\n' then "\\n"
  else if c = '\r' then "\\r"
  else if isVisible c then c.toString
  else "\\u\x7b" ++ String.ofList (Nat.toDigits 16 c.toNat) ++ "\x7d"

/-- A text between quotes. -/
def quoted (quote : Char) (text : List Char) : String :=
  quote.toString ++ String.join (text.map (escaped quote)) ++ quote.toString

end Literal

/-- Values that have written forms. Unless a type has its own plain form, it is the literal one. -/
class Printable (α : Type) where
  /-- The form that shows what kind of value it is. -/
  literal : α → Literal
  /-- The form for readers. -/
  plain : α → String := fun value => (literal value).compact

open Printable

instance : Printable Int64 where
  literal n := .atom (toString n.toInt)

instance : Printable UInt8 where
  literal n := .atom (toString n.toNat)

instance : Printable UInt32 where
  literal n := .atom (toString n.toNat)

instance : Printable Bool where
  literal b := .atom (if b then "true" else "false")

instance : Printable Unit where
  literal _ := .group "(" [] ")"

instance : Printable String where
  literal s := .atom (Literal.quoted '"' s.toList)
  plain s := s

instance : Printable Char where
  literal c := .atom (Literal.quoted '\'' [c])
  plain c := c.toString

instance {α β : Type} [Printable α] [Printable β] : Printable (α × β) where
  literal p := .group "(" [literal p.1, literal p.2] ")"

instance {α : Type} [Printable α] : Printable (Option α) where
  literal
    | none => .atom "None"
    | some value => .group "Some(" [literal value] ")"

instance {α : Type} [Printable α] : Printable (List α) where
  literal values := .group "[" (values.map literal) "]"

/-- The literal form of a sequence of entries. -/
def literalEntries {K V : Type} [Printable K] [Printable V] (entries : List (K × V)) : Literal :=
  .group "\x7b" (entries.map fun e => .entry (literal e.1) (literal e.2)) "\x7d"

/-- The literal form of a collection without values. -/
def literalElements {T : Type} [Printable T] (elements : List T) : Literal :=
  .group "\x7b" (elements.map literal) "\x7d"

/-- The plain form of a sequence of entries. -/
def plainEntries {K V : Type} [Printable K] [Printable V] (entries : List (K × V)) : String :=
  "\x7b" ++ ", ".intercalate (entries.map fun e => plain e.1 ++ ": " ++ plain e.2) ++ "\x7d"

/-- The plain form of a collection without values. -/
def plainElements {T : Type} [Printable T] (elements : List T) : String :=
  "\x7b" ++ ", ".intercalate (elements.map plain) ++ "\x7d"

end Multiway.Text
