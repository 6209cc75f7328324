import Multiway.Text.Extending
import Multiway.Text.Unassigned

/-!
Characters that a reader can see.

A character of a written text is visible if it leaves a mark of its own. Controls, formats,
separators, the fillers of Hangul, characters for private use and code points without a character
leave none, or none that two readers agree on, and a mark that is drawn onto the character before
it cannot be told from that one. The plain blank is the one separator that counts as visible.
-/

namespace Multiway.Text

/-- The code points of controls, formats, characters for private use and separators other than
the plain blank, which are the general categories Cc, Cf, Co, Zl, Zp and Zs, and of the fillers of
Hangul, the letters with the property Default_Ignorable_Code_Point: they keep the place of a
missing letter and are drawn as nothing. -/
def markless : List (Nat × Nat) :=
  [(0x0, 0x1f), (0x7f, 0xa0), (0xad, 0xad), (0x600, 0x605), (0x61c, 0x61c), (0x6dd, 0x6dd),
   (0x70f, 0x70f), (0x890, 0x891), (0x8e2, 0x8e2), (0x115f, 0x1160), (0x1680, 0x1680),
   (0x180e, 0x180e), (0x2000, 0x200f), (0x2028, 0x202f), (0x205f, 0x2064), (0x2066, 0x206f),
   (0x3000, 0x3000), (0x3164, 0x3164), (0xe000, 0xf8ff), (0xfeff, 0xfeff), (0xffa0, 0xffa0),
   (0xfff9, 0xfffb), (0x110bd, 0x110bd), (0x110cd, 0x110cd), (0x13430, 0x1343f), (0x1bca0, 0x1bca3),
   (0x1d173, 0x1d17a), (0xe0001, 0xe0001), (0xe0020, 0xe007f), (0xf0000, 0xffffd),
   (0x100000, 0x10fffd)]

/-- Whether a character leaves no mark, or none that has a meaning of its own. -/
def isMarkless (c : Char) : Bool := covers markless c.toNat

/-- Whether a character leaves a mark of its own. -/
def isVisible (c : Char) : Bool := !(isMarkless c || isExtending c || isUnassigned c)

/-- The table is in order, so the look-up in it is right. -/
theorem ascends_markless : ascends markless = true := by decide +kernel

/-- Below 128 the visible characters are the ones from the blank to the tilde. -/
theorem isVisible_iff_of_lt {c : Char} (h : c.toNat < 128) :
    isVisible c = true ↔ 32 ≤ c.toNat ∧ c.toNat < 127 := by
  have table : ∀ n < 128,
      (!(covers markless n || covers extending n || covers unassigned n)) = true ↔
        32 ≤ n ∧ n < 127 := by
    decide +kernel
  exact table c.toNat h

example : extent markless = 137725 := by decide +kernel

example : isVisible ' ' = true ∧ isVisible '~' = true ∧ isVisible 'é' = true ∧
    isVisible '日' = true ∧ isVisible '\u2764' = true := by decide +kernel

example : isVisible '\x7f' = false ∧ isVisible '\u00ad' = false ∧ isVisible '\u3000' = false ∧
    isVisible '\u3164' = false ∧ isVisible '\u0301' = false ∧ isVisible '\uffff' = false := by
  decide +kernel

end Multiway.Text
