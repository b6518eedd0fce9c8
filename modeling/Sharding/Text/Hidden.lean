import Sharding.Text.Blank
import Sharding.Text.Extending
import Sharding.Text.Unassigned

/-!
# Hidden characters

A character is hidden when it shows nothing on its own: a control or a format character, a filler,
one for private use, an unassigned one, an extending mark, or white space other than the plain
space.
-/

namespace Sharding

/-- The ranges of the general category Cc. -/
def controlRanges : List (Nat × Nat) :=
  [(0x0, 0x1f), (0x7f, 0x9f)]

/-- The ranges of the general category Cf. -/
def formatRanges : List (Nat × Nat) :=
  [(0xad, 0xad), (0x600, 0x605), (0x61c, 0x61c), (0x6dd, 0x6dd), (0x70f, 0x70f), (0x890, 0x891),
   (0x8e2, 0x8e2), (0x180e, 0x180e), (0x200b, 0x200f), (0x202a, 0x202e), (0x2060, 0x2064),
   (0x2066, 0x206f), (0xfeff, 0xfeff), (0xfff9, 0xfffb), (0x110bd, 0x110bd), (0x110cd, 0x110cd),
   (0x13430, 0x1343f), (0x1bca0, 0x1bca3), (0x1d173, 0x1d17a), (0xe0001, 0xe0001),
   (0xe0020, 0xe007f)]

/-- The ranges of the general category Co. -/
def privateRanges : List (Nat × Nat) :=
  [(0xe000, 0xf8ff), (0xf0000, 0xffffd), (0x100000, 0x10fffd)]

/-- The ranges of the letters with the property Default_Ignorable_Code_Point: the Hangul fillers,
which stand for a letter that is left out. -/
def fillerRanges : List (Nat × Nat) :=
  [(0x115f, 0x1160), (0x3164, 0x3164), (0xffa0, 0xffa0)]

/-- Whether the character shows nothing on its own. -/
def isHidden (c : Char) : Bool :=
  inRanges c.toNat controlRanges || inRanges c.toNat formatRanges ||
    inRanges c.toNat fillerRanges || inRanges c.toNat privateRanges || isUnassigned c ||
    isExtending c || (isBlank c && c != ' ')

end Sharding
