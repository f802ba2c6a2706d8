/-! # Ranges of code points

A class of characters as the closed ranges of their code points, and the smallest of the classes
that quoted text depends on. -/
namespace Parterre.Text

/-- Closed ranges of code points, each its least and its greatest member. -/
abbrev CodeRanges := List (Nat × Nat)

def CodeRanges.has (rs : CodeRanges) (n : Nat) : Bool := rs.any fun r => r.1 ≤ n && n ≤ r.2

/-- The property Default_Ignorable_Code_Point of Unicode 17.0: format characters, fillers, joiners
and selectors, which are drawn as nothing even by a display that does not know them. -/
def ignorables : CodeRanges :=
  [(0xad, 0xad), (0x34f, 0x34f), (0x61c, 0x61c), (0x115f, 0x1160), (0x17b4, 0x17b5),
    (0x180b, 0x180f), (0x200b, 0x200f), (0x202a, 0x202e), (0x2060, 0x206f), (0x3164, 0x3164),
    (0xfe00, 0xfe0f), (0xfeff, 0xfeff), (0xffa0, 0xffa0), (0xfff0, 0xfff8), (0x1bca0, 0x1bca3),
    (0x1d173, 0x1d17a), (0xe0000, 0xe0fff)]

/-- Whether a display may leave a character out. -/
def isIgnorable (c : Char) : Bool := ignorables.has c.toNat

end Parterre.Text
