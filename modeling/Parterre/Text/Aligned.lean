/-! # Aligned text

Text cut to a number of characters and filled up with blanks to a width. -/
namespace Parterre.Text

/-- The side that text keeps to when it is filled up. -/
inductive Alignment where
  | left
  | right
  | center
  deriving DecidableEq

/-- Blanks to the left of a text that lacks `missing` characters; an odd one out of the two sides
of a centered text goes to the right. -/
def Alignment.before (missing : Nat) : Alignment → Nat
  | left => 0
  | right => missing
  | center => missing / 2

/-- The first characters of a text, up to `limit` of them, filled up to `width`. -/
def aligned (text : String) (alignment : Alignment) (width : Nat) (limit : Option Nat) : String :=
  let shown := match limit with
    | some n => text.toList.take n
    | none => text.toList
  let missing := width - shown.length
  let before := alignment.before missing
  String.ofList (List.replicate before ' ' ++ shown ++ List.replicate (missing - before) ' ')

end Parterre.Text
