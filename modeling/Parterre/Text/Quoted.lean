import Parterre.Text.Extender
import Parterre.Text.Unprinted

/-! # Quoted text

A string between quotation marks, with marks, backslashes and characters that do not show by
themselves written as escapes. -/
namespace Parterre.Text

/-- Whether a character is one of the two halfwidth sound marks.  They extend the letter before
them, but are letters that take a place of their own. -/
def isSoundMark (c : Char) : Bool := c == '\uff9e' || c == '\uff9f'

def isHidden (c : Char) : Bool :=
  isUnprinted c || isExtender c && !isSoundMark c || isIgnorable c

/-- A character as it is written between quotation marks. -/
def escaped (c : Char) : List Char :=
  match c with
  | '"' => ['\\', '"']
  | '\\' => ['\\', '\\']
  | '\n' => ['\\', 'n']
  | '\r' => ['\\', 'r']
  | '\t' => ['\\', 't']
  | _ =>
    if c.toNat = 0 then ['\\', '0']
    else if isHidden c then ("\\u\x7b".toList ++ Nat.toDigits 16 c.toNat) ++ ['\x7d']
    else [c]

def quoted (s : String) : String :=
  String.ofList ('"' :: s.toList.flatMap escaped ++ ['"'])

end Parterre.Text
