import Groupcast.Text.Hidden

/-!
# Quoted text

Diagnostics show a text between double quotes. Quotes, backslashes and the common control
characters take a backslash, and any other character that has no visible form of its own is shown
by its number.
-/

namespace Groupcast.Quoted

/-- The number of a character: a backslash, the letter u, and hexadecimal digits in braces. -/
def byNumber (c : Char) : List Char :=
  ['\\', 'u', '\x7b'] ++ Nat.toDigits 16 c.toNat ++ ['\x7d']

/-- How one character is shown inside the quotes. -/
def shown (c : Char) : List Char :=
  match c with
  | '\x00' => ['\\', '0']
  | '\t' => ['\\', 't']
  | '\r' => ['\\', 'r']
  | '\n' => ['\\', 'n']
  | '\\' => ['\\', '\\']
  | '"' => ['\\', '"']
  | _ => if Hidden.isHidden c then byNumber c else [c]

/-- A text between double quotes. -/
def quote (text : String) : String :=
  String.ofList (['"'] ++ text.toList.flatMap shown ++ ['"'])

end Groupcast.Quoted
