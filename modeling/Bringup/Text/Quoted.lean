import Bringup.Text.Unprintable

/-!
# Quoted texts

`quote` writes a text between double quotes so that it can be shown inside a message: quotes and
backslashes behind a backslash, the common controls by their letters, and every other character
that could not be seen by its number.
-/

namespace Bringup.Text

/-- How one character stands inside a quoted text. -/
def escape (c : Char) : List Char :=
  match c with
  | '"' => ['\\', '"']
  | '\\' => ['\\', '\\']
  | '\n' => ['\\', 'n']
  | '\r' => ['\\', 'r']
  | '\t' => ['\\', 't']
  | _ =>
    if c.toNat = 0 then ['\\', '0']
    else if isUnprintable c then ['\\', 'u', '\x7b'] ++ Nat.toDigits 16 c.toNat ++ ['\x7d']
    else [c]

/-- A text between double quotes, with the characters that need it escaped. -/
def quote (s : String) : String :=
  String.ofList ('"' :: s.toList.flatMap escape ++ ['"'])

end Bringup.Text
