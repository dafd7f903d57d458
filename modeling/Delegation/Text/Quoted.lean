import Delegation.Text.Hidden

/-!
# Quoted text

Text between double quotes. The quote and the backslash get a backslash, five
controls have a letter, other hidden characters are written by number, and
everything else stands for itself.
-/

namespace Delegation.Text

/-- A hidden character by its code point, in lower-case hexadecimal. -/
def byNumber (c : Char) : List Char :=
  ['\\', 'u', '{'] ++ Nat.toDigits 16 c.toNat ++ ['}']

def quoteChar (c : Char) : List Char :=
  match c with
  | '\x00' => ['\\', '0']
  | '\t' => ['\\', 't']
  | '\r' => ['\\', 'r']
  | '\n' => ['\\', 'n']
  | '\\' => ['\\', '\\']
  | '"' => ['\\', '"']
  | c => if isHidden c then byNumber c else [c]

def quoted (s : String) : String :=
  String.ofList (['"'] ++ s.toList.flatMap quoteChar ++ ['"'])

end Delegation.Text
