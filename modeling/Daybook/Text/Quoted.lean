import Daybook.Text.Printable

/-!
# Quoted text

A text in double quotes, as messages show it: a quote, a backslash and the usual control characters
are written with a backslash, and a character that cannot be shown is written by its number.
-/

namespace Daybook.Text.Quoted

/-- The number in hexadecimal notation, in small letters. -/
def hex (n : Nat) : String := String.ofList (Nat.toDigits 16 n)

/-- A character as it stands between the quotes. -/
def encodeChar (c : Char) : String :=
  match c with
  | '\x00' => "\\0"
  | '\t' => "\\t"
  | '\r' => "\\r"
  | '\n' => "\\n"
  | '"' => "\\\""
  | '\\' => "\\\\"
  | c => if isPrintable c then c.toString else "\\u\x7b" ++ hex c.toNat ++ "\x7d"

def encode (s : String) : String :=
  "\"" ++ String.join (s.toList.map encodeChar) ++ "\""

end Daybook.Text.Quoted
