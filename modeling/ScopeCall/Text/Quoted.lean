import ScopeCall.Text.Printable

/-!
# `ScopeCall.Text.Quoted` — texts in quotes

A quoted text stands between double quotes. Quotes and backslashes in it are escaped, and so is every
character that cannot be shown as itself: by a letter where there is one, else by its code point.

## Contents
- `escape` for one character, `quote` for a text.
-/

namespace ScopeCall.Text

/-- A natural number in lower-case hexadecimal digits. -/
def hex (n : Nat) : String := String.ofList (Nat.toDigits 16 n)

/-- A natural number in hexadecimal, with leading zeros up to `width`. -/
def hexPadded (width n : Nat) : String :=
  let digits := Nat.toDigits 16 n
  String.ofList (List.replicate (width - digits.length) '0' ++ digits)

/-- One character inside quotes. -/
def escape (c : Char) : String :=
  match c with
  | '\x00' => "\\0"
  | '\t'   => "\\t"
  | '\r'   => "\\r"
  | '\n'   => "\\n"
  | '"'    => "\\\""
  | '\\'   => "\\\\"
  | c      => if isPrintable c then c.toString else "\\u\x7b" ++ hex c.toNat ++ "\x7d"

/-- A text in quotes. -/
def quote (text : String) : String := "\"" ++ String.join (text.toList.map escape) ++ "\""

end ScopeCall.Text
