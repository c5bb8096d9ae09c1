import TraceTally.Text.Bytes
import TraceTally.Text.Printable

/-!
# Texts quoted in messages

A text stands between double quotes; quotes and backslashes are escaped, line breaks, tabs and NUL
have short escapes, and what is not printable is written by its code point.
-/

namespace TraceTally.Text

/-- Hexadecimal digits without leading zeros. -/
def hexDigits (n : Nat) : List Char :=
  if n < 16 then [hexDigit n] else hexDigits (n / 16) ++ [hexDigit (n % 16)]

def quoteChar (c : Char) : List Char :=
  match c with
  | '"' => ['\\', '"']
  | '\\' => ['\\', '\\']
  | '\n' => ['\\', 'n']
  | '\r' => ['\\', 'r']
  | '\t' => ['\\', 't']
  | '\x00' => ['\\', '0']
  | c => if isPrintable c then [c] else "\\u\x7b".toList ++ hexDigits c.toNat ++ ['\x7d']

def quote (cs : List Char) : List Char := '"' :: cs.flatMap quoteChar ++ ['"']

example : quote ['a', '"', '\u200b'] = "\"a\\\"\\u\x7b200b\x7d\"".toList := by decide +kernel

end TraceTally.Text
