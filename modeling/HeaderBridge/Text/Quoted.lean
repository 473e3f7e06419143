import HeaderBridge.Text.Printable

/-! # Quoted text

A text in double quotes, on one line: quotes, backslashes and the common
controls are escaped by a backslash, and characters that do not print are given
by their code point.
-/

namespace HeaderBridge.Text

def hexadecimal (n : Nat) : String := .ofList (Nat.toDigits 16 n)

def quoteChar (c : Char) : String :=
  if c = '\x00' then "\\0"
  else if c = '\t' then "\\t"
  else if c = '\r' then "\\r"
  else if c = '\n' then "\\n"
  else if c = '\\' then "\\\\"
  else if c = '"' then "\\\""
  else if isPrintable c then c.toString
  else "\\u\x7b" ++ hexadecimal c.toNat ++ "\x7d"

def quote (s : String) : String :=
  "\"" ++ String.join (s.toList.map quoteChar) ++ "\""

end HeaderBridge.Text
