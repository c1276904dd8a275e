import ChainSync.Text.Printable

/-!
# Quoted text

A quoted text or character stands between its quotes with its own kind of
quote and the backslash escaped, five controls by letter, and every other
unprintable character as `\u{…}` with the least number of digits.
-/

namespace ChainSync.Text

def hexDigits (n : Nat) : String :=
  String.ofList (Nat.toDigits 16 n)

/-- One character as it stands between two `quote`s. -/
def escapeChar (quote c : Char) : String :=
  if c = '\x00' then "\\0"
  else if c = '\t' then "\\t"
  else if c = '\r' then "\\r"
  else if c = '\n' then "\\n"
  else if c = '\\' then "\\\\"
  else if c = quote then String.ofList ['\\', c]
  else if isPrintable c then String.singleton c
  else "\\u\x7b" ++ hexDigits c.toNat ++ "\x7d"

def quoteChar (c : Char) : String :=
  "'" ++ escapeChar '\'' c ++ "'"

def quote (s : String) : String :=
  "\"" ++ String.join (s.toList.map (escapeChar '"')) ++ "\""

end ChainSync.Text
