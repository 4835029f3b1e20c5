import BatchMachine.Text.Plain

/-!
# Quoted text

A quoted text stands between double quotes. Quotes, backslashes and line controls get a
backslash, and every other character without a glyph of its own is shown by its code point in
hexadecimal.
-/

namespace BatchMachine.Text

/-- `c` as it stands in a quoted text. -/
def escape (c : Char) : List Char :=
  if c = '\x00' then ['\\', '0']
  else if c = '\t' then ['\\', 't']
  else if c = '\r' then ['\\', 'r']
  else if c = '\n' then ['\\', 'n']
  else if c = '"' ∨ c = '\\' then ['\\', c]
  else if isPlain c then [c]
  else ['\\', 'u', '\x7b'] ++ Nat.toDigits 16 c.toNat ++ ['\x7d']

/-- `s` between double quotes, each of its characters escaped. -/
def quoted (s : String) : String :=
  "\"" ++ String.ofList (s.toList.flatMap escape) ++ "\""

end BatchMachine.Text
