import ShaderIR.Text.Extender
import ShaderIR.Text.Unprintable

/-! Quoted text: a string between double quotes, in which every character that could be mistaken
is written as an escape. -/

namespace ShaderIR.Text

def hex (n : Nat) : String := String.ofList (Nat.toDigits 16 n)

/-- A single quote stays as it is; what cannot be seen by itself is written by its code point. -/
def escape (c : Char) : String :=
  if c = '\x00' then "\\0"
  else if c = '\t' then "\\t"
  else if c = '\r' then "\\r"
  else if c = '\n' then "\\n"
  else if c = '\\' then "\\\\"
  else if c = '"' then "\\\""
  else if isExtender c || isUnprintable c then "\\u\x7b" ++ hex c.toNat ++ "\x7d"
  else c.toString

def quoted (s : String) : String :=
  "\"" ++ String.join (s.toList.map escape) ++ "\""

end ShaderIR.Text
