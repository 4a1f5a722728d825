import AtomTimeline.Text.Hex
import AtomTimeline.Text.Unseen

/-!
Texts between quotes.

* `quoted` writes a text as messages show it, with what cannot be seen spelled out.
-/

namespace AtomTimeline

/-- A character within quotes. -/
def quotedChar (c : Char) : String :=
  if c = '"' then "\\\""
  else if c = '\\' then "\\\\"
  else if c = '\n' then "\\n"
  else if c = '\r' then "\\r"
  else if c = '\t' then "\\t"
  else if c = '\x00' then "\\0"
  else if isUnseen c then "\\u\x7b" ++ hexDigits c.toNat ++ "\x7d"
  else c.toString

/-- A text between quotes. -/
def quoted (s : String) : String :=
  "\"" ++ String.join (s.toList.map quotedChar) ++ "\""

end AtomTimeline
