import AtomTimeline.Bytes

/-!
Texts from bytes. The octets of a character are read one at a time; the first says how many are
owed and within which bounds the second must lie.

* `Utf8.decode` reads a byte string into characters; where octets form no character, the longest
  run of them that could have begun one counts as a single unreadable part.
* `Utf8.text?` is the text if every part can be read; `Utf8.lossyText` puts U+FFFD in place of the
  others.
-/

namespace AtomTimeline

namespace Utf8

/-- A character begun and not finished. -/
structure Partial where
  /-- The bits read so far. -/
  bits : Nat
  /-- The octets owed. -/
  owed : Nat
  /-- The least the next octet may be. -/
  low : Nat
  /-- The greatest the next octet may be. -/
  high : Nat
  deriving DecidableEq, Repr

/-- What an octet gives: the parts finished by it, and a character begun. -/
abbrev Step := List (Option Char) × Option Partial

/-- An octet at the start of a character. -/
def start (x : Nat) : Step :=
  if x < 0x80 then ([some (Char.ofNat x)], none)
  else if x < 0xC2 then ([none], none)
  else if x < 0xE0 then ([], some ⟨x - 0xC0, 1, 0x80, 0xBF⟩)
  else if x < 0xF0 then
    ([], some ⟨x - 0xE0, 2, if x = 0xE0 then 0xA0 else 0x80, if x = 0xED then 0x9F else 0xBF⟩)
  else if x < 0xF5 then
    ([], some ⟨x - 0xF0, 3, if x = 0xF0 then 0x90 else 0x80, if x = 0xF4 then 0x8F else 0xBF⟩)
  else ([none], none)

/-- An octet after what was read before. -/
def step (begun : Option Partial) (x : Nat) : Step :=
  match begun with
  | none => start x
  | some p =>
    if p.low ≤ x ∧ x ≤ p.high then
      let bits := p.bits * 64 + (x - 0x80)
      if p.owed = 1 then ([some (Char.ofNat bits)], none)
      else ([], some ⟨bits, p.owed - 1, 0x80, 0xBF⟩)
    else
      let (parts, begun) := start x
      (none :: parts, begun)

/-- The parts of a byte string behind what was read before. -/
def decodeFrom (begun : Option Partial) : Bytes → List (Option Char)
  | [] => if begun.isSome then [none] else []
  | x :: b =>
    let (parts, begun) := step begun x.toNat
    parts ++ decodeFrom begun b

/-- The characters of a byte string, nothing standing for each part that is no character. -/
def decode (b : Bytes) : List (Option Char) := decodeFrom none b

/-- The text of a byte string that is well-formed. -/
def text? (b : Bytes) : Option String :=
  ((decode b).mapM fun c => c).map String.ofList

/-- The text of a byte string, every part that is no character replaced. -/
def lossyText (b : Bytes) : String :=
  String.ofList ((decode b).map fun c => c.getD '\uFFFD')

/-- The bytes of a text. -/
def encode (s : String) : Bytes := s.toUTF8.toList

end Utf8

end AtomTimeline
