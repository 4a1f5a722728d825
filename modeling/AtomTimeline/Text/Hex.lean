/-!
Numbers in hexadecimal digits.

* `hexDigits` writes a number as messages and reports show it, in small letters.
-/

namespace AtomTimeline

/-- A number in hexadecimal digits, without zeros in front. -/
def hexDigits (n : Nat) : String := String.ofList (Nat.toDigits 16 n)

end AtomTimeline
