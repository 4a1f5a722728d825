import AtomTimeline.Decimal.Shortest
import AtomTimeline.Tables.Storage
import AtomTimeline.Text.Hex

/-!
Reals as text.

* `RealStyle` says how the shortest decimal of a real is laid out; `RealStyle.display` never uses an
  exponent, `RealStyle.json` uses one outside a middle range and writes no number where there is
  none.
* `ReportedValue.text` is the text of an argument's value.
-/

namespace AtomTimeline

/-- How reals are written. -/
structure RealStyle where
  tie : Tie
  /-- The exponents of the leading digit for which no exponent is written; all if absent. -/
  positional : Option (Int × Int)
  /-- What follows the digits of a whole number. -/
  whole : String
  nan : String
  infinity : String
  negativeInfinity : String

namespace RealStyle

/-- Reals as people read them: always positional, whole numbers without a point. -/
def display : RealStyle where
  tie := .up
  positional := none
  whole := ""
  nan := "NaN"
  infinity := "inf"
  negativeInfinity := "-inf"

/-- Reals in JSON: positional from `1e-5` to below `1e16`, with a digit behind the point, and null
where there is no number. -/
def json : RealStyle where
  tie := .even
  positional := some (-5, 15)
  whole := ".0"
  nan := "null"
  infinity := "null"
  negativeInfinity := "null"

/-- A run of zeros. -/
def zeros (n : Nat) : String := String.ofList (List.replicate n '0')

/-- A decimal without an exponent. -/
def positionalText (style : RealStyle) (d : Decimal) : String :=
  let digits := toString d.digits
  if 0 ≤ d.exponent then digits ++ zeros d.exponent.toNat ++ style.whole
  else
    let places := (-d.exponent).toNat
    if places < digits.length then
      let cs := digits.toList
      String.ofList (cs.take (cs.length - places)) ++ "." ++
        String.ofList (cs.drop (cs.length - places))
    else "0." ++ zeros (places - digits.length) ++ digits

/-- A decimal with one digit before the point and an exponent. -/
def scientificText (d : Decimal) : String :=
  let cs := (toString d.digits).toList
  let exponent := d.exponent + (cs.length : Int) - 1
  let mantissa :=
    match cs with
    | [] => ""
    | [c] => String.ofList [c]
    | c :: rest => String.ofList (c :: '.' :: rest)
  let sign := if 0 ≤ exponent then "+" else "-"
  mantissa ++ "e" ++ sign ++ toString exponent.natAbs

/-- A positive decimal. -/
def magnitude (style : RealStyle) (d : Decimal) : String :=
  let leading := d.exponent + ((toString d.digits).length : Int) - 1
  match style.positional with
  | none => style.positionalText d
  | some (least, most) =>
    if least ≤ leading ∧ leading ≤ most then style.positionalText d else scientificText d

/-- The text of the real with the given bits. -/
def text (style : RealStyle) (bits : UInt64) : String :=
  match Real64.ofBits bits with
  | .nan => style.nan
  | .infinite false => style.infinity
  | .infinite true => style.negativeInfinity
  | .zero negative => (if negative then "-0" else "0") ++ style.whole
  | .finite negative b =>
    (if negative then "-" else "") ++ style.magnitude (b.shortest style.tie)

end RealStyle

/-! ### Values -/

/-- The text of a value. -/
def Value.text : ReportedValue → String
  | int v => toString v.toInt
  | uint v => toString v.toNat
  | string s => s
  | real bits => RealStyle.display.text bits
  | pointer address => "0x" ++ hexDigits address.toNat
  | bool v => if v then "true" else "false"
  | null => "NULL"
  | bytes length => "<bytes size=" ++ toString length ++ ">"

end AtomTimeline
