/-!
The shortest decimal that reads back as a given double-precision real.

* `Binary.ofBits` takes a real apart into `m · 2^q`; `Binary.shortest` finds the decimal with the
  fewest digits among those that round to it, and of these the nearest.
* For 1, 2, … 17 digits the two neighbours of the value on that decimal grid are tried: if any
  point of a grid rounds to the value, so does one of the neighbours.
-/

namespace AtomTimeline

/-- Which of two equally near decimals is taken. -/
inductive Tie where
  /-- The larger one. -/
  | up
  /-- The one with the even last digit. -/
  | even
  deriving DecidableEq, Repr

/-- A decimal number `digits · 10^exponent`. -/
structure Decimal where
  digits : Nat
  exponent : Int
  deriving DecidableEq, Repr

/-- A positive real `m · 2^q` with its neighbours. -/
structure Binary where
  m : Nat
  q : Int
  /-- The next smaller real is only half as far away as the next larger one. -/
  closeBelow : Bool
  deriving DecidableEq, Repr

/-- What the bits of a double-precision real stand for. -/
inductive Real64 where
  | nan
  | infinite (negative : Bool)
  | zero (negative : Bool)
  | finite (negative : Bool) (magnitude : Binary)
  deriving DecidableEq, Repr

/-- The real with the given bits. -/
def Real64.ofBits (bits : UInt64) : Real64 :=
  let n := bits.toNat
  let negative : Bool := n >>> 63 = 1
  let exponent : Nat := n >>> 52 % 0x800
  let fraction : Nat := n % (1 <<< 52)
  if exponent = 2047 then
    if fraction = 0 then .infinite negative else .nan
  else if exponent = 0 then
    if fraction = 0 then .zero negative else .finite negative ⟨fraction, -1074, false⟩
  else
    .finite negative
      ⟨(1 <<< 52) + fraction, Int.ofNat exponent - 1075, fraction = 0 && 1 < exponent⟩

namespace Binary

/-- Whether `10^k` is at most the real. -/
def tenPowLe (b : Binary) (k : Int) : Bool :=
  Nat.pow 10 k.toNat <<< (-b.q).toNat ≤ Nat.pow 10 (-k).toNat * b.m <<< b.q.toNat

/-- The exponent of the leading decimal digit. The estimate from the binary exponent is this one or
one less. -/
def leadingExponent (b : Binary) : Int :=
  let estimate := ((b.m.log2 : Int) + b.q) * 30103 / 100000
  if b.tenPowLe (estimate + 1) then estimate + 1
  else if b.tenPowLe estimate then estimate
  else estimate - 1

/-- The real and the bounds of what rounds to it, in quarters of its last binary place. -/
def quarters (b : Binary) : Nat × Nat × Nat :=
  (if b.closeBelow then 4 * b.m - 1 else 4 * b.m - 2, 4 * b.m, 4 * b.m + 2)

/-- The neighbour of the real with a multiple of `10^exponent` that rounds to it, the nearer one if
both do. -/
def onGrid? (b : Binary) (tie : Tie) (exponent : Int) : Option Nat :=
  let (low, value, high) := b.quarters
  let unit := Nat.pow 10 (-exponent).toNat <<< (b.q - 2).toNat
  let step := Nat.pow 10 exponent.toNat <<< (2 - b.q).toNat
  let ends : Bool := b.m % 2 = 0
  let rounds (n : Nat) : Bool :=
    if ends then low * unit ≤ n * step && n * step ≤ high * unit
    else low * unit < n * step && n * step < high * unit
  let below := value * unit / step
  let above := below + 1
  match rounds below, rounds above with
  | false, false => none
  | true, false => some below
  | false, true => some above
  | true, true =>
    let down := value * unit - below * step
    let up := above * step - value * unit
    if down < up then some below
    else if up < down then some above
    else
      match tie with
      | .up => some above
      | .even => some (if below % 2 = 0 then below else above)

/-- A decimal without zeros at its end; each unit of fuel takes one away. -/
def trim : (fuel : Nat) → Decimal → Decimal
  | 0, d => d
  | fuel + 1, d =>
    if d.digits % 10 = 0 ∧ d.digits ≠ 0 then trim fuel ⟨d.digits / 10, d.exponent + 1⟩ else d

/-- Tries the grids with at most `left` digits more than `tried`. -/
def search (b : Binary) (tie : Tie) (leading : Int) : (left tried : Nat) → Decimal
  | 0, tried => ⟨(b.quarters).2.1, leading - tried⟩
  | left + 1, tried =>
    match b.onGrid? tie (leading - tried) with
    | some n => trim 20 ⟨n, leading - tried⟩
    | none => search b tie leading left (tried + 1)

/-- The most digits that the shortest decimal of a real can take. -/
def maxDigits : Nat := 17

/-- The shortest decimal that rounds to a real. -/
def shortest (b : Binary) (tie : Tie) : Decimal := search b tie b.leadingExponent maxDigits 0

end Binary

end AtomTimeline
