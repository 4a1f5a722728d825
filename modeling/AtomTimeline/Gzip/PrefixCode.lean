import AtomTimeline.Gzip.Bits

/-!
Prefix codes given by the lengths of their code words. Words of one length are consecutive numbers,
handed out in the order of the symbols, and shorter words come first.

* `PrefixCode.next` reads a symbol; it walks down the lengths, and at each it knows the first word
  of that length.
* `PrefixCode.isComplete` says that every sequence of bits begins with a code word.
-/

namespace AtomTimeline

/-- Why compressed data cannot be expanded to its end. -/
inductive ExpandFault where
  | cutOff
  | corrupt
  deriving DecidableEq, Repr

/-- The longest code word. -/
def maxCodeLength : Nat := 15

/-- A prefix code: for each length of code words from 1 on, the symbols that have it. -/
structure PrefixCode where
  levels : List (Array Nat)
  deriving DecidableEq, Repr

namespace PrefixCode

/-- The symbols whose code words have the given length. -/
def symbolsOfLength (lengths : List Nat) (n : Nat) : Array Nat :=
  (lengths.zipIdx.filterMap fun (length, symbol) =>
    if length = n then some symbol else none).toArray

/-- A list without the empty arrays at its end, its first element apart. -/
def trimEmpty : List (Array Nat) → List (Array Nat)
  | [] => []
  | level :: levels =>
    level :: (levels.reverse.dropWhile Array.isEmpty).reverse

/-- The code in which symbol `i` has a word of the `i`-th length; none if that is zero. -/
def ofLengths (lengths : List Nat) : PrefixCode :=
  ⟨trimEmpty ((List.range' 1 maxCodeLength).map (symbolsOfLength lengths))⟩

/-- The number of symbols that have a code word. -/
def size (code : PrefixCode) : Nat := code.levels.foldl (fun n level => n + level.size) 0

/-- The share of all bit sequences that begin with a code word, in units of `2 ^ -remaining`. -/
def share : (remaining : Nat) → List (Array Nat) → Nat
  | 0, _ => 0
  | _ + 1, [] => 0
  | remaining + 1, level :: levels => (level.size <<< remaining) + share remaining levels

/-- Every bit sequence that is long enough begins with just one code word. -/
def isComplete (code : PrefixCode) : Bool :=
  share maxCodeLength code.levels = 1 <<< maxCodeLength

/-- There is no code word, or just one and that a single bit. -/
def isSparse (code : PrefixCode) : Bool := code.size ≤ 1 && code.levels.length ≤ 1

/-- Reads on in a code word whose bits so far have the value `word`, where `first` is the least word
of that many bits that is not used up. -/
def nextFrom (first word : Nat) :
    List (Array Nat) → BitReader → Except ExpandFault (Nat × BitReader)
  | [], _ => .error .corrupt
  | level :: levels, r =>
    match r.next? with
    | none => .error .cutOff
    | some (bit, r) =>
      let first := 2 * first
      let word := 2 * word + bit.toNat
      match level[word - first]? with
      | some symbol => .ok (symbol, r)
      | none => nextFrom (first + level.size) word levels r

/-- Reads a symbol. -/
def next (code : PrefixCode) (r : BitReader) : Except ExpandFault (Nat × BitReader) :=
  nextFrom 0 0 code.levels r

end PrefixCode

end AtomTimeline
