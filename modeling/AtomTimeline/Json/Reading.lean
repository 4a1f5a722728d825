import AtomTimeline.Json.Fault
import AtomTimeline.Text.Utf8

/-!
Reading the parts of a JSON text. Each reader takes the bytes not yet read and gives, beside what it
read, those behind it; a fault comes with the bytes unread where it shows.

* `readString` reads a string behind its opening quote, `readNumber` a number behind its sign.
* `wrongValue` is the fault of a value that is not of the expected type. Values that hold no others
  are read to their end for it, so that a fault within them shows first.
-/

namespace AtomTimeline

namespace Json

/-- A fault and the bytes unread where it shows. -/
abbrev FaultAt := JsonFault × Bytes

/-- The byte of an ASCII character. -/
def ascii (c : Char) : UInt8 := c.toUInt8

/-- The bytes of an ASCII text. -/
def asciiBytes (s : String) : Bytes := s.toList.map ascii

/-- The fault that the byte in front of the unread ones cannot stand there; it counts as read. -/
def unexpected (fault : JsonFault) (unread : Bytes) : FaultAt := (fault, unread.drop 1)

/-- A byte that only separates the parts of a text. -/
def isSpace (x : UInt8) : Bool :=
  x = ascii ' ' || x = ascii '\n' || x = ascii '\t' || x = ascii '\r'

/-- What is left behind blanks. -/
def skipBlanks (b : Bytes) : Bytes := b.dropWhile isSpace

/-- Reads the rest of a word. -/
def readWord : (word : Bytes) → Bytes → Except FaultAt Bytes
  | [], b => .ok b
  | _ :: _, [] => .error (.endOfText .value, [])
  | w :: word, x :: b => if x = w then readWord word b else .error (.expectedWord, b)

/-! ### Strings -/

/-- The value of a hexadecimal digit. -/
def hexDigit? (x : UInt8) : Option Nat :=
  if ascii '0' ≤ x ∧ x ≤ ascii '9' then some (x - ascii '0').toNat
  else if ascii 'a' ≤ x ∧ x ≤ ascii 'f' then some ((x - ascii 'a').toNat + 10)
  else if ascii 'A' ≤ x ∧ x ≤ ascii 'F' then some ((x - ascii 'A').toNat + 10)
  else none

/-- Reads four hexadecimal digits off the front. -/
def readUnit (b : Bytes) : Except FaultAt Nat :=
  match Bytes.splitFront? 4 b with
  | none => .error (.endOfText .string, [])
  | some (digits, rest) =>
    match digits.mapM hexDigit? with
    | some ds => .ok (ds.foldl (fun n d => 16 * n + d) 0)
    | none => .error (.invalidEscape, rest)

/-- The first half of a pair. -/
def isHighHalf (n : Nat) : Bool := 0xD800 ≤ n && n ≤ 0xDBFF

/-- The second half of a pair. -/
def isLowHalf (n : Nat) : Bool := 0xDC00 ≤ n && n ≤ 0xDFFF

/-- Reads a byte that must stand within an escape. -/
def readEscapePart (expected : UInt8) : Bytes → Except FaultAt Bytes
  | [] => .error (.endOfText .string, [])
  | x :: b => if x = expected then .ok b else .error (.escapeEnds, b)

/-- Reads the second half of the pair that begins with `high`; gives the character of the pair. -/
def readLowHalf (high : Nat) (b : Bytes) : Except FaultAt Char := do
  let b ← readEscapePart (ascii '\\') b
  let b ← readEscapePart (ascii 'u') b
  let low ← readUnit b
  if isLowHalf low then pure (Char.ofNat (0x10000 + (high - 0xD800) * 1024 + (low - 0xDC00)))
  else throw (.loneSurrogate, b.drop 4)

/-- Reads an escape of a number behind its letter; gives its character and how many bytes it takes,
the letter among them. -/
def readNumberedEscape (b : Bytes) : Except FaultAt (Char × Nat) := do
  let n ← readUnit b
  if isLowHalf n then throw (.loneSurrogate, b.drop 4)
  else if isHighHalf n then
    let c ← readLowHalf n (b.drop 4)
    pure (c, 11)
  else pure (Char.ofNat n, 5)

/-- The characters that an escape of one letter stands for. -/
def namedEscapes : List (UInt8 × Char) :=
  [(ascii '"', '"'), (ascii '\\', '\\'), (ascii '/', '/'), (ascii 'b', '\x08'),
    (ascii 'f', '\x0c'), (ascii 'n', '\n'), (ascii 'r', '\r'), (ascii 't', '\t')]

/-- Reads an escape behind its backslash; gives its character and how many bytes it takes. -/
def readEscape (b : Bytes) : Except FaultAt (Char × Nat) :=
  match b with
  | [] => .error (.endOfText .string, [])
  | x :: rest =>
    if x = ascii 'u' then readNumberedEscape rest
    else
      match namedEscapes.lookup x with
      | some c => .ok (c, 1)
      | none => .error (.invalidEscape, rest)

/-- Reads the bytes of a string up to its closing quote. -/
def readStringBytes (b : Bytes) : Except FaultAt (Bytes × Bytes) :=
  match b with
  | [] => .error (.endOfText .string, [])
  | x :: b =>
    if x = ascii '"' then .ok ([], b)
    else if x = ascii '\\' then
      match readEscape b with
      | .error e => .error e
      | .ok (c, length) =>
        match readStringBytes (b.drop length) with
        | .error e => .error e
        | .ok (more, rest) => .ok (Utf8.encode c.toString ++ more, rest)
    else if x < 0x20 then .error (.controlCharacter, b)
    else
      match readStringBytes b with
      | .error e => .error e
      | .ok (more, rest) => .ok (x :: more, rest)
termination_by b.length
decreasing_by all_goals simp; try omega

/-- Reads a string behind its opening quote. -/
def readString (b : Bytes) : Except FaultAt (String × Bytes) := do
  let (content, rest) ← readStringBytes b
  pure (Utf8.lossyText content, rest)

/-! ### Numbers -/

/-- The value of a digit. -/
def digit? (x : UInt8) : Option Nat :=
  if ascii '0' ≤ x ∧ x ≤ ascii '9' then some (x - ascii '0').toNat else none

/-- A digit comes next. -/
def digitNext (b : Bytes) : Bool := (b.head?.bind digit?).isSome

/-- Reads digits onto `n` as long as it stays below `limit`; `taken` counts them. -/
def takeDigits (limit n taken : Nat) : Bytes → Nat × Nat × Bytes
  | [] => (n, taken, [])
  | x :: b =>
    match digit? x with
    | none => (n, taken, x :: b)
    | some d =>
      if 10 * n + d < limit then takeDigits limit (10 * n + d) (taken + 1) b
      else (n, taken, x :: b)

/-- The number of digits that come next, and what is left behind them. -/
def skipDigits (b : Bytes) : Nat × Bytes :=
  let rest := b.dropWhile fun x => (digit? x).isSome
  (b.length - rest.length, rest)

/-- The bound of the digits of a number that are kept. -/
def significandLimit : Nat := UInt64.size

/-- The bound of the exponents that are kept. -/
def exponentLimit : Nat := 1 <<< 31

/-- The greatest power of ten below the greatest real. -/
def maxPower : Nat := 308

/-- A power of ten as a real. -/
def powerOfTen (k : Nat) : Float := Float.ofScientific 1 false k

/-- A real times a power of ten, unless that is out of range. Powers that are too small for a real
are applied in several steps. -/
def scale (f : Float) (exponent : Int) : Option Float :=
  if exponent.natAbs ≤ maxPower then
    if 0 ≤ exponent then
      let scaled := f * powerOfTen exponent.natAbs
      if scaled.isInf then none else some scaled
    else some (f / powerOfTen exponent.natAbs)
  else if f == 0 then some f
  else if 0 ≤ exponent then none
  else scale (f / powerOfTen maxPower) (exponent + maxPower)
termination_by (-exponent).toNat
decreasing_by simp only [maxPower] at *; omega

/-- The real with the given digits and exponent. -/
def real (negative : Bool) (n : Nat) (exponent : Int) (rest : Bytes) :
    Except FaultAt (FoundValue × Bytes) :=
  match scale (UInt64.ofNat n).toFloat exponent with
  | some f => .ok (.real (if negative then -f else f).toBits, rest)
  | none => .error (.numberOutOfRange, rest)

/-- Reads an exponent behind its letter and sign. -/
def readExponentDigits (negative : Bool) (n : Nat) (before : Int) (sign : Int) (b : Bytes) :
    Except FaultAt (FoundValue × Bytes) :=
  match b with
  | [] => .error (.endOfText .value, [])
  | x :: rest =>
    match digit? x with
    | none => .error (.invalidNumber, rest)
    | some d =>
      let (exponent, _, rest) := takeDigits exponentLimit d 0 rest
      if digitNext rest then
        if n ≠ 0 ∧ 0 < sign then .error (unexpected .numberOutOfRange rest)
        else .ok (.real (if negative then -0.0 else 0.0 : Float).toBits, (skipDigits rest).2)
      else real negative n (before + sign * exponent) rest

/-- Reads an exponent behind its letter. -/
def readExponent (negative : Bool) (n : Nat) (before : Int) (b : Bytes) :
    Except FaultAt (FoundValue × Bytes) :=
  match b with
  | x :: rest =>
    if x = ascii '+' then readExponentDigits negative n before 1 rest
    else if x = ascii '-' then readExponentDigits negative n before (-1) rest
    else readExponentDigits negative n before 1 b
  | [] => readExponentDigits negative n before 1 b

/-- Reads the exponent of a real if there is one. -/
def readRealEnd (negative : Bool) (n : Nat) (exponent : Int) (b : Bytes) :
    Except FaultAt (FoundValue × Bytes) :=
  match b with
  | x :: rest =>
    if x = ascii 'e' ∨ x = ascii 'E' then readExponent negative n exponent rest
    else real negative n exponent b
  | [] => real negative n exponent b

/-- Reads the digits behind a point. Those that do not fit are ignored. -/
def readFraction (negative : Bool) (n : Nat) (exponent : Int) (b : Bytes) :
    Except FaultAt (FoundValue × Bytes) :=
  let (n, taken, rest) := takeDigits significandLimit n 0 b
  if digitNext rest then readRealEnd negative n (exponent - taken) (skipDigits rest).2
  else if taken = 0 then
    if rest = [] then .error (.endOfText .value, []) else .error (unexpected .invalidNumber rest)
  else readRealEnd negative n (exponent - taken) rest

/-- A whole number. One below the range of words is a real, and so is zero with a sign. -/
def whole (negative : Bool) (n : Nat) : FoundValue :=
  if negative then
    if 0 < n ∧ n ≤ 1 <<< 63 then .integer (-n) else .real (-(UInt64.ofNat n).toFloat).toBits
  else .integer n

/-- Reads on behind the whole part of a number, of which the last `dropped` digits did not fit. -/
def readNumberEnd (negative : Bool) (n dropped : Nat) (b : Bytes) :
    Except FaultAt (FoundValue × Bytes) :=
  match b with
  | x :: rest =>
    if x = ascii '.' then readFraction negative n dropped rest
    else if x = ascii 'e' ∨ x = ascii 'E' then readExponent negative n dropped rest
    else if dropped = 0 then .ok (whole negative n, b)
    else real negative n dropped b
  | [] => if dropped = 0 then .ok (whole negative n, b) else real negative n dropped b

/-- Reads a number behind its sign. -/
def readNumber (negative : Bool) (b : Bytes) : Except FaultAt (FoundValue × Bytes) :=
  match b with
  | [] => .error (.endOfText .value, [])
  | x :: rest =>
    match digit? x with
    | none => .error (.invalidNumber, rest)
    | some 0 =>
      if digitNext rest then .error (unexpected .invalidNumber rest)
      else readNumberEnd negative 0 0 rest
    | some d =>
      let (n, _, rest) := takeDigits significandLimit d 0 rest
      let (dropped, rest) := skipDigits rest
      readNumberEnd negative n dropped rest

/-! ### Values of the wrong type -/

/-- The fault that a value of another type was expected, or a fault within the value. -/
def wrongTypeOf (expected : String) : Except FaultAt (FoundValue × Bytes) → FaultAt
  | .ok (found, rest) => (.wrongType found expected, rest)
  | .error e => e

/-- Reads the rest of a word that stands for a value. -/
def readWordValue (word : String) (value : FoundValue) (b : Bytes) :
    Except FaultAt (FoundValue × Bytes) := do
  let rest ← readWord (asciiBytes word) b
  pure (value, rest)

/-- The fault of a value that is not of the expected type. -/
def wrongValue (expected : String) (b : Bytes) : FaultAt :=
  match b with
  | [] => (.endOfText .value, [])
  | x :: rest =>
    if x = ascii 'n' then wrongTypeOf expected (readWordValue "ull" .null rest)
    else if x = ascii 't' then wrongTypeOf expected (readWordValue "rue" (.boolean true) rest)
    else if x = ascii 'f' then wrongTypeOf expected (readWordValue "alse" (.boolean false) rest)
    else if x = ascii '-' then wrongTypeOf expected (readNumber true rest)
    else if (digit? x).isSome then wrongTypeOf expected (readNumber false b)
    else if x = ascii '"' then
      wrongTypeOf expected (do
        let (s, rest) ← readString rest
        pure (.text s, rest))
    else if x = ascii '[' then (.wrongType .list expected, b)
    else if x = ascii '\x7b' then (.wrongType .object expected, b)
    else unexpected .expectedValue b

/-- Reads a string value. -/
def readText (expected : String) (b : Bytes) : Except FaultAt (String × Bytes) :=
  let b := skipBlanks b
  match b with
  | x :: rest => if x = ascii '"' then readString rest else .error (wrongValue expected b)
  | [] => .error (wrongValue expected b)

/-- Reads a string value or null. -/
def readOptionalText (expected : String) (b : Bytes) :
    Except FaultAt (Option String × Bytes) := do
  let b := skipBlanks b
  if b.head? = some (ascii 'n') then
    let rest ← readWord (asciiBytes "null") b
    pure (none, rest)
  else
    let (s, rest) ← readText expected b
    pure (some s, rest)

/-! ### Lists and objects -/

/-- Goes on to the next item of a list; none comes before the closing bracket, which stays unread.
-/
def nextItem (first : Bool) (b : Bytes) : Except FaultAt (Option Bytes) :=
  let b := skipBlanks b
  match b with
  | [] => .error (.endOfText .list, [])
  | x :: rest =>
    if x = ascii ']' then .ok none
    else if first then .ok (some b)
    else if x = ascii ',' then
      let rest := skipBlanks rest
      match rest with
      | [] => .error (.endOfText .value, [])
      | y :: _ => if y = ascii ']' then .error (unexpected .trailingComma rest) else .ok (some rest)
    else .error (unexpected .expectedListEnd b)

/-- Closes a list of which no more items are wanted. -/
def closeList (b : Bytes) : Except FaultAt Bytes :=
  let b := skipBlanks b
  match b with
  | [] => .error (.endOfText .list, [])
  | x :: rest =>
    if x = ascii ']' then .ok rest
    else if x = ascii ',' then
      let rest := skipBlanks rest
      if rest.head? = some (ascii ']') then .error (unexpected .trailingComma rest)
      else .error (unexpected .trailingText rest)
    else .error (unexpected .trailingText b)

/-- Goes on to the next key of an object; the bytes given are those behind its opening quote. None
comes before the closing brace, which stays unread. -/
def nextKey (first : Bool) (b : Bytes) : Except FaultAt (Option Bytes) :=
  let b := skipBlanks b
  match b with
  | [] => .error (.endOfText .object, [])
  | x :: rest =>
    if x = ascii '\x7d' then .ok none
    else if first then
      if x = ascii '"' then .ok (some rest) else .error (unexpected .keyNotString b)
    else if x = ascii ',' then
      let rest := skipBlanks rest
      match rest with
      | [] => .error (.endOfText .value, [])
      | y :: after =>
        if y = ascii '"' then .ok (some after)
        else if y = ascii '\x7d' then .error (unexpected .trailingComma rest)
        else .error (unexpected .keyNotString rest)
    else .error (unexpected .expectedObjectEnd b)

/-- Reads the colon behind a key. -/
def readColon (b : Bytes) : Except FaultAt Bytes :=
  let b := skipBlanks b
  match b with
  | [] => .error (.endOfText .object, [])
  | x :: rest => if x = ascii ':' then .ok rest else .error (unexpected .expectedColon b)

/-- The place where a fault of a key shows: behind the blanks that follow the key, and behind the
closing brace if that comes next. -/
def behindKey (b : Bytes) : Bytes :=
  let b := skipBlanks b
  if b.head? = some (ascii '\x7d') then b.drop 1 else b

/-- Reads the end of a text, behind its value. -/
def readEnd (b : Bytes) : Except FaultAt Unit :=
  match skipBlanks b with
  | [] => .ok ()
  | rest => .error (unexpected .trailingText rest)

end Json

end AtomTimeline
