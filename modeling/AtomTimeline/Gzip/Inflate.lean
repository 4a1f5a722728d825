import AtomTimeline.Gzip.PrefixCode

/-!
Expanding compressed data: blocks of literal bytes and of copies from what was expanded before.

* `inflate` expands data up to its end or a fault; what was expanded before a fault is kept.
* Each loop takes at least one bit of the input per round, so the number of its bits bounds them.
-/

namespace AtomTimeline

/-- Expanding under way. -/
structure Expansion where
  input : BitReader
  output : Array UInt8

/-- A step of expanding. A fault keeps what was expanded before. -/
abbrev Expand := ExceptT ExpandFault (StateM Expansion)

namespace Expand

/-! ### Taking parts of the input -/

/-- Takes a bit. -/
def bit : Expand Bool := do
  let e ← get
  match e.input.next? with
  | some (bit, input) =>
    set { e with input }
    pure bit
  | none => throw .cutOff

/-- Takes a number of `n` bits, the lowest first. -/
def number : (n : Nat) → Expand Nat
  | 0 => pure 0
  | n + 1 => do
    let low ← bit
    let high ← number n
    pure (low.toNat + 2 * high)

/-- Takes a symbol. -/
def symbol (code : PrefixCode) : Expand Nat := do
  let e ← get
  match code.next e.input with
  | .ok (symbol, input) =>
    set { e with input }
    pure symbol
  | .error fault => throw fault

/-- Takes whole bytes. -/
def wholeBytes (n : Nat) : Expand Bytes := do
  let e ← get
  match Bytes.splitFront? n e.input.rest with
  | some (front, rest) =>
    set { e with input := ⟨[], rest⟩ }
    pure front
  | none => throw .cutOff

/-! ### Adding to the output -/

/-- Adds a byte. -/
def emit (x : UInt8) : Expand Unit := modify fun e => { e with output := e.output.push x }

/-- The output with `length` bytes added, each a copy of the one `distance` places before it. In
front of the first byte lie zeros. -/
def copied (distance : Nat) : (length : Nat) → Array UInt8 → Array UInt8
  | 0, output => output
  | length + 1, output =>
    let x := if distance ≤ output.size then output.getD (output.size - distance) 0 else 0
    copied distance length (output.push x)

/-- Adds a copy of what was expanded before. -/
def copy (distance length : Nat) : Expand Unit :=
  modify fun e => { e with output := copied distance length e.output }

/-! ### Blocks -/

/-- A block of bytes as they are. -/
def storedBlock : Expand Unit := do
  modify fun e => { e with input := e.input.align }
  let length := Bytes.toNatLE (← wholeBytes 2)
  let check := Bytes.toNatLE (← wholeBytes 2)
  if length + check ≠ 0xFFFF then throw .corrupt
  let e ← get
  let present := e.input.rest.take length
  set ({ input := ⟨[], e.input.rest.drop length⟩
         output := present.foldl Array.push e.output } : Expansion)
  if present.length < length then throw .cutOff

/-- The least length and the extra bits of each symbol from 257 on. -/
def lengthCodes : Array (Nat × Nat) :=
  #[(3, 0), (4, 0), (5, 0), (6, 0), (7, 0), (8, 0), (9, 0), (10, 0), (11, 1), (13, 1), (15, 1),
    (17, 1), (19, 2), (23, 2), (27, 2), (31, 2), (35, 3), (43, 3), (51, 3), (59, 3), (67, 4),
    (83, 4), (99, 4), (115, 4), (131, 5), (163, 5), (195, 5), (227, 5), (258, 0)]

/-- The least distance and the extra bits of each distance symbol. -/
def distanceCodes : Array (Nat × Nat) :=
  #[(1, 0), (2, 0), (3, 0), (4, 0), (5, 1), (7, 1), (9, 2), (13, 2), (17, 3), (25, 3), (33, 4),
    (49, 4), (65, 5), (97, 5), (129, 6), (193, 6), (257, 7), (385, 7), (513, 8), (769, 8),
    (1025, 9), (1537, 9), (2049, 10), (3073, 10), (4097, 11), (6145, 11), (8193, 12), (12289, 12),
    (16385, 13), (24577, 13)]

/-- The number a symbol stands for, with its extra bits. -/
def extended (codes : Array (Nat × Nat)) (symbol : Nat) : Expand Nat :=
  match codes[symbol]? with
  | none => throw .corrupt
  | some (least, extra) => do
    let more ← number extra
    pure (least + more)

/-- The symbol that ends a block. -/
def endOfBlock : Nat := 256

/-- The symbols of a block up to its end. -/
def symbols (literals distances : PrefixCode) : (fuel : Nat) → Expand Unit
  | 0 => throw .cutOff
  | fuel + 1 => do
    let s ← symbol literals
    if s < endOfBlock then
      emit (UInt8.ofNat s)
      symbols literals distances fuel
    else if s = endOfBlock then pure ()
    else
      let length ← extended lengthCodes (s - (endOfBlock + 1))
      let distance ← extended distanceCodes (← symbol distances)
      copy distance length
      symbols literals distances fuel

/-- The code of literals and lengths in a block that brings none. -/
def fixedLiterals : PrefixCode :=
  .ofLengths (List.replicate 144 8 ++ List.replicate 112 9 ++ List.replicate 24 7 ++
    List.replicate 8 8)

/-- The code of distances in a block that brings none. -/
def fixedDistances : PrefixCode := .ofLengths (List.replicate 32 5)

/-- The order in which the lengths of the code for code lengths are written. -/
def lengthOrder : List Nat := [16, 17, 18, 0, 8, 7, 9, 6, 10, 5, 11, 4, 12, 3, 13, 2, 14, 1, 15]

/-- A code that may be used: complete, or else of no more than a single word where that may be. -/
def usable (allowSparse : Bool) (code : PrefixCode) : Bool :=
  code.isComplete || (allowSparse && code.isSparse)

/-- Takes the code for code lengths. -/
def codeForLengths (count : Nat) : Expand PrefixCode := do
  let lengths ← (lengthOrder.take count).mapM fun s => do pure (s, ← number 3)
  let code := PrefixCode.ofLengths
    ((List.range lengthOrder.length).map fun s => (lengths.lookup s).getD 0)
  if usable false code then pure code else throw .corrupt

/-- Takes code lengths until there are `total`; `read` are those so far, the last first. -/
def codeLengths (code : PrefixCode) (total : Nat) : (fuel : Nat) → List Nat → Expand (List Nat)
  | 0, read => pure read.reverse
  | fuel + 1, read =>
    if total ≤ read.length then pure read.reverse
    else do
      let s ← symbol code
      if s < 16 then codeLengths code total fuel (s :: read)
      else if s = 16 then
        match read with
        | [] => throw .corrupt
        | last :: _ =>
          let n ← number 2
          codeLengths code total fuel (List.replicate (n + 3) last ++ read)
      else if s = 17 then
        let n ← number 3
        codeLengths code total fuel (List.replicate (n + 3) 0 ++ read)
      else
        let n ← number 7
        codeLengths code total fuel (List.replicate (n + 11) 0 ++ read)

/-- Takes the two codes a block brings. -/
def ownCodes : Expand (PrefixCode × PrefixCode) := do
  let literalCount := (← number 5) + 257
  let distanceCount := (← number 5) + 1
  let count := (← number 4) + 4
  if 286 < literalCount ∨ 30 < distanceCount then throw .corrupt
  let code ← codeForLengths count
  let total := literalCount + distanceCount
  let lengths ← codeLengths code total total []
  if lengths.length ≠ total then throw .corrupt
  let literals := PrefixCode.ofLengths (lengths.take literalCount)
  let distances := PrefixCode.ofLengths (lengths.drop literalCount)
  if usable true literals && usable true distances then pure (literals, distances)
  else throw .corrupt

/-- The number of rounds that no loop over the input exceeds. -/
def rounds : Expand Nat := do pure ((← get).input.size + 1)

/-- A block of the given kind. -/
def block (kind : Nat) : Expand Unit := do
  match kind with
  | 0 => storedBlock
  | 1 => symbols fixedLiterals fixedDistances (← rounds)
  | 2 =>
    let (literals, distances) ← ownCodes
    symbols literals distances (← rounds)
  | _ => throw .corrupt

/-- Blocks up to the one marked as the last. -/
def blocks : (fuel : Nat) → Expand Unit
  | 0 => throw .cutOff
  | fuel + 1 => do
    let last ← bit
    block (← number 2)
    if last then pure () else blocks fuel

end Expand

/-- What expanding gave. -/
structure Inflated where
  output : Bytes
  /-- What follows the compressed data, from the next whole byte on, or why it has no end. -/
  rest : Except ExpandFault Bytes

/-- Expands compressed data. -/
def inflate (b : Bytes) : Inflated :=
  let input := BitReader.ofBytes b
  match (Expand.blocks (input.size + 1)).run.run ⟨input, #[]⟩ with
  | (.ok (), e) => ⟨e.output.toList, .ok e.input.align.rest⟩
  | (.error fault, e) => ⟨e.output.toList, .error fault⟩

end AtomTimeline
