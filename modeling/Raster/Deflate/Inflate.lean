import Raster.Deflate.Bits
import Raster.Deflate.CodeTable
import Raster.Deflate.Error

/-!
# Decompression

A stream is a sequence of blocks: stored bytes, or symbols of a fixed or a
transmitted pair of codes. `State.step` reads one block header (with all
of a stored block) or one symbol; `State.run` repeats it until the last
block ends. Every step moves forward, so the bits that are left bound the
run.

What lies past the end reads as zero bits, and the check that the
position is still inside comes after each step.
-/

namespace Raster.Deflate

/-- The codes of a compressed block: literals and lengths in one, distances in the other. -/
structure Codes where
  literals : CodeTable
  distances : CodeTable
  deriving Repr

/-- The codes of a block that transmits none. -/
def Codes.fixed : Codes where
  literals := .ofLengths (List.replicate 144 8 ++ List.replicate 112 9 ++ List.replicate 24 7
    ++ List.replicate 8 8)
  distances := .ofLengths (List.replicate 32 5)

/-- For each length symbol, from 257 on: the shortest length, and how many further bits add to it.
The two symbols after 285 have no meaning of their own and stand for the next lengths. -/
def lengthSymbols : List (Nat × Nat) :=
  [(3, 0), (4, 0), (5, 0), (6, 0), (7, 0), (8, 0), (9, 0), (10, 0),
   (11, 1), (13, 1), (15, 1), (17, 1), (19, 2), (23, 2), (27, 2), (31, 2),
   (35, 3), (43, 3), (51, 3), (59, 3), (67, 4), (83, 4), (99, 4), (115, 4),
   (131, 5), (163, 5), (195, 5), (227, 5), (258, 0), (260, 0), (261, 0)]

/-- For each distance symbol: the shortest distance, and how many further bits add to it. -/
def distanceSymbols : List (Nat × Nat) :=
  [(1, 0), (2, 0), (3, 0), (4, 0), (5, 1), (7, 1), (9, 2), (13, 2),
   (17, 3), (25, 3), (33, 4), (49, 4), (65, 5), (97, 5), (129, 6), (193, 6),
   (257, 7), (385, 7), (513, 8), (769, 8), (1025, 9), (1537, 9), (2049, 10), (3073, 10),
   (4097, 11), (6145, 11), (8193, 12), (12289, 12), (16385, 13), (24577, 13), (32769, 0)]

/-- The symbols of the code-length code in the order in which their lengths are transmitted. -/
def lengthOrder : List Nat := [16, 17, 18, 0, 8, 7, 9, 6, 10, 5, 11, 4, 12, 3, 13, 2, 14, 1, 15]

/-- The lengths of the code-length code: three bits each, in transmission order, the rest 0. -/
def codeLengthLengths (source : Bits) (position count : Nat) : List Nat :=
  (List.range 19).map fun symbol =>
    let place := lengthOrder.idxOf symbol
    if place < count then source.read (position + 3 * place) 3 else 0

/-- One instruction for a list of code lengths: which length to append, how often, and where the
instruction ends. Symbols up to 15 are lengths; 16 repeats the previous one, 17 and 18 repeat 0.
Bits without a meaning consume nothing and stand for the length 0. -/
def lengthRun (source : Bits) (table : CodeTable) (previous position : Nat) : Nat × Nat × Nat :=
  match table.lookup (source.read position table.width) with
  | none => (0, 1, position)
  | some entry =>
    let after := position + entry.length
    if entry.symbol < 16 then (entry.symbol, 1, after)
    else if entry.symbol = 16 then (previous, source.read after 2 + 3, after + 2)
    else if entry.symbol = 17 then (0, source.read after 3 + 3, after + 3)
    else (0, source.read after 7 + 11, after + 7)

theorem lengthRun_count_pos (source : Bits) (table : CodeTable) (previous position : Nat) :
    0 < (lengthRun source table previous position).2.1 := by
  unfold lengthRun
  split
  · exact Nat.one_pos
  · dsimp only
    split
    · exact Nat.one_pos
    · split
      · exact Nat.succ_pos _
      · split <;> exact Nat.succ_pos _

/-- Reads code lengths until there are `total`; a run may overshoot. Also says where they end. -/
def readLengths (source : Bits) (table : CodeTable) (total position : Nat) (done : Array Nat) :
    Array Nat × Nat :=
  if done.size < total then
    let run := lengthRun source table (done.back?.getD 0) position
    readLengths source table total run.2.2 (done ++ Array.replicate run.2.1 run.1)
  else (done, position)
termination_by total - done.size
decreasing_by
  have := lengthRun_count_pos source table (done.back?.getD 0) position
  simp only [Array.size_append, Array.size_replicate]
  omega

/-- The pair of codes transmitted at a position, and where the block's symbols begin. -/
def readCodes (source : Bits) (position : Nat) : Codes × Nat :=
  let literalCount := source.read position 5 + 257
  let distanceCount := source.read (position + 5) 5 + 1
  let lengthCount := source.read (position + 10) 4 + 4
  let start := position + 14
  let table := CodeTable.ofLengths (codeLengthLengths source start lengthCount)
  let total := literalCount + distanceCount
  let (lengths, after) := readLengths source table total (start + 3 * lengthCount) #[]
  let lengths := lengths.toList.take total
  (⟨.ofLengths (lengths.take literalCount), .ofLengths (lengths.drop literalCount)⟩, after)

/-- Appends `count` bytes, each a copy of the one `distance` before it. -/
def copyBack (output : Array UInt8) (distance : Nat) : Nat → Array UInt8
  | 0 => output
  | count + 1 => copyBack (output.push (output[output.size - distance]?.getD 0)) distance count

/-- A decompression under way: the codes are those of the block being read, if one is. -/
structure State where
  position : Nat
  isLast : Bool
  codes : Option Codes
  output : Array UInt8

namespace State

def start : State := ⟨0, false, none, #[]⟩

/-- Reads a block header, and a stored block whole. The complement of its length is not looked
at. -/
def stepBlock (source : Bits) (s : State) : Except Error State :=
  let isLast := source.read s.position 1 == 1
  let after := s.position + 3
  match source.read (s.position + 1) 2 with
  | 0 =>
    let first := (after + 7) / 8 + 4
    let length := (source.byte (first - 4)).toNat + 256 * (source.byte (first - 3)).toNat
    if source.bytes.size < first + length then .error .unexpectedEnd
    else .ok
      { position := (first + length) * 8
        isLast
        codes := none
        output := s.output ++ source.bytes.extract first (first + length) }
  | 1 => .ok { s with position := after, isLast, codes := some .fixed }
  | 2 =>
    let (codes, position) := readCodes source after
    .ok { s with position, isLast, codes := some codes }
  | _ => .error .badBlockType

/-- Reads what follows a length: a distance, and copies. The distance symbol that stands for no
distance appends zero bytes. -/
def stepCopy (source : Bits) (codes : Codes) (s : State) (position length : Nat) :
    Except Error State :=
  match codes.distances.lookup (source.read position codes.distances.width) with
  | none => .error .badDistance
  | some entry =>
    let after := position + entry.length
    match distanceSymbols[entry.symbol]? with
    | none =>
      if source.size < after then .error .unexpectedEnd
      else .ok { s with position := after, output := s.output ++ Array.replicate length 0 }
    | some (base, extra) =>
      let distance := base + source.read after extra
      if source.size < after + extra then .error .unexpectedEnd
      else if s.output.size < distance then .error .badDistance
      else .ok { s with position := after + extra, output := copyBack s.output distance length }

/-- Reads one symbol of a block: a byte, the end of the block, or a length with its distance. -/
def stepSymbol (source : Bits) (codes : Codes) (s : State) : Except Error State :=
  match codes.literals.lookup (source.read s.position codes.literals.width) with
  | none => .error .badLiteral
  | some entry =>
    let after := s.position + entry.length
    if source.size < after then .error .unexpectedEnd
    else if entry.symbol < 256 then
      .ok { s with position := after, output := s.output.push (UInt8.ofNat entry.symbol) }
    else if entry.symbol = 256 then .ok { s with position := after, codes := none }
    else
      let (base, extra) := lengthSymbols[entry.symbol - 257]?.getD (0, 0)
      stepCopy source codes s (after + extra) (base + source.read after extra)

def step (source : Bits) (s : State) : Except Error State :=
  match s.codes with
  | none => s.stepBlock source
  | some codes => s.stepSymbol source codes

/-- Steps to the end of the last block. -/
def run (source : Bits) (s : State) : Except Error (Array UInt8) :=
  if s.isLast && s.codes.isNone then .ok s.output
  else
    match s.step source with
    | .error e => .error e
    | .ok next =>
      if s.position < next.position ∧ next.position ≤ source.size then run source next
      else .error .unexpectedEnd
termination_by source.size - s.position

end State

/-- Decompresses a stream. No bytes at all are an empty stream; bytes after the last block are
ignored. -/
def inflate (bytes : List UInt8) : Except Error (List UInt8) :=
  if bytes.isEmpty then .ok []
  else (State.start.run ⟨bytes.toArray⟩).map Array.toList

end Raster.Deflate
