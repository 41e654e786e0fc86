/-!
# Code tables

A prefix code is given by the length of each symbol's word; the words
themselves are consecutive numbers within each length. The table has one
slot for every pattern of as many bits as the longest word: reading a
symbol looks up the next bits and then consumes only the word's own
length.

A list of lengths need not describe a proper code. Patterns that no word
claims leave empty slots; where two symbols claim a slot, the later one has
it; and a word that is too large for the table is cut to its width.
-/

namespace Raster.Deflate

/-- A symbol and how many bits its word has. -/
structure Entry where
  symbol : Nat
  length : Nat
  deriving Repr, DecidableEq

structure CodeTable where
  width : Nat
  /-- A slot for each pattern of `width` bits. -/
  slots : Array (Option Entry)
  deriving Repr

namespace CodeTable

/-- The lowest `count` bits of a number in reverse order. -/
def reverseBits : Nat → Nat → Nat
  | 0, _ => 0
  | count + 1, n => (n % 2) <<< count + reverseBits count (n / 2)

/-- The first word of a length: twice the number after the last word that is one bit shorter.
Words are kept in sixteen bits. -/
def firstWord (lengths : List Nat) : Nat → Nat
  | 0 => 0
  | 1 => 0
  | length + 2 => (firstWord lengths (length + 1) + lengths.count (length + 1)) * 2 % 65536

/-- The word of a symbol: earlier symbols of the same length have the words before it. -/
def wordOf (lengths : List Nat) (symbol length : Nat) : Nat :=
  (firstWord lengths length + (lengths.take symbol).count length) % 65536

/-- The slot of a pattern: the first bit of a word is read first, so it is the lowest one of the
index. Patterns beyond fifteen bits share slot 0. -/
def slotOf (width pattern : Nat) : Nat :=
  if pattern < 32768 then reverseBits width pattern else 0

/-- Gives a word all slots whose patterns begin with it. -/
def claim (width word : Nat) (entry : Entry) (slots : Array (Option Entry)) :
    Array (Option Entry) :=
  let spare := width - entry.length
  (List.range (1 <<< spare)).foldl
    (fun s suffix => s.setIfInBounds (slotOf width (word <<< spare + suffix)) (some entry)) slots

/-- The table of the code in which symbol `i` has a word of `lengths[i]` bits, or none for 0. -/
def ofLengths (lengths : List Nat) : CodeTable :=
  let width := lengths.foldl Nat.max 0
  { width
    slots := lengths.zipIdx.foldl
      (fun slots (length, symbol) =>
        if length = 0 then slots
        else claim width (wordOf lengths symbol length) ⟨symbol, length⟩ slots)
      (Array.replicate (1 <<< width) none) }

/-- What a pattern of `width` bits begins with. -/
def lookup (t : CodeTable) (pattern : Nat) : Option Entry := t.slots[pattern]?.join

end CodeTable

end Raster.Deflate
