import NetworkLabs.Library.SortedMap
import NetworkLabs.Sponge.ByteStream

/-!
# The stream reassembler

`StreamReassembler` follows `stream_reassembler.cc`: a map of unassembled
segments, keyed by the index of their first byte, in front of an in-order
output stream. `pushSubstring` writes a substring that starts at or below the
assembled index and then every cached segment that has become contiguous; any
other substring is merged into the map by `mergeSegments`.

The two loops over the map are folds over its entries, each with the variables
it updates in a record of its own.
-/

namespace NetworkLabs

/-- The members of the class `StreamReassembler`. -/
structure StreamReassembler where
  assembleIdx : ℕ
  eofIdx : ℕ
  segments : SortedMap (List UInt8)
  output : ByteStream
  capacity : ℕ
  deriving DecidableEq

namespace StreamReassembler

/-- The constructor; the end of the stream is not known yet. -/
def new (capacity : ℕ) : StreamReassembler where
  assembleIdx := 0
  eofIdx := sizeT (-1)
  segments := SortedMap.empty
  output := ByteStream.new capacity
  capacity := capacity

def streamOut (r : StreamReassembler) : ByteStream := r.output

def unassembledBytes (r : StreamReassembler) : ℕ :=
  (r.segments.entries.map fun e => e.2.length).sum

def empty (r : StreamReassembler) : Bool := r.unassembledBytes == 0

/-- `std::string::substr`, whose arguments are converted to `size_t`. A start
behind the end throws; the callers below keep it inside while the assembled
index is in the range of `int`. -/
def substr (data : List UInt8) (pos count : ℤ) : List UInt8 :=
  (data.drop (sizeT pos)).take (sizeT count)

/-- The variables of the loop of `merge_segments`. -/
structure MergeLoop where
  dataLft : ℕ
  dataRgt : ℕ
  dataCpy : List UInt8
  removeList : List ℕ
  cached : Bool

/-- The second test of a round: the data starts inside the segment. -/
def mergeLeft (st : MergeLoop) (segment : ℕ × List UInt8) : MergeLoop :=
  let segRgt := sizeT (segment.1 + segment.2.length)
  if segment.1 < st.dataLft ∧ st.dataLft ≤ segRgt then
    if st.dataRgt ≤ segRgt then { st with cached := false }
    else
      let dataCpy := segment.2.take (st.dataLft - segment.1) ++ st.dataCpy
      { st with
        dataCpy := dataCpy
        dataLft := segment.1
        dataRgt := sizeT (segment.1 + dataCpy.length)
        removeList := st.removeList ++ [segment.1] }
  else st

/-- One round of the loop of `merge_segments`. The first test, that the segment
starts inside the data, ends the round when the segment is covered. -/
def mergeRound (st : MergeLoop) (segment : ℕ × List UInt8) : MergeLoop :=
  let segRgt := sizeT (segment.1 + segment.2.length)
  if st.dataLft ≤ segment.1 ∧ segment.1 ≤ st.dataRgt then
    if segRgt ≤ st.dataRgt then
      { st with removeList := st.removeList ++ [segment.1] }
    else
      let dataCpy := st.dataCpy.take (segment.1 - st.dataLft) ++ segment.2
      mergeLeft { st with
        dataCpy := dataCpy
        dataRgt := sizeT (st.dataLft + dataCpy.length)
        removeList := st.removeList ++ [segment.1] } segment
  else mergeLeft st segment

/-- The variables of the loop before its first round. -/
def mergeStart (index : ℕ) (data : List UInt8) : MergeLoop where
  dataLft := index
  dataRgt := sizeT (index + data.length)
  dataCpy := data
  removeList := []
  cached := true

def mergeSegments (r : StreamReassembler) (index : ℕ) (data : List UInt8) :
    StreamReassembler :=
  let st := r.segments.entries.foldl mergeRound (mergeStart index data)
  let segments := r.segments.eraseAll st.removeList
  if st.cached then { r with segments := segments.insert st.dataLft st.dataCpy }
  else { r with segments := segments }

/-- The variables of the loop of `push_substring`. -/
structure AssembleLoop where
  assembleIdx : ℕ
  output : ByteStream
  popList : List ℕ

/-- Writing what `data`, a substring at `index`, has from the assembled index
on: the lines that `push_substring` has once for the new substring and once
for a cached segment. -/
def writeFrom (assembleIdx : ℕ) (output : ByteStream) (index : ℕ) (data : List UInt8) :
    ℕ × ByteStream :=
  let begin := Int32.ofInt (assembleIdx - index)
  let writeCnt := Int32.ofInt (data.length - begin.toInt)
  let written := output.write (substr data begin.toInt writeCnt.toInt)
  (sizeT (assembleIdx + written.2), written.1)

/-- One round of the loop of `push_substring` over the cached segments. -/
def assembleRound (st : AssembleLoop) (segment : ℕ × List UInt8) : AssembleLoop :=
  if sizeT (segment.1 + segment.2.length) ≤ st.assembleIdx ∨ segment.2.length = 0 then
    { st with popList := st.popList ++ [segment.1] }
  else if st.assembleIdx < segment.1 then st
  else
    let written := writeFrom st.assembleIdx st.output segment.1 segment.2
    { assembleIdx := written.1
      output := written.2
      popList := st.popList ++ [segment.1] }

/-- The branch of `push_substring` for a substring that is expected, up to the
test for the end of the stream. -/
def assemble (r : StreamReassembler) (index : ℕ) (data : List UInt8) :
    StreamReassembler :=
  let written := writeFrom r.assembleIdx r.output index data
  let st := r.segments.entries.foldl assembleRound ⟨written.1, written.2, []⟩
  { r with
    assembleIdx := st.assembleIdx
    output := st.output
    segments := r.segments.eraseAll st.popList }

/-- The last lines of `push_substring`. -/
def checkEof (r : StreamReassembler) : StreamReassembler :=
  if r.empty && r.assembleIdx == r.eofIdx then { r with output := r.output.endInput }
  else r

/-- The first lines of `push_substring`. -/
def noteEof (r : StreamReassembler) (index : ℕ) (data : List UInt8) (eof : Bool) :
    StreamReassembler :=
  if eof then { r with eofIdx := sizeT (data.length + index) } else r

def pushSubstring (r : StreamReassembler) (data : List UInt8) (index : ℕ) (eof : Bool) :
    StreamReassembler :=
  let r := r.noteEof index data eof
  if r.assembleIdx < index then r.mergeSegments index data
  else
    let begin := Int32.ofInt (r.assembleIdx - index)
    let writeCnt := Int32.ofInt (data.length - begin.toInt)
    if writeCnt.toInt < 0 then r
    else (r.assemble index data).checkEof

end StreamReassembler

end NetworkLabs
