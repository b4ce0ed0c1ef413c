import TalusVSwitch.Library.ChunkedRead
import TalusVSwitch.Frame

/-! `compress` and `decompress` of `Utils.h` over zlib streams. What zlib makes of
an input is a parameter; the 2000-byte loops around it are the repository's. -/

namespace TalusVSwitch

def Z_OK : Int := 0
def Z_STREAM_END : Int := 1
def Z_NEED_DICT : Int := 2
def Z_STREAM_ERROR : Int := -2
def Z_DATA_ERROR : Int := -3
def Z_MEM_ERROR : Int := -4
def Z_BUF_ERROR : Int := -5

/-- `sizeof(outBuffer)` in both loops. -/
def outBufferSize : Nat := 2000

/-- A `deflate` stream: whether `deflateInit` succeeds, and all it will write. -/
structure Deflation where
  ready : Bool
  output : Bytes
deriving DecidableEq

/-- Why an `inflate` stream writes no more. -/
inductive InflateStop where
  | streamEnd
  | needDict
  | dataError
  | memError
  | streamError
  /-- The input ran out before the end of the stream. -/
  | starved
deriving DecidableEq, Repr

/-- An `inflate` stream: whether `inflateInit` succeeds, all it will write, and
how it stops after that. -/
structure Inflation where
  ready : Bool
  output : Bytes
  stop : InflateStop
deriving DecidableEq

/-- What zlib makes of an input, at level `Z_BEST_COMPRESSION`. -/
structure Zlib where
  deflate : Bytes → Deflation
  inflate : Bytes → Inflation

/-- The return code of an `inflate` call that has at most one buffer left to
write. A starved stream reports `Z_BUF_ERROR` once it can neither write nor
consume. -/
def InflateStop.lastCode (stop : InflateStop) (input : Bytes) (calls : Nat) (rest : Bytes) : Int :=
  match stop with
  | .streamEnd => Z_STREAM_END
  | .needDict => Z_NEED_DICT
  | .dataError => Z_DATA_ERROR
  | .memError => Z_MEM_ERROR
  | .streamError => Z_STREAM_ERROR
  | .starved =>
    if rest.isEmpty && (input.isEmpty || calls != 0) then Z_BUF_ERROR else Z_OK

/-- The return code of one `inflate` call with an empty output buffer. -/
def InflateStop.code (stop : InflateStop) (input : Bytes) (calls : Nat) (rest : Bytes) : Int :=
  if outBufferSize < rest.length then Z_OK else stop.lastCode input calls rest

/-- The codes after which `decompress` gives up. -/
def inflateFailed (ret : Int) : Bool :=
  ret == Z_STREAM_ERROR || (ret < 0 && ret != Z_DATA_ERROR)

/-- `compress`. A stream that `deflateInit` set up never reports `Z_STREAM_ERROR`. -/
def compress (zlib : Zlib) (data : Bytes) : Option Bytes :=
  let stream := zlib.deflate data
  if stream.ready then
    ChunkedRead.readAll outBufferSize (by decide) (fun _ _ => true) 0 stream.output
  else none

/-- The two header bytes that `decompress` writes back before inflating. -/
def restoreHeader (compressedData : Bytes) : Bytes :=
  (compressedData.set 0 0x78).set 1 0xda

/-- `decompress` -/
def decompress (zlib : Zlib) (compressedData : Bytes) : Option Bytes :=
  let input := restoreHeader compressedData
  let stream := zlib.inflate input
  if stream.ready then
    ChunkedRead.readAll outBufferSize (by decide)
      (fun calls rest => !inflateFailed (stream.stop.code input calls rest)) 0 stream.output
  else none

theorem compress_eq (zlib : Zlib) (data : Bytes) (ready : (zlib.deflate data).ready = true) :
    compress zlib data = some (zlib.deflate data).output := by
  simp only [compress, ready, if_true]
  exact ChunkedRead.readAll_accepting (fun _ _ => rfl) 0 _

/-- How a stream must stop for `decompress` to return what it wrote. A starved
stream is found out only by a call that has nothing left to write. -/
def Inflation.Usable (stream : Inflation) (input : Bytes) : Prop :=
  stream.ready = true ∧
    match stream.stop with
    | .streamEnd | .needDict | .dataError => True
    | .memError | .streamError => False
    | .starved =>
      if stream.output = [] then input ≠ [] else stream.output.length % outBufferSize ≠ 0

instance (stream : Inflation) (input : Bytes) : Decidable (stream.Usable input) := by
  unfold Inflation.Usable
  cases stream.stop <;> infer_instance

/-- What the loop has still to write when it asks for the last, short buffer. -/
private theorem drop_lastBuffer (output : Bytes) :
    (output.drop (output.length / outBufferSize * outBufferSize)).length =
      output.length % outBufferSize := by
  rw [List.length_drop, Nat.mod_eq_sub_div_mul]

private theorem code_lastBuffer (stop : InflateStop) (input output : Bytes) (calls : Nat) :
    stop.code input calls (output.drop (output.length / outBufferSize * outBufferSize)) =
      stop.lastCode input calls (output.drop (output.length / outBufferSize * outBufferSize)) := by
  have short := Nat.mod_lt output.length (show 0 < outBufferSize by decide)
  rw [InflateStop.code, if_neg]
  rw [drop_lastBuffer]
  omega

private theorem code_accepted {stop : InflateStop} {input rest : Bytes} {calls : Nat}
    (accepted : inflateFailed (stop.lastCode input calls rest) = false) :
    inflateFailed (stop.code input calls rest) = false := by
  rw [InflateStop.code]
  split
  · rfl
  · exact accepted

private theorem calls_accepted_iff (stop : InflateStop) (input output : Bytes) :
    (∀ index ≤ output.length / outBufferSize, (!inflateFailed (stop.code input (0 + index)
      (output.drop (index * outBufferSize)))) = true) ↔
      (Inflation.mk true output stop).Usable input := by
  simp only [Bool.not_eq_true', Nat.zero_add]
  cases stop with
  | streamEnd | needDict | dataError =>
    simp only [Inflation.Usable, and_self, iff_true]
    intro index _
    exact code_accepted rfl
  | memError | streamError =>
    simp only [Inflation.Usable, and_false, iff_false]
    intro every
    have last := every _ (Nat.le_refl _)
    rw [code_lastBuffer] at last
    cases last
  | starved =>
    simp only [Inflation.Usable, true_and]
    by_cases empty : output = []
    · subst empty
      simp only [List.length_nil, Nat.zero_div, Nat.le_zero_eq, forall_eq, List.drop_nil]
      cases input <;> simp [InflateStop.code, InflateStop.lastCode, inflateFailed, Z_BUF_ERROR,
        Z_STREAM_ERROR, Z_DATA_ERROR, Z_OK]
    · have long : output.length ≠ 0 := by simpa using empty
      simp only [empty, if_false]
      constructor
      · intro every exact
        have last := every _ (Nat.le_refl _)
        rw [code_lastBuffer] at last
        have drained : output.drop (output.length / outBufferSize * outBufferSize) = [] := by
          apply List.eq_nil_of_length_eq_zero
          rw [drop_lastBuffer, exact]
        have later : output.length / outBufferSize ≠ 0 := by
          have parts := Nat.div_add_mod output.length outBufferSize
          intro first
          rw [first, exact] at parts
          omega
        simp [InflateStop.lastCode, drained, later, inflateFailed, Z_BUF_ERROR, Z_STREAM_ERROR,
          Z_DATA_ERROR] at last
      · intro partly index bound
        apply code_accepted
        have remaining : output.drop (index * outBufferSize) ≠ [] := by
          intro drained
          have reached := List.drop_eq_nil_iff.mp drained
          have parts := Nat.div_add_mod output.length outBufferSize
          have scaled := Nat.mul_le_mul_right outBufferSize bound
          rw [Nat.mul_comm outBufferSize] at parts
          omega
        simp [InflateStop.lastCode, remaining, inflateFailed, Z_OK, Z_STREAM_ERROR]

/-- `decompress` returns exactly on a usable stream, and then all it wrote. -/
theorem decompress_eq_some_iff {zlib : Zlib} {compressedData output : Bytes} :
    decompress zlib compressedData = some output ↔
      (zlib.inflate (restoreHeader compressedData)).Usable (restoreHeader compressedData) ∧
        output = (zlib.inflate (restoreHeader compressedData)).output := by
  simp only [decompress]
  cases zlib.inflate (restoreHeader compressedData) with
  | mk ready written stop =>
    cases ready with
    | false => simp [Inflation.Usable]
    | true =>
      simp only [if_true, ChunkedRead.readAll_eq_some_iff, calls_accepted_iff]
      exact And.comm

end TalusVSwitch
