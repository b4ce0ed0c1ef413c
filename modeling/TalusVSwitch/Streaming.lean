import TalusVSwitch.Library.DoWhile
import TalusVSwitch.Transport

/-! The loops of `compress` and `decompress` call by call. A stream writes what fits into
the buffer and reports a code; whether to call it again the loops tell from the room left
in the buffer alone. A buffer is one frame or one datagram, whose size `avail_in` holds. -/

namespace TalusVSwitch.Streaming

open DoWhile

/-- What a call of `deflate` or `inflate` comes to: its code, what it wrote, and what the
stream has still to write. -/
structure Call where
  ret : Int
  written : Bytes
  rest : Bytes
deriving DecidableEq

/-- `deflate` with `Z_FINISH`. -/
def deflate (avail_out : Nat) (rest : Bytes) : Call where
  ret := if avail_out < rest.length then Z_OK else Z_STREAM_END
  written := rest.take avail_out
  rest := rest.drop avail_out

/-- `deflateEnd`, which finds output that was not taken. -/
def deflateEnd (rest : Bytes) : Int := if rest.isEmpty then Z_OK else Z_DATA_ERROR

/-- `inflate` into an empty output buffer. -/
def inflate (stop : InflateStop) (input : Bytes) (calls : Nat) (rest : Bytes) : Call where
  ret := stop.code input calls rest
  written := rest.take outBufferSize
  rest := rest.drop outBufferSize

/-- `inflateEnd` of a stream that `inflateInit` set up. -/
def inflateEnd : Int := Z_OK

/-- `compress` in its loop: what the stream has still to write, and what was appended. -/
structure Compressing where
  rest : Bytes
  compressedData : Bytes
deriving DecidableEq

/-- The body of the loop of `compress`, with what is behind the loop. -/
def compressPass (state : Compressing) : Pass Compressing (Option Bytes) :=
  let call := deflate outBufferSize state.rest
  if call.ret == Z_STREAM_ERROR then .leave none
  else
    let compressedData := state.compressedData ++ call.written
    let avail_out := outBufferSize - call.written.length
    if avail_out == 0 then .again ⟨call.rest, compressedData⟩
    else .leave (if deflateEnd call.rest != Z_OK then none else some compressedData)

/-- `compress`, with at most so many passes through its loop. -/
def compress (zlib : Zlib) (data : Bytes) (passes : Nat) : Option (Option Bytes) :=
  let stream := zlib.deflate data
  if stream.ready then run compressPass passes ⟨stream.output, []⟩ else some none

/-- `decompress` in its loop. -/
structure Decompressing where
  calls : Nat
  rest : Bytes
  decompressedData : Bytes
deriving DecidableEq

/-- The body of the loop of `decompress`, with what is behind the loop. -/
def decompressPass (stop : InflateStop) (input : Bytes) (state : Decompressing) :
    Pass Decompressing (Option Bytes) :=
  let call := inflate stop input state.calls state.rest
  if inflateFailed call.ret then .leave none
  else
    let decompressedData := state.decompressedData ++ call.written
    let avail_out := outBufferSize - call.written.length
    if avail_out == 0 then .again ⟨state.calls + 1, call.rest, decompressedData⟩
    else .leave (if inflateEnd != Z_OK then none else some decompressedData)

/-- `decompress`, with at most so many passes through its loop. -/
def decompress (zlib : Zlib) (compressedData : Bytes) (passes : Nat) : Option (Option Bytes) :=
  let input := restoreHeader compressedData
  let stream := zlib.inflate input
  if stream.ready then run (decompressPass stream.stop input) passes ⟨0, stream.output, []⟩
  else some none

/-- A program that counts its passes ends with a result. -/
def Ends (program : Nat → Option (Option Bytes)) (result : Option Bytes) : Prop :=
  ∃ enough, ∀ passes, enough ≤ passes → program passes = some result

private theorem room_iff (rest : Bytes) :
    (outBufferSize - (rest.take outBufferSize).length == 0) = true ↔
      outBufferSize ≤ rest.length := by
  rw [beq_iff_eq, List.length_take]
  omega

theorem compressPass_eq (state : Compressing) :
    compressPass state =
      if outBufferSize ≤ state.rest.length then
        .again ⟨state.rest.drop outBufferSize,
          state.compressedData ++ state.rest.take outBufferSize⟩
      else .leave (some (state.compressedData ++ state.rest)) := by
  have sound : ((deflate outBufferSize state.rest).ret == Z_STREAM_ERROR) = false := by
    rw [deflate]
    split <;> rfl
  simp only [compressPass, sound, Bool.false_eq_true, if_false]
  have room : (outBufferSize - (deflate outBufferSize state.rest).written.length == 0) = true ↔
      outBufferSize ≤ state.rest.length := room_iff state.rest
  by_cases full : outBufferSize ≤ state.rest.length
  · rw [if_pos full, if_pos (room.mpr full)]
    rfl
  · have short : state.rest.length ≤ outBufferSize := by omega
    rw [if_neg full, if_neg (mt room.mp full)]
    simp [deflate, deflateEnd, List.take_of_length_le short, List.drop_of_length_le short]

theorem decompressPass_eq (stop : InflateStop) (input : Bytes) (state : Decompressing) :
    decompressPass stop input state =
      if inflateFailed (stop.code input state.calls state.rest) then .leave none
      else if outBufferSize ≤ state.rest.length then
        .again ⟨state.calls + 1, state.rest.drop outBufferSize,
          state.decompressedData ++ state.rest.take outBufferSize⟩
      else .leave (some (state.decompressedData ++ state.rest)) := by
  have room : (outBufferSize -
      (inflate stop input state.calls state.rest).written.length == 0) = true ↔
        outBufferSize ≤ state.rest.length := room_iff state.rest
  have code : (inflate stop input state.calls state.rest).ret =
      stop.code input state.calls state.rest := rfl
  simp only [decompressPass, code]
  cases inflateFailed (stop.code input state.calls state.rest) with
  | true => rfl
  | false =>
    simp only [Bool.false_eq_true, if_false]
    by_cases full : outBufferSize ≤ state.rest.length
    · rw [if_pos full, if_pos (room.mpr full)]
      rfl
    · have short : state.rest.length ≤ outBufferSize := by omega
      rw [if_neg full, if_neg (mt room.mp full)]
      simp [inflate, inflateEnd, List.take_of_length_le short]

private theorem outBufferSize_pos : 0 < outBufferSize := by
  decide

/-- Every pass but the last leaves less to write. -/
private theorem drop_shorter {rest : Bytes} (full : outBufferSize ≤ rest.length) :
    (rest.drop outBufferSize).length < rest.length := by
  have positive := outBufferSize_pos
  rw [List.length_drop]
  omega

theorem compressPass_returns (output : Bytes) :
    Returns compressPass ⟨output, []⟩ (some output) := by
  have keeps : ∀ state next : Compressing, state.compressedData ++ state.rest = output →
      compressPass state = .again next →
      next.compressedData ++ next.rest = output ∧ next.rest.length < state.rest.length := by
    intro state next whole pass
    rw [compressPass_eq] at pass
    by_cases full : outBufferSize ≤ state.rest.length
    · rw [if_pos full] at pass
      cases pass
      exact ⟨by rw [List.append_assoc, List.take_append_drop, whole], drop_shorter full⟩
    · rw [if_neg full] at pass
      cases pass
  have ends : ∀ (state : Compressing) (result : Option Bytes),
      state.compressedData ++ state.rest = output → compressPass state = .leave result →
      result = some output := by
    intro state result whole pass
    rw [compressPass_eq] at pass
    by_cases full : outBufferSize ≤ state.rest.length
    · rw [if_pos full] at pass
      cases pass
    · rw [if_neg full] at pass
      cases pass
      rw [whole]
  have start : (Compressing.mk output []).compressedData ++ (Compressing.mk output []).rest =
      output := rfl
  obtain ⟨result, returns, rfl⟩ :=
    DoWhile.total (fun state : Compressing => state.rest.length) keeps ends start
  exact returns

/-- What `decompress` makes of the rest of its stream, behind what it has appended. -/
private def remaining (stop : InflateStop) (input : Bytes) (state : Decompressing) : Option Bytes :=
  (ChunkedRead.readAll outBufferSize outBufferSize_pos
    (fun calls rest => !inflateFailed (stop.code input calls rest)) state.calls state.rest).map
      (state.decompressedData ++ ·)

theorem decompressPass_returns (stop : InflateStop) (input : Bytes) (state : Decompressing) :
    Returns (decompressPass stop input) state (remaining stop input state) := by
  have keeps : ∀ current next : Decompressing,
      remaining stop input current = remaining stop input state →
      decompressPass stop input current = .again next →
      remaining stop input next = remaining stop input state ∧
        next.rest.length < current.rest.length := by
    intro current next same pass
    rw [decompressPass_eq] at pass
    by_cases failed : inflateFailed (stop.code input current.calls current.rest) = true
    · rw [if_pos failed] at pass
      cases pass
    · rw [if_neg failed] at pass
      by_cases full : outBufferSize ≤ current.rest.length
      · rw [if_pos full] at pass
        cases pass
        refine ⟨?_, drop_shorter full⟩
        rw [← same, remaining, remaining, ChunkedRead.readAll_full (by simpa using failed) full,
          Option.map_map]
        simp only [Function.comp_def, List.append_assoc]
      · rw [if_neg full] at pass
        cases pass
  have ends : ∀ (current : Decompressing) (result : Option Bytes),
      remaining stop input current = remaining stop input state →
      decompressPass stop input current = .leave result →
      result = remaining stop input state := by
    intro current result same pass
    rw [decompressPass_eq] at pass
    rw [← same, remaining]
    by_cases failed : inflateFailed (stop.code input current.calls current.rest) = true
    · rw [if_pos failed] at pass
      cases pass
      rw [ChunkedRead.readAll_refused (by simpa using failed), Option.map_none]
    · rw [if_neg failed] at pass
      by_cases full : outBufferSize ≤ current.rest.length
      · rw [if_pos full] at pass
        cases pass
      · rw [if_neg full] at pass
        cases pass
        rw [ChunkedRead.readAll_short (by simpa using failed) (Nat.lt_of_not_le full),
          Option.map_some]
  obtain ⟨result, returns, same⟩ :=
    DoWhile.total (fun current : Decompressing => current.rest.length) keeps ends rfl
  exact same ▸ returns

/-- The loop of `compress` ends, and with what the reading of its stream as a whole says. -/
theorem compress_ends (zlib : Zlib) (data : Bytes) :
    Ends (compress zlib data) (TalusVSwitch.compress zlib data) := by
  cases ready : (zlib.deflate data).ready with
  | true =>
    obtain ⟨enough, ended⟩ := compressPass_returns (zlib.deflate data).output
    refine ⟨enough, fun passes most => ?_⟩
    rw [compress, ready, if_pos rfl, ended passes most, compress_eq zlib data ready]
  | false => exact ⟨0, fun passes _ => by simp [compress, TalusVSwitch.compress, ready]⟩

theorem decompress_ends (zlib : Zlib) (compressedData : Bytes) :
    Ends (decompress zlib compressedData) (TalusVSwitch.decompress zlib compressedData) := by
  cases ready : (zlib.inflate (restoreHeader compressedData)).ready with
  | true =>
    obtain ⟨enough, ended⟩ := decompressPass_returns
      (zlib.inflate (restoreHeader compressedData)).stop (restoreHeader compressedData)
      ⟨0, (zlib.inflate (restoreHeader compressedData)).output, []⟩
    refine ⟨enough, fun passes most => ?_⟩
    simp only [decompress, TalusVSwitch.decompress, ready, if_true]
    rw [ended passes most, remaining]
    simp
  | false => exact ⟨0, fun passes _ => by simp [decompress, TalusVSwitch.decompress, ready]⟩

/-- The loops end on every input and lose nothing: `compress` ends with all of the deflated
payload, `decompress` of that with the payload, and of anything else with nothing or with
all that was inflated before the stream stopped. -/
theorem streams_lossless {zlib : Zlib} {payload : Bytes} (documented : zlib.Documented payload) :
    Ends (compress zlib payload) (some (zlib.deflate payload).output) ∧
      Ends (decompress zlib (zlib.deflate payload).output) (some payload) ∧
      ∀ compressedData, ∃ result, Ends (decompress zlib compressedData) result ∧
        (result = none ∨
          result = some (zlib.inflate (restoreHeader compressedData)).output) := by
  refine ⟨?_, ?_, fun compressedData => ⟨_, decompress_ends zlib compressedData, ?_⟩⟩
  · have whole := compress_eq zlib payload documented.ready
    exact whole ▸ compress_ends zlib payload
  · have whole : TalusVSwitch.decompress zlib (zlib.deflate payload).output = some payload := by
      rw [decompress_eq_some_iff, Transport.restoreHeader_output documented, documented.inverse]
      exact ⟨⟨rfl, trivial⟩, rfl⟩
    exact whole ▸ decompress_ends zlib (zlib.deflate payload).output
  · cases returned : TalusVSwitch.decompress zlib compressedData with
    | none => exact .inl rfl
    | some output => exact .inr (congrArg some (decompress_eq_some_iff.mp returned).2)

/-- A payload of exactly one buffer, and the stream zlib makes of it at level 9. -/
theorem streams_lossless_full_buffer :
    let payload : Bytes := List.replicate 2000 0
    let stream : Bytes := [120, 218, 99, 96, 24, 5, 163, 96, 20, 140, 130, 81, 48, 10, 70, 193, 80,
      7, 0, 7, 208, 0, 1]
    let zlib : Zlib := ⟨fun _ => ⟨true, stream⟩, fun _ => ⟨true, payload, .streamEnd⟩⟩
    Ends (compress zlib payload) (some stream) ∧ Ends (decompress zlib stream) (some payload) := by
  intro payload stream zlib
  have lossless := @streams_lossless zlib payload ⟨rfl, rfl, by decide, rfl⟩
  exact ⟨lossless.1, lossless.2.1⟩

end TalusVSwitch.Streaming
