import Nxp.Core.Stream
import Nxp.Lib.Word

/-! What each stream operation does to the offsets and buffers, in natural-number arithmetic. -/

namespace Nxp

variable (recv : RecvBuf) {s' : Stream} {maxDataLen : UInt64} {bytes : Bytes}

variable {f : FrameStream} {s : Stream}

/-- A frame of positive length has its data. -/
theorem FrameStream.data_of_positive (f : FrameStream) (positive : 0 < f.length) :
    ∃ bytes, f.data = some bytes := by
  -- A null pointer would make the length zero.
  cases found : f.data with
  | some bytes => exact ⟨bytes, rfl⟩
  | none =>
    have covered := f.covered
    have order := UInt64.lt_iff_toNat_lt.mp positive
    simp only [found, Option.getD_none, List.length_nil, UInt64.toNat_zero] at covered order
    omega

/-- The data of a frame is as long as its length says. -/
theorem FrameStream.length_of_data (f : FrameStream) (found : f.data = some bytes) :
    bytes.length = f.length.toNat := by
  have covered := f.covered
  rwa [found, Option.getD_some] at covered

/-- The enforced limit survives the arrival of a frame. -/
@[simp] theorem recvData_localMaxData (s : Stream) (f : FrameStream) :
    (recvData s f).flow.localMaxData = s.flow.localMaxData := by
  -- Only the receive buffer and the arrival count change.
  unfold recvData
  split
  · rfl
  · split <;> simp

/-- Taking data leaves the lifecycle alone. -/
@[simp] theorem recvData_state (s : Stream) (f : FrameStream) :
    (recvData s f).state = s.state := by
  unfold recvData
  split
  · rfl
  · split <;> rfl

/-- The end mark touches neither the buffered bytes nor the offsets of the data. -/
theorem recvFin_recv (s : Stream) (f : FrameStream) :
    (recvFin s f).recv.data = s.recv.data ∧
      (recvFin s f).recv.readOffset = s.recv.readOffset ∧
      (recvFin s f).recv.recvOffset = s.recv.recvOffset := by
  -- Whatever the lifecycle does, only the two fields of the mark are written.
  unfold recvFin setStreamState
  grind

/-- A frame without the end mark leaves the stream as its data left it. -/
theorem recvFin_of_not_fin (s : Stream) (unmarked : f.fin = false) :
    recvFin s f = s := by
  simp [recvFin, unmarked]

/-- A frame that is accepted takes its data and then its end mark. -/
theorem streamOnRecv_accepted (accepted : (streamOnRecv s f).1 = .ok) :
    f.endOffset ≤ s.flow.localMaxData ∧ (streamOnRecv s f).2 = recvFin (recvData s f) f := by
  -- Each refusal is decided before anything is stored.
  unfold streamOnRecv at *
  split at accepted
  · simp at accepted
  · split at accepted
    · simp at accepted
    · rename_i notClosed within
      simp only [notClosed, within, if_false, and_true]
      exact UInt64.not_lt.mp within

/-- A frame that is refused changes nothing. -/
theorem streamOnRecv_refused (refused : (streamOnRecv s f).1 ≠ .ok) : (streamOnRecv s f).2 = s := by
  unfold streamOnRecv at *
  grind

theorem recvStore_below (f : FrameStream) (bytes : Bytes)
    (below : f.endOffset ≤ recv.readOffset) : recvStore recv f bytes = recv := by
  unfold recvStore
  rw [if_neg (UInt64.not_lt.mpr below)]

/-- Without data beyond what was read already, the receive buffer stays as it was. -/
theorem recvData_kept (idle : ¬(0 < f.length ∧ s.recv.readOffset < f.endOffset)) :
    (recvData s f).recv = s.recv := by
  unfold recvData
  cases found : f.data with
  | none => rfl
  | some bytes =>
    by_cases positive : 0 < f.length
    · have below : f.endOffset ≤ s.recv.readOffset :=
        UInt64.not_lt.mp fun beyond => idle ⟨positive, beyond⟩
      simp only [gt_iff_lt, positive, if_true, recvStore_below _ _ _ below]
    · simp only [gt_iff_lt, positive, if_false]

/-- Data of positive length is stored in the receive buffer. -/
theorem recvData_stored (found : f.data = some bytes) (positive : 0 < f.length) :
    (recvData s f).recv = recvStore s.recv f bytes := by
  simp only [recvData, found, gt_iff_lt, positive, if_true]

/-- The octets of a frame beyond what was read are copied into the buffer. -/
theorem recvStore_data (f : FrameStream) (bytes : Bytes) (beyond : recv.readOffset < f.endOffset) :
    (recvStore recv f bytes).data =
      Ring.wrapCopy 65536 recv.data (max f.startOffset.toNat recv.readOffset.toNat)
        (bytes.drop (recv.readOffset.toNat - f.startOffset.toNat)) := by
  unfold recvStore
  rw [if_pos beyond]
  simp only [streamBufSize_toNat]
  by_cases behind : f.startOffset < recv.readOffset
  · have order := UInt64.lt_iff_toNat_lt.mp behind
    simp only [behind, if_true, UInt64.toNat_sub_of_le _ _ (UInt64.le_of_lt behind)]
    rw [max_eq_right (by omega)]
  · have order := UInt64.le_iff_toNat_le.mp (UInt64.not_lt.mp behind)
    simp only [behind, if_false, UInt64.toNat_zero]
    rw [max_eq_left order, Nat.sub_eq_zero_of_le order]

/-- A frame reaching beyond what was read is stored from there on. -/
theorem recvStore_beyond (f : FrameStream) (bytes : Bytes) (beyond : recv.readOffset < f.endOffset)
    (unwrapped : f.endOffset.toNat = f.startOffset.toNat + f.length.toNat) :
    (recvStore recv f bytes).data =
        Ring.wrapCopy 65536 recv.data (max f.startOffset.toNat recv.readOffset.toNat)
          (bytes.drop (recv.readOffset.toNat - f.startOffset.toNat)) ∧
      (recvStore recv f bytes).recvOffset.toNat =
        max recv.recvOffset.toNat (f.startOffset.toNat + f.length.toNat) ∧
      (recvStore recv f bytes).readOffset = recv.readOffset := by
  -- The part below the read offset is skipped, and the frontier only moves forward.
  refine ⟨recvStore_data recv f bytes beyond, ?_, ?_⟩
  · unfold recvStore
    rw [if_pos beyond, ← unwrapped]
    exact Word.toNat_max_guarded _ _
  · unfold recvStore
    rw [if_pos beyond]

/-- Reading returns the next bytes of the window and moves past them. -/
theorem streamRead_spec (s : Stream) (bufLen : UInt64)
    (ordered : s.recv.readOffset ≤ s.recv.recvOffset) :
    let count := min bufLen.toNat (s.recv.recvOffset.toNat - s.recv.readOffset.toNat)
    (streamRead s bufLen).1 = Ring.wrapRead 65536 s.recv.data s.recv.readOffset.toNat count ∧
      (streamRead s bufLen).2.1 = recvFinReached (streamRead s bufLen).2.2.recv ∧
      (streamRead s bufLen).2.2.recv.readOffset.toNat = s.recv.readOffset.toNat + count ∧
      (streamRead s bufLen).2.2.recv.data = s.recv.data ∧
      (streamRead s bufLen).2.2.recv.recvOffset = s.recv.recvOffset ∧
      (streamRead s bufLen).2.2.recv.finReceived = s.recv.finReceived ∧
      (streamRead s bufLen).2.2.recv.finOffset = s.recv.finOffset := by
  intro count
  have order := UInt64.le_iff_toNat_le.mp ordered
  unfold streamRead
  split
  · -- An empty window yields nothing and changes nothing.
    rename_i empty
    have none := UInt64.le_iff_toNat_le.mp empty
    have zero : count = 0 := by omega
    simp [zero, Ring.wrapRead, Ring.readAt]
  · rename_i filled
    have some := UInt64.lt_iff_toNat_lt.mp (UInt64.not_le.mp filled)
    have available := UInt64.toNat_sub_of_le _ _ ordered
    have bound := s.recv.recvOffset.toNat_lt
    have taken : (if bufLen < s.recv.recvOffset - s.recv.readOffset then bufLen
        else s.recv.recvOffset - s.recv.readOffset).toNat = count := by
      rw [Word.toNat_min_guarded, available]
    refine ⟨?_, rfl, ?_, rfl, rfl, rfl, rfl⟩
    · simp only [taken, streamBufSize_toNat]
    · simp only [UInt64.toNat_add, taken]
      omega

theorem streamWriteAvail_le (s : Stream) (ordered : s.send.ackedOffset ≤ s.send.writeOffset) :
    (streamWriteAvail s).toNat ≤
        65536 - (s.send.writeOffset.toNat - s.send.ackedOffset.toNat) ∧
      s.send.writeOffset.toNat + (streamWriteAvail s).toNat < 2 ^ 64 := by
  -- Both bounds are differences that the code computes only when they are positive.
  have buffered := UInt64.toNat_sub_of_le _ _ ordered
  have writeBound := s.send.writeOffset.toNat_lt
  have peerBound := s.flow.peerMaxData.toNat_lt
  simp only [streamWriteAvail, gt_iff_lt, Word.toNat_min_guarded, Word.toNat_sub_guarded, buffered,
    streamBufSize_toNat]
  omega

/-- How much remains unsent. -/
theorem streamUnsent_toNat (s : Stream) :
    (streamUnsent s).toNat = s.send.writeOffset.toNat - s.send.sentOffset.toNat := by
  rw [← Word.toNat_sub_guarded, streamUnsent]
  grind

/-- A write accepts no more than was offered and no more than there is room for. -/
theorem streamWriteCount_le (s : Stream) (data : Bytes)
    (ordered : s.send.ackedOffset ≤ s.send.writeOffset) :
    let count := (streamWriteCount s (UInt64.ofNat data.length)).toNat
    count ≤ data.length ∧
      count ≤ 65536 - (s.send.writeOffset.toNat - s.send.ackedOffset.toNat) ∧
      s.send.writeOffset.toNat + count < 2 ^ 64 := by
  intro count
  obtain ⟨room, small⟩ := streamWriteAvail_le s ordered
  have taken : count = _ :=
    Word.toNat_min_guarded (UInt64.ofNat data.length) (streamWriteAvail s)
  have fits : (UInt64.ofNat data.length).toNat ≤ data.length := by
    rw [UInt64.toNat_ofNat']
    exact Nat.mod_le _ _
  omega

/-- A write either changes nothing or appends the stretch it counts. -/
theorem streamWrite_cases (s : Stream) (data : Bytes) (fin : Bool) :
    let count := streamWriteCount s (UInt64.ofNat data.length)
    streamWrite s data fin = (none, s) ∨
      streamWrite s data fin = (some count, { s with send := { s.send with
        data := Ring.wrapCopy 65536 s.send.data s.send.writeOffset.toNat (data.take count.toNat)
        writeOffset := s.send.writeOffset + count
        fin := fin } }) := by
  intro count
  by_cases refused : s.state = .halfClosedLocal ∨ s.state = .closed ∨ s.state = .reset
  · left
    simp only [streamWrite, if_pos refused]
  · by_cases finished : s.send.fin = true
    · left
      simp only [streamWrite, if_neg refused, finished, if_true]
    · -- A write of nothing is a copy of the empty block.
      right
      simp only [streamWrite, if_neg refused, finished, Bool.false_eq_true, if_false]
      by_cases positive : 0 < count
      · simp only [gt_iff_lt, count, positive, if_true, streamBufSize_toNat]
        cases fin <;> simp_all
      · have zero : streamWriteCount s (UInt64.ofNat data.length) = 0 := by grind
        have unfinished : s.send.fin = false := by simpa using finished
        simp only [count, zero, UInt64.toNat_zero, List.take_zero, Ring.wrapCopy_nil,
          UInt64.add_zero, gt_iff_lt, UInt64.lt_irrefl, if_false]
        cases fin
        · simp only [Bool.false_eq_true, if_false]
          rw [← unfinished]
        · simp

/-- Whether a stream takes data. -/
def Stream.Writable (s : Stream) : Prop :=
  ¬ (s.state = .halfClosedLocal ∨ s.state = .closed ∨ s.state = .reset) ∧ s.send.fin = false

/-- A stream that takes no data refuses a write. -/
theorem streamWrite_refused (closed : ¬ s.Writable) (data : Bytes) (fin : Bool) :
    streamWrite s data fin = (none, s) := by
  unfold streamWrite
  by_cases done : s.state = .halfClosedLocal ∨ s.state = .closed ∨ s.state = .reset
  · rw [if_pos done]
  · have ended : s.send.fin = true := by
      by_contra marked
      exact closed ⟨done, Bool.eq_false_iff.mpr marked⟩
    rw [if_neg done, if_pos ended]

/-- A stream that takes data accepts what it has room and credit for. -/
theorem streamWrite_accepted (writable : s.Writable) (data : Bytes) (fin : Bool) :
    let count := streamWriteCount s (UInt64.ofNat data.length)
    streamWrite s data fin = (some count, { s with send := { s.send with
      data := Ring.wrapCopy 65536 s.send.data s.send.writeOffset.toNat (data.take count.toNat)
      writeOffset := s.send.writeOffset + count
      fin := fin } }) := by
  rcases streamWrite_cases s data fin with refused | accepted
  · unfold streamWrite at refused
    rw [if_neg writable.1, if_neg (by rw [writable.2]; exact Bool.false_ne_true)] at refused
    cases refused
  · exact accepted

/-- The next frame is cut at what is unsent, at the caller's limit and at the buffer's end. -/
theorem streamFillLen_toNat (s : Stream) (maxDataLen : UInt64) :
    (streamFillLen s maxDataLen).toNat =
      min (min (s.send.writeOffset.toNat - s.send.sentOffset.toNat) maxDataLen.toNat)
        (65536 - s.send.sentOffset.toNat % 65536) := by
  have unsent := streamUnsent_toNat s
  have cut := Word.toNat_min_guarded (streamUnsent s) maxDataLen
  have small : s.send.sentOffset % streamBufSize ≤ streamBufSize := by
    rw [UInt64.le_iff_toNat_le, UInt64.toNat_mod, streamBufSize_toNat]
    omega
  have room := UInt64.toNat_sub_of_le _ _ small
  rw [UInt64.toNat_mod, streamBufSize_toNat] at room
  rw [streamFillLen, Word.toNat_min_guarded_le, cut, unsent, room]

/-- A frame that takes the next stretch of a stream, and the stream it leaves. -/
structure Fills (s : Stream) (maxDataLen : UInt64) (f : FrameStream) (s' : Stream) : Prop where
  left : s' = { s with send := { s.send with
    finSent := s.send.finSent || f.fin
    sentOffset := s.send.sentOffset + f.length } }
  id : f.streamId = s.id
  offset : f.offset = s.send.sentOffset
  placed : f.hasOffset = decide (f.offset > 0)
  sized : f.hasLength = true
  length : f.length = streamFillLen s maxDataLen
  data : f.data.getD [] =
    Ring.readAt s.send.data (s.send.sentOffset.toNat % 65536) f.length.toNat
  fin : f.fin = (streamFinPending s && s.send.sentOffset + f.length == s.send.writeOffset)

/-- The offset field is left out exactly when it is zero. -/
theorem Fills.start (fills : Fills s maxDataLen f s') :
    f.startOffset = s.send.sentOffset := by
  rw [FrameStream.startOffset, fills.placed, fills.offset]
  grind

/-- A frame is not filled only when the stream has neither octets nor its end to send. -/
theorem streamFillFrame_idle (idle : streamFillFrame s maxDataLen = (none, s')) :
    s' = s ∧ streamUnsent s = 0 ∧ streamFinPending s = false := by
  unfold streamFillFrame at idle
  split at idle
  · rename_i nothing
    exact ⟨(Prod.mk.inj idle).2.symm, nothing.1, by simpa using nothing.2⟩
  · cases idle

/-- A frame that is filled takes the next stretch. -/
theorem streamFillFrame_fills
    (filled : streamFillFrame s maxDataLen = (some f, s')) : Fills s maxDataLen f s' := by
  unfold streamFillFrame at filled
  split at filled
  · cases filled
  · cases filled
    refine ⟨?_, rfl, rfl, rfl, rfl, rfl, ?_, rfl⟩
    · simp only
      split
      · simp_all
      · simp_all
    · simp only [gt_iff_lt, UInt64.toNat_mod, streamBufSize_toNat]
      split
      · rfl
      · have zero : streamFillLen s maxDataLen = 0 := by grind
        simp [zero, Ring.readAt]

/-- A lifecycle move touches nothing else. -/
@[simp] theorem setStreamState_send (s : Stream) (newState : StreamState) :
    (setStreamState s newState).send = s.send := by
  unfold setStreamState
  split <;> rfl

/-- An acknowledgement only moves the acknowledged frontier and settles the end mark. -/
theorem streamOnAck_send (s : Stream) (offset : UInt64) (len : UInt32) (fin : Bool) :
    (streamOnAck s offset len fin).send = { s.send with
      ackedOffset :=
        if s.send.ackedOffset < offset + len.toUInt64 then offset + len.toUInt64
        else s.send.ackedOffset
      finAcked := s.send.finAcked || fin } := by
  unfold streamOnAck
  cases fin with
  | false => by_cases ahead : s.send.ackedOffset < offset + len.toUInt64 <;> simp [ahead]
  | true =>
    by_cases ahead : s.send.ackedOffset < offset + len.toUInt64 <;>
      simp only [gt_iff_lt, ahead, if_true, if_false, Bool.or_true] <;> split <;> simp

/-- A loss only rewinds the sent frontier and revives the end mark. -/
theorem streamOnLoss_send (s : Stream) (offset : UInt64) (len : UInt32) (fin : Bool) :
    streamOnLoss s offset len fin = { s with send := { s.send with
      sentOffset := if offset < s.send.sentOffset then offset else s.send.sentOffset
      finSent := s.send.finSent && !fin } } := by
  unfold streamOnLoss
  cases fin <;> by_cases behind : offset < s.send.sentOffset <;> simp [behind]

/-- Filling a frame moves the sent frontier up to where the frame ends, without wrapping. -/
theorem streamFillFrame_frontier (filled : streamFillFrame s maxDataLen = (some f, s')) :
    s'.id = s.id ∧ f.streamId = s.id ∧ f.offset = s.send.sentOffset ∧
      f.length.toNat ≤ maxDataLen.toNat ∧
      s'.send.sentOffset.toNat = s.send.sentOffset.toNat + f.length.toNat ∧
      s'.send.finSent = (s.send.finSent || f.fin) := by
  obtain ⟨rfl, id, offset, -, -, length, -, -⟩ := streamFillFrame_fills filled
  -- The frame ends at or before what was written, so the sum stays within the word.
  have cut := streamFillLen_toNat s maxDataLen
  have written := s.send.writeOffset.toNat_lt
  have sent := s.send.sentOffset.toNat_lt
  refine ⟨rfl, id, offset, by rw [length]; omega, ?_, rfl⟩
  simp only [UInt64.toNat_add, length]
  omega

/-- Winding back over a frame that was just filled restores the stream. -/
theorem streamOnLoss_filled (filled : streamFillFrame s maxDataLen = (some f, s')) (len : UInt32) :
    streamOnLoss s' f.offset len f.fin = s := by
  obtain ⟨-, -, offset, -, frontier, -⟩ := streamFillFrame_frontier filled
  obtain ⟨rfl, -, -, -, -, -, -, fin⟩ := streamFillFrame_fills filled
  rw [streamOnLoss_send, offset]
  simp only at frontier ⊢
  have back : (if s.send.sentOffset < s.send.sentOffset + f.length then s.send.sentOffset
      else s.send.sentOffset + f.length) = s.send.sentOffset := by
    -- A frame that moves nothing ends where it begins.
    split
    · rfl
    · rename_i still
      rw [UInt64.lt_iff_toNat_lt] at still
      rw [← UInt64.toNat_inj]
      omega
  have mark : ((s.send.finSent || f.fin) && !f.fin) = s.send.finSent := by
    rw [fin, streamFinPending]
    cases s.send.finSent <;> simp
  rw [back, mark]

/-- Receiving a frame leaves the sending direction alone. -/
theorem streamOnRecv_send (s : Stream) (f : FrameStream) :
    (streamOnRecv s f).2.id = s.id ∧ (streamOnRecv s f).2.send = s.send := by
  have data : (recvData s f).id = s.id ∧ (recvData s f).send = s.send := by
    unfold recvData
    split
    · exact ⟨rfl, rfl⟩
    · split <;> exact ⟨rfl, rfl⟩
  have mark (s : Stream) : (recvFin s f).id = s.id ∧ (recvFin s f).send = s.send := by
    unfold recvFin setStreamState
    simp only
    repeat' split
    all_goals exact ⟨rfl, rfl⟩
  unfold streamOnRecv
  split
  · exact ⟨rfl, rfl⟩
  · split
    · exact ⟨rfl, rfl⟩
    · exact ⟨(mark _).1.trans data.1, (mark _).2.trans data.2⟩

/-- Reading leaves the sending direction alone. -/
theorem streamRead_send (s : Stream) (bufLen : UInt64) :
    (streamRead s bufLen).2.2.id = s.id ∧ (streamRead s bufLen).2.2.send = s.send := by
  unfold streamRead
  split <;> exact ⟨rfl, rfl⟩

/-- Writing leaves what was sent alone. -/
theorem streamWrite_sent (s : Stream) (data : Bytes) (fin : Bool) :
    (streamWrite s data fin).2.id = s.id ∧
      (streamWrite s data fin).2.send.sentOffset = s.send.sentOffset ∧
      (streamWrite s data fin).2.send.finSent = s.send.finSent := by
  rcases streamWrite_cases s data fin with refused | accepted
  · rw [refused]
    exact ⟨rfl, rfl, rfl⟩
  · rw [accepted]
    exact ⟨rfl, rfl, rfl⟩

end Nxp
