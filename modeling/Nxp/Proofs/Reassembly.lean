import Nxp.Core.StreamLaws
import Nxp.Lib.Machine

/-! Reassembly of a stream: what the application reads is a prefix of what the peer sent. -/

namespace Nxp

variable {sequence bytes : Bytes} {f : FrameStream} {t : RecvTrace}

/-- What can happen to the receiving direction of a stream. -/
inductive RecvOp where
  | recv (f : FrameStream)
  | read (bufLen : UInt64)

/-- A stream together with what was read from it and the stretches it accepted. -/
structure RecvTrace where
  stream : Stream
  output : Bytes
  accepted : List (Nat × Nat)

/-- A new stream from which nothing was read. -/
def recvTraceInit (id : UInt64) (type : StreamType) (initialMaxSend initialMaxRecv : UInt64) :
    RecvTrace :=
  ⟨streamCreate id type initialMaxSend initialMaxRecv, [], []⟩

/-- One event, recording what the application got or what the stream accepted. -/
def recvStep (t : RecvTrace) : RecvOp → RecvTrace
  | .recv f =>
    { t with
      stream := (streamOnRecv t.stream f).2
      accepted :=
        if (streamOnRecv t.stream f).1 = .ok then
          (f.startOffset.toNat, f.startOffset.toNat + f.length.toNat) :: t.accepted
        else t.accepted }
  | .read bufLen =>
    { t with
      stream := (streamRead t.stream bufLen).2.2
      output := t.output ++ (streamRead t.stream bufLen).1 }

/-- A frame that puts given bytes at an offset. -/
def frameAt (offset : UInt64) (bytes : Bytes) (fin : Bool) (small : bytes.length < 2 ^ 64) :
    FrameStream where
  streamId := 0
  offset := offset
  length := UInt64.ofNat bytes.length
  hasOffset := true
  hasLength := true
  fin := fin
  data := some bytes
  covered := by rw [Option.getD_some, UInt64.toNat_ofNat_of_lt' small]

/-- A frame carries its own stretch of the sender's byte sequence. -/
def Carries (sequence : Bytes) (f : FrameStream) : Prop :=
  f.startOffset.toNat + f.length.toNat ≤ sequence.length ∧
    f.data.getD [] = (sequence.drop f.startOffset.toNat).take f.length.toNat

/-- Every frame among the events carries its stretch of the sequence. -/
def RecvOp.Carries (sequence : Bytes) : RecvOp → Prop
  | .recv f => Nxp.Carries sequence f
  | .read _ => True

instance (sequence : Bytes) (f : FrameStream) : Decidable (Carries sequence f) :=
  inferInstanceAs (Decidable (_ ∧ _))

instance (sequence : Bytes) (op : RecvOp) : Decidable (op.Carries sequence) :=
  match op with
  | .recv f => inferInstanceAs (Decidable (Nxp.Carries sequence f))
  | .read _ => inferInstanceAs (Decidable True)

/-- The stream is in a state and has the credit to accept the frame. -/
def Acceptable (s : Stream) (f : FrameStream) : Prop :=
  s.state ≠ .halfClosedRemote ∧ s.state ≠ .closed ∧ s.state ≠ .reset ∧
    f.endOffset ≤ s.flow.localMaxData

/-- A frame that would store data starts at or below the frontier and ends within one lap. -/
def InOrder (s : Stream) (f : FrameStream) : Prop :=
  Acceptable s f → 0 < f.length → s.recv.readOffset < f.endOffset →
    f.startOffset ≤ s.recv.recvOffset ∧
      f.startOffset.toNat + f.length.toNat ≤ s.recv.readOffset.toNat + streamBufSize.toNat

instance (s : Stream) (f : FrameStream) : Decidable (Acceptable s f) :=
  inferInstanceAs (Decidable (_ ∧ _))

instance (s : Stream) (f : FrameStream) : Decidable (InOrder s f) :=
  inferInstanceAs (Decidable (_ → _))

/-- The condition on an event: a frame arrives in order, and reads are free. -/
def RecvOp.InOrder (t : RecvTrace) : RecvOp → Prop
  | .recv f => Nxp.InOrder t.stream f
  | .read _ => True

instance (t : RecvTrace) (op : RecvOp) : Decidable (op.InOrder t) :=
  match op with
  | .recv f => inferInstanceAs (Decidable (Nxp.InOrder t.stream f))
  | .read _ => inferInstanceAs (Decidable True)

/-- Reassembly is faithful: the window holds the sequence and everything below it was read. -/
structure Reassembled (sequence : Bytes) (t : RecvTrace) : Prop where
  output : t.output = sequence.take t.stream.recv.readOffset.toNat
  ordered : t.stream.recv.readOffset ≤ t.stream.recv.recvOffset
  bounded : t.stream.recv.recvOffset.toNat ≤ sequence.length
  lap : t.stream.recv.recvOffset.toNat ≤ t.stream.recv.readOffset.toNat + 65536
  held : Ring.Holds 65536 t.stream.recv.data (fun o => sequence.getD o 0)
    (Set.Ico t.stream.recv.readOffset.toNat t.stream.recv.recvOffset.toNat)
  covered : ∀ o < t.stream.recv.recvOffset.toNat,
    ∃ stretch ∈ t.accepted, stretch.1 ≤ o ∧ o < stretch.2

theorem recvTraceInit_reassembled (sequence : Bytes) (id : UInt64) (type : StreamType)
    (initialMaxSend initialMaxRecv : UInt64) :
    Reassembled sequence (recvTraceInit id type initialMaxSend initialMaxRecv) where
  output := by simp [recvTraceInit, streamCreate]
  ordered := by simp [recvTraceInit, streamCreate]
  bounded := by simp [recvTraceInit, streamCreate]
  lap := by simp [recvTraceInit, streamCreate]
  held := by
    intro o member
    simp [recvTraceInit, streamCreate] at member
  covered := by simp [recvTraceInit, streamCreate]

/-- An acceptable frame is exactly one whose processing succeeds. -/
theorem acceptable_iff (s : Stream) (f : FrameStream) :
    Acceptable s f ↔ (streamOnRecv s f).1 = .ok := by
  -- The two refusals of the code are the two halves of the predicate.
  unfold Acceptable streamOnRecv
  split
  · rename_i closed
    simp only [reduceCtorEq, iff_false]
    grind
  · rename_i notClosed
    split
    · rename_i beyond
      have := UInt64.not_le.mpr beyond
      simp only [reduceCtorEq, iff_false]
      grind
    · rename_i within
      have := UInt64.not_lt.mp within
      simp only [iff_true]
      grind

/-- The data of a carried frame, past what was read, is the sequence from there on. -/
theorem carries_getElem (carried : Carries sequence f) (found : f.data = some bytes)
    (skip i : Nat) (within : i < (bytes.drop skip).length) :
    (bytes.drop skip)[i] = sequence.getD (f.startOffset.toNat + skip + i) 0 := by
  -- The frame's data is a slice of the sequence, so both sides read the same position.
  obtain ⟨bounded, slice⟩ := carried
  simp only [found, Option.getD_some] at slice
  subst slice
  simp only [List.length_drop, List.length_take] at within
  have inside : f.startOffset.toNat + (skip + i) < sequence.length := by omega
  simp [Nat.add_assoc, List.getElem?_eq_getElem inside]

/-- Storing an in-order frame extends the faithful window to the frame's end. -/
theorem recvStore_window {recv : RecvBuf} (carried : Carries sequence f)
    (found : f.data = some bytes) (ordered : recv.readOffset ≤ recv.recvOffset)
    (lap : recv.recvOffset.toNat ≤ recv.readOffset.toNat + 65536)
    (held : Ring.Holds 65536 recv.data (fun o => sequence.getD o 0)
      (Set.Ico recv.readOffset.toNat recv.recvOffset.toNat))
    (beyond : recv.readOffset < f.endOffset)
    (unwrapped : f.endOffset.toNat = f.startOffset.toNat + f.length.toNat)
    (joined : f.startOffset ≤ recv.recvOffset)
    (fits : f.startOffset.toNat + f.length.toNat ≤ recv.readOffset.toNat + 65536) :
    Ring.Holds 65536 (recvStore recv f bytes).data (fun o => sequence.getD o 0)
      (Set.Ico recv.readOffset.toNat
        (max recv.recvOffset.toNat (f.startOffset.toNat + f.length.toNat))) := by
  -- The copied block starts at the later of the frame's start and the read offset.
  have count := f.length_of_data found
  have order := UInt64.le_iff_toNat_le.mp ordered
  have ahead := UInt64.lt_iff_toNat_lt.mp beyond
  have meets := UInt64.le_iff_toNat_le.mp joined
  rw [(recvStore_beyond recv f bytes beyond unwrapped).1]
  refine (Ring.Holds.wrapCopy recv.readOffset.toNat held ?_ ?_ ?_ ?_).mono ?_
  · exact Set.Ico_subset_Ico_right lap
  · omega
  · simp only [List.length_drop, count]
    omega
  · intro i within
    rw [carries_getElem carried found _ i within]
    congr 1
    omega
  · -- Together the old window and the block leave no gap.
    intro o member
    simp only [Set.mem_union, Set.mem_Ico, List.length_drop, count] at member ⊢
    omega

/-- Within one lap of the read offset, the end of a frame beyond it does not wrap. -/
theorem endOffset_unwrapped {s : Stream} (beyond : s.recv.readOffset < f.endOffset)
    (fits : f.startOffset.toNat + f.length.toNat ≤ s.recv.readOffset.toNat + 65536) :
    f.endOffset.toNat = f.startOffset.toNat + f.length.toNat := by
  -- A wrapped end would fall a whole range below, and so behind the read offset.
  have ahead := UInt64.lt_iff_toNat_lt.mp beyond
  have startBound := f.startOffset.toNat_lt
  have lengthBound := f.length.toNat_lt
  have readBound := s.recv.readOffset.toNat_lt
  simp only [FrameStream.endOffset, UInt64.toNat_add] at ahead ⊢
  omega

/-- An in-order frame keeps reassembly faithful. -/
theorem recvStep_recv_reassembled (faithful : Reassembled sequence t) (carried : Carries sequence f)
    (inOrder : InOrder t.stream f) : Reassembled sequence (recvStep t (.recv f)) := by
  by_cases accepted : (streamOnRecv t.stream f).1 = .ok
  case neg =>
    -- A refused frame leaves both the stream and the record as they were.
    have same := streamOnRecv_refused accepted
    have kept : recvStep t (.recv f) = t := by
      simp only [recvStep, same, if_neg accepted]
    rw [kept]
    exact faithful
  have result := (streamOnRecv_accepted accepted).2
  obtain ⟨sameData, sameRead, sameRecv⟩ := recvFin_recv (recvData t.stream f) f
  have wider : ∀ o < t.stream.recv.recvOffset.toNat,
      ∃ stretch ∈ (recvStep t (.recv f)).accepted, stretch.1 ≤ o ∧ o < stretch.2 := by
    intro o below
    obtain ⟨stretch, member, inside⟩ := faithful.covered o below
    refine ⟨stretch, ?_, inside⟩
    simp only [recvStep, if_pos accepted, List.mem_cons, member, or_true]
  by_cases stores : 0 < f.length ∧ t.stream.recv.readOffset < f.endOffset
  case neg =>
    -- Nothing is stored: the frame is empty or wholly below the read offset.
    have kept := recvData_kept stores
    rw [kept] at sameData sameRead sameRecv
    refine ⟨?_, ?_, ?_, ?_, ?_, ?_⟩ <;>
      simp only [recvStep, result, sameData, sameRead, sameRecv] at wider ⊢
    · exact faithful.output
    · exact faithful.ordered
    · exact faithful.bounded
    · exact faithful.lap
    · exact faithful.held
    · exact wider
  obtain ⟨positive, beyond⟩ := stores
  obtain ⟨joined, fits⟩ := inOrder ((acceptable_iff _ _).mpr accepted) positive beyond
  rw [streamBufSize_toNat] at fits
  have unwrapped := endOffset_unwrapped beyond fits
  obtain ⟨bytes, found⟩ := f.data_of_positive positive
  have stored := recvData_stored (s := t.stream) found positive
  obtain ⟨-, frontier, readSame⟩ := recvStore_beyond t.stream.recv f bytes beyond unwrapped
  have window := recvStore_window carried found faithful.ordered faithful.lap faithful.held
    beyond unwrapped joined fits
  rw [stored] at sameData sameRead sameRecv
  have meets := UInt64.le_iff_toNat_le.mp joined
  have order := UInt64.le_iff_toNat_le.mp faithful.ordered
  have lap := faithful.lap
  have inside := faithful.bounded
  have whole := carried.1
  refine ⟨?_, ?_, ?_, ?_, ?_, ?_⟩ <;>
    simp only [recvStep, result, sameData, sameRead, sameRecv, readSame, UInt64.le_iff_toNat_le,
      frontier] at wider ⊢
  · exact faithful.output
  · omega
  · omega
  · omega
  · exact window
  · -- An offset beyond the old frontier lies in the frame just accepted.
    intro o below
    by_cases old : o < t.stream.recv.recvOffset.toNat
    · exact wider o old
    · refine ⟨(f.startOffset.toNat, f.startOffset.toNat + f.length.toNat), ?_, ?_, ?_⟩
      · simp only [if_pos accepted, List.mem_cons, true_or]
      · simp only
        omega
      · simp only
        omega

/-- A read takes octets of the sequence only. -/
theorem recvStep_read_reassembled (bufLen : UInt64)
    (faithful : Reassembled sequence t) : Reassembled sequence (recvStep t (.read bufLen)) := by
  -- The bytes handed over are the next ones of the held window.
  obtain ⟨bytes, -, moved, sameData, sameRecv, -, -⟩ :=
    streamRead_spec t.stream bufLen faithful.ordered
  have order := UInt64.le_iff_toNat_le.mp faithful.ordered
  have lap := faithful.lap
  have inside := faithful.bounded
  have slice : (streamRead t.stream bufLen).1 =
      (sequence.drop t.stream.recv.readOffset.toNat).take
        (min bufLen.toNat
          (t.stream.recv.recvOffset.toNat - t.stream.recv.readOffset.toNat)) := by
    rw [bytes, faithful.held.wrapRead (Set.Ico_subset_Ico_right (by omega)) (by omega),
      Ring.take_drop_eq_map sequence 0 (by omega)]
  refine ⟨?_, ?_, ?_, ?_, ?_, ?_⟩ <;>
    simp only [recvStep, sameData, sameRecv, UInt64.le_iff_toNat_le, moved]
  · rw [slice, faithful.output, List.take_add]
  · omega
  · omega
  · omega
  · exact faithful.held.mono (Set.Ico_subset_Ico_left (by omega))
  · exact faithful.covered

/-- Frames in order and reads of any size only ever hand out a prefix that was accepted. -/
theorem reads_prefix_of_inOrder (sequence : Bytes) (id : UInt64) (type : StreamType)
    (initialMaxSend initialMaxRecv : UInt64) (ops : List RecvOp)
    (carried : ∀ op ∈ ops, op.Carries sequence)
    (inOrder : Machine.Along recvStep (fun t op => op.InOrder t)
      (recvTraceInit id type initialMaxSend initialMaxRecv) ops) :
    let final := Machine.run recvStep (recvTraceInit id type initialMaxSend initialMaxRecv) ops
    final.output <+: sequence ∧
      ∀ o < final.output.length, ∃ stretch ∈ final.accepted, stretch.1 ≤ o ∧ o < stretch.2 := by
  intro final
  have faithful : Reassembled sequence final := by
    refine Machine.run_invariant (fun t op => op.Carries sequence ∧ op.InOrder t)
      ?_ (recvTraceInit_reassembled sequence id type initialMaxSend initialMaxRecv) ?_
    · intro t op faithful condition
      cases op with
      | recv f => exact recvStep_recv_reassembled faithful condition.1 condition.2
      | read bufLen => exact recvStep_read_reassembled bufLen faithful
    · exact Machine.along_and (Machine.along_of_forall fun op member _ => carried op member) inOrder
  refine ⟨?_, ?_⟩
  · rw [faithful.output]
    exact List.take_prefix _ _
  · -- Everything read lies below the frontier, and all of that was accepted.
    intro o below
    refine faithful.covered o ?_
    have order := UInt64.le_iff_toNat_le.mp faithful.ordered
    rw [faithful.output, List.length_take] at below
    omega

/-- Overlapping frames and short reads meet the condition, and the whole sequence comes out. -/
theorem reads_prefix_of_overlap :
    let ops : List RecvOp := [.recv (frameAt 0 [7, 8] false (by decide)), .read 1,
      .recv (frameAt 1 [8, 9] false (by decide)), .read 5]
    let final := Machine.run recvStep (recvTraceInit 0 .reliable 100 100) ops
    final.output = [7, 8, 9] ∧ final.output <+: [7, 8, 9] :=
  ⟨by decide,
    (reads_prefix_of_inOrder [7, 8, 9] 0 .reliable 100 100 _ (by decide) (by decide)).1⟩

/-- A frame that leaves a gap makes the next read return a zero no frame ever carried. -/
theorem reads_gap_not_prefix :
    let ops : List RecvOp := [.recv (frameAt 1 [8] false (by decide)), .read 10]
    let final := Machine.run recvStep (recvTraceInit 0 .reliable 100 100) ops
    (∀ op ∈ ops, op.Carries [7, 8, 9]) ∧ final.output = [0, 8] ∧
      ¬ final.output <+: [7, 8, 9] ∧
      ¬ ∃ stretch ∈ final.accepted, stretch.1 ≤ 0 ∧ 0 < stretch.2 := by
  decide

end Nxp
