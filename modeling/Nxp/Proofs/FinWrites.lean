import Nxp.Core.CreditLaws

/-! Whether the end of a stream is sent where the application asked for it. -/

namespace Nxp

variable {t : FinTrace} {op : StreamOp}

/-- What can happen to a stream. -/
inductive StreamOp where
  | write (data : Bytes) (fin : Bool)
  | fill (maxDataLen : UInt64)
  | ack (offset : UInt64) (len : UInt32) (fin : Bool)
  | loss (offset : UInt64) (len : UInt32) (fin : Bool)
  | setPeerMax (maxData : UInt64)
  | recv (f : FrameStream)
  | read (bufLen : UInt64)

/-- A stream with the ends the application got to write and the ends that went into frames, and with
what is left of a last write that was accepted only in part. -/
structure FinTrace where
  stream : Stream
  written : List UInt64
  marked : List UInt64
  left : Option Bytes

/-- A new stream that was given nothing. -/
def finTraceInit (id : UInt64) (type : StreamType) (initialMaxSend initialMaxRecv : UInt64) :
    FinTrace :=
  ⟨streamCreate id type initialMaxSend initialMaxRecv, [], [], none⟩

/-- Note what became of a write: its end, if all of it was accepted, or what is left of it. -/
def FinTrace.noteWrite (t : FinTrace) (data : Bytes) (fin : Bool) (count : UInt64) (s : Stream) :
    FinTrace where
  stream := s
  written :=
    if fin ∧ count = UInt64.ofNat data.length then s.send.writeOffset :: t.written else t.written
  marked := t.marked
  left := if fin ∧ count < UInt64.ofNat data.length then some (data.drop count.toNat) else none

/-- What an event does. -/
def finStep (t : FinTrace) : StreamOp → FinTrace
  | .write data fin =>
    match streamWrite t.stream data fin with
    | (none, s) => { t with stream := s }
    | (some count, s) => t.noteWrite data fin count s
  | .fill maxDataLen =>
    match streamFillFrame t.stream maxDataLen with
    | (none, s) => { t with stream := s }
    | (some f, s) =>
      { t with stream := s, marked := if f.fin then (f.offset + f.length) :: t.marked else t.marked }
  | .ack offset len fin => { t with stream := streamOnAck t.stream offset len fin }
  | .loss offset len fin => { t with stream := streamOnLoss t.stream offset len fin }
  | .setPeerMax maxData =>
    { t with stream := { t.stream with flow := flowSetPeerMax t.stream.flow maxData } }
  | .recv f => { t with stream := (streamOnRecv t.stream f).2 }
  | .read bufLen => { t with stream := (streamRead t.stream bufLen).2.2 }

/-- Every end that went into a frame is one the application got to write, and what is left of a last
write is still taken, with no end sent before. -/
def FinTrace.Ends (t : FinTrace) : Prop :=
  (∀ mark ∈ t.marked, mark ∈ t.written) ∧
    ∀ rest ∈ t.left, (streamWrite t.stream rest true).1.isSome = true ∧
      ∀ maxDataLen, ∀ f ∈ (streamFillFrame t.stream maxDataLen).1, f.fin = false

/-- Both the buffer and the peer's limit have room for more octets. -/
def Stream.HasRoom (s : Stream) (len : UInt64) : Prop :=
  len.toNat ≤ 65536 - (s.send.writeOffset - s.send.ackedOffset).toNat ∧
    len.toNat ≤ s.flow.peerMaxData.toNat - s.send.writeOffset.toNat

/-- A write that ends a stream that takes data finds room for all its octets. -/
def StreamOp.Whole (t : FinTrace) : StreamOp → Prop
  | .write data true => t.stream.Writable → t.stream.HasRoom (UInt64.ofNat data.length)
  | _ => True

/-- The ends so far are in order, and nothing is left of a write. -/
structure FinTrace.Orderly (t : FinTrace) : Prop where
  nothing : t.left = none
  marks : ∀ mark ∈ t.marked, mark ∈ t.written
  ended : t.stream.send.fin = true → t.stream.send.writeOffset ∈ t.written

/-- A write is whole exactly when the buffer has room for it. -/
theorem hasRoom_iff (s : Stream) (len : UInt64) :
    s.HasRoom len ↔ streamWriteCount s len = len := by
  have count : (streamWriteCount s len).toNat = min len.toNat (streamWriteAvail s).toNat :=
    Word.toNat_min_guarded ..
  have avail : (streamWriteAvail s).toNat =
      min (s.flow.peerMaxData.toNat - s.send.writeOffset.toNat)
        (65536 - (s.send.writeOffset - s.send.ackedOffset).toNat) := by
    simp only [streamWriteAvail, gt_iff_lt, Word.toNat_min_guarded, Word.toNat_sub_guarded,
      streamBufSize_toNat]
  unfold Stream.HasRoom
  rw [← UInt64.toNat_inj]
  omega

theorem FinTrace.Orderly.aside (orderly : t.Orderly) (s : Stream)
    (fin : s.send.fin = t.stream.send.fin)
    (writeOffset : s.send.writeOffset = t.stream.send.writeOffset) :
    FinTrace.Orderly { t with stream := s } where
  nothing := orderly.nothing
  marks := orderly.marks
  ended := by
    rw [fin, writeOffset]
    exact orderly.ended

theorem FinTrace.Orderly.write (orderly : t.Orderly) {data : Bytes} {fin : Bool}
    (whole : (StreamOp.write data fin).Whole t) : (finStep t (.write data fin)).Orderly := by
  by_cases writable : t.stream.Writable
  · simp only [finStep, streamWrite_accepted writable]
    cases fin with
    | false =>
      simp only [FinTrace.noteWrite, Bool.false_eq_true, false_and, if_false]
      exact ⟨rfl, orderly.marks, fun ends => nomatch ends⟩
    | true =>
      -- All of it was accepted, so its end is among those written.
      have all := (hasRoom_iff ..).mp (whole writable)
      simp only [FinTrace.noteWrite, all, and_self, if_true, UInt64.lt_irrefl, and_false, if_false]
      refine ⟨rfl, fun mark member => ?_, fun _ => List.mem_cons_self ..⟩
      exact List.mem_cons_of_mem _ (orderly.marks mark member)
  · simp only [finStep, streamWrite_refused writable]
    exact orderly

theorem FinTrace.Orderly.fill (orderly : t.Orderly) (maxDataLen : UInt64) :
    (finStep t (.fill maxDataLen)).Orderly := by
  rcases filled : streamFillFrame t.stream maxDataLen with ⟨_ | f, s'⟩
  · obtain ⟨rfl, -⟩ := streamFillFrame_idle filled
    simp only [finStep, filled]
    exact orderly
  · obtain ⟨rfl, -, offset, -, -, -, -, fin⟩ := streamFillFrame_fills filled
    simp only [finStep, filled]
    refine ⟨orderly.nothing, ?_, orderly.ended⟩
    intro mark member
    split at member
    · rename_i marks
      rcases List.mem_cons.mp member with rfl | before
      · -- A mark is put where the octets sent reach those written.
        rw [marks, eq_comm, Bool.and_eq_true, beq_iff_eq] at fin
        rw [offset, fin.2]
        refine orderly.ended ?_
        have pending := fin.1
        unfold streamFinPending at pending
        exact (Bool.and_eq_true_iff.mp pending).1
      · exact orderly.marks mark before
    · exact orderly.marks mark member

/-- A whole operation keeps the trace orderly. -/
theorem finStep_orderly (orderly : t.Orderly) (whole : op.Whole t) :
    (finStep t op).Orderly := by
  cases op with
  | write data fin => exact orderly.write whole
  | fill maxDataLen => exact orderly.fill maxDataLen
  | ack offset len fin =>
    have send := streamOnAck_send t.stream offset len fin
    exact orderly.aside _ (by rw [send]) (by rw [send])
  | loss offset len fin =>
    have rewound := streamOnLoss_send t.stream offset len fin
    exact orderly.aside _ (by rw [rewound]) (by rw [rewound])
  | setPeerMax maxData => exact orderly.aside _ rfl rfl
  | recv f =>
    have send := (streamOnRecv_send t.stream f).2
    exact orderly.aside _ (by rw [send]) (by rw [send])
  | read bufLen =>
    have send := (streamRead_send t.stream bufLen).2
    exact orderly.aside _ (by rw [send]) (by rw [send])

/-- A write cut short loses an end. -/
theorem finStep_cut (cut : ¬ op.Whole t) : ¬
    (finStep t op).Ends := by
  intro ends
  cases op with
  | write data fin =>
    cases fin with
    | false => exact cut trivial
    | true =>
      simp only [StreamOp.Whole, Classical.not_imp] at cut
      obtain ⟨writable, short⟩ := cut
      have less : streamWriteCount t.stream (UInt64.ofNat data.length) < UInt64.ofNat data.length := by
        refine UInt64.lt_of_le_of_ne ?_ ((hasRoom_iff ..).not.mp short)
        rw [UInt64.le_iff_toNat_le]
        exact Nat.le_trans (Nat.le_of_eq (Word.toNat_min_guarded ..)) (Nat.min_le_left ..)
      simp only [finStep, streamWrite_accepted writable] at ends
      have again := (ends.2 _ (by simp [FinTrace.noteWrite, less]; rfl)).1
      rw [streamWrite_refused fun takes => Bool.false_ne_true takes.2.symm] at again
      cases again
  | _ => exact cut trivial

/-- In every run of a stream, the end is sent only where an accepted write ended it and what is left
of a write is still accepted, exactly when every write that ends a stream that takes data finds
room for all its octets. -/
theorem ends_kept_iff (id : UInt64) (type : StreamType) (initialMaxSend initialMaxRecv : UInt64)
    (ops : List StreamOp) :
    (∀ past rest, ops = past ++ rest →
      (Machine.run finStep (finTraceInit id type initialMaxSend initialMaxRecv) past).Ends) ↔
    Machine.Along finStep (fun t op => op.Whole t)
      (finTraceInit id type initialMaxSend initialMaxRecv) ops := by
  refine Machine.run_everywhere_iff _ FinTrace.Orderly FinTrace.Ends ?_
    (fun _ _ orderly whole => finStep_orderly orderly whole) (fun _ _ _ cut => finStep_cut cut) ?_
  · intro t orderly
    refine ⟨orderly.marks, fun rest member => ?_⟩
    rw [orderly.nothing] at member
    cases member
  · exact ⟨rfl, by simp [finTraceInit], by simp [finTraceInit, streamCreate]⟩

/-- Of five octets that end a stream three are accepted under a limit of three. The end is then sent
behind the third, and the other two are refused although the limit has been raised. -/
theorem end_misplaced :
    let t := finStep (finTraceInit 0 .reliable 3 100) (.write [1, 2, 3, 4, 5] true)
    t.left = some [4, 5] ∧
    ((streamFillFrame t.stream 100).1.map fun f => (f.offset, f.length, f.fin)) =
      some (0, 3, true) ∧
    (streamWrite (finStep t (.setPeerMax 100)).stream [4, 5] true).1 = none := by
  decide +kernel

end Nxp
