import Mathlib.Data.List.GetD
import Nxp.Proofs.Reassembly

/-! Integrity of what a stream sends, through acknowledgements, losses and reuse of the buffer. -/

namespace Nxp

variable {written : Bytes} {send : SendBuf} {t : SendTrace} {f : FrameStream} {offset : UInt64}
  {index : Nat}

/-- What can happen to the sending direction of a stream. -/
inductive SendOp where
  | write (data : Bytes) (fin : Bool)
  | fill (maxDataLen : UInt64)
  | ack (index : Nat)
  | loss (index : Nat)

/-- A stream with all it accepted, the frames it produced and those still awaiting their fate. -/
structure SendTrace where
  stream : Stream
  written : Bytes
  outstanding : List FrameStream
  filled : List FrameStream

/-- A new stream that was given nothing. -/
def sendTraceInit (id : UInt64) (type : StreamType) (initialMaxSend initialMaxRecv : UInt64) :
    SendTrace :=
  ⟨streamCreate id type initialMaxSend initialMaxRecv, [], [], []⟩

/-- One event; a frame is acknowledged or lost at most once, and only after it was produced. -/
def sendStep (t : SendTrace) : SendOp → SendTrace
  | .write data fin =>
    { t with
      stream := (streamWrite t.stream data fin).2
      written := t.written ++ data.take ((streamWrite t.stream data fin).1.getD 0).toNat }
  | .fill maxDataLen =>
    match streamFillFrame t.stream maxDataLen with
    | (none, s) => { t with stream := s }
    | (some f, s) =>
      { t with stream := s, outstanding := f :: t.outstanding, filled := f :: t.filled }
  | .ack index =>
    match t.outstanding[index]? with
    | none => t
    | some f =>
      { t with
        stream := streamOnAck t.stream f.offset f.length.toUInt32 f.fin
        outstanding := t.outstanding.eraseIdx index }
  | .loss index =>
    match t.outstanding[index]? with
    | none => t
    | some f =>
      { t with
        stream := streamOnLoss t.stream f.offset f.length.toUInt32 f.fin
        outstanding := t.outstanding.eraseIdx index }

/-- Acknowledgements stay below the sent frontier, and no loss rewinds below what was released. -/
def SendOp.InOrder (t : SendTrace) : SendOp → Prop
  | .ack index => ∀ f ∈ t.outstanding[index]?,
      f.offset.toNat + f.length.toNat ≤ t.stream.send.sentOffset.toNat
  | .loss index => ∀ f ∈ t.outstanding[index]?,
      t.stream.send.ackedOffset ≤ f.offset ∨ t.stream.send.sentOffset ≤ f.offset
  | _ => True

instance (t : SendTrace) (op : SendOp) : Decidable (op.InOrder t) :=
  match op with
  | .ack _ => inferInstanceAs (Decidable (∀ f ∈ _, _))
  | .loss _ => inferInstanceAs (Decidable (∀ f ∈ _, _))
  | .write _ _ => inferInstanceAs (Decidable True)
  | .fill _ => inferInstanceAs (Decidable True)

/-- A send buffer holds everything accepted and not yet released. -/
structure Backed (written : Bytes) (send : SendBuf) : Prop where
  counted : written.length = send.writeOffset.toNat
  released : send.ackedOffset.toNat ≤ send.sentOffset.toNat
  sent : send.sentOffset.toNat ≤ send.writeOffset.toNat
  lap : send.writeOffset.toNat ≤ send.ackedOffset.toNat + 65536
  held : Ring.Holds 65536 send.data (fun o => written.getD o 0)
    (Set.Ico send.ackedOffset.toNat send.writeOffset.toNat)

/-- The buffer backs what was accepted, and every frame carried its own stretch of it. -/
structure Sendable (t : SendTrace) : Prop where
  backed : Backed t.written t.stream.send
  carried : ∀ f ∈ t.filled, Carries t.written f
  short : ∀ f ∈ t.outstanding, f.length.toNat ≤ 65536

theorem sendTraceInit_sendable (id : UInt64) (type : StreamType)
    (initialMaxSend initialMaxRecv : UInt64) :
    Sendable (sendTraceInit id type initialMaxSend initialMaxRecv) where
  backed := by
    refine ⟨rfl, le_refl _, le_refl _, by simp [sendTraceInit, streamCreate], ?_⟩
    intro o member
    simp [sendTraceInit, streamCreate] at member
  carried := by simp [sendTraceInit]
  short := by simp [sendTraceInit]

theorem Carries.append {sequence : Bytes} (carried : Carries sequence f)
    (more : Bytes) : Carries (sequence ++ more) f := by
  obtain ⟨within, slice⟩ := carried
  refine ⟨by simp only [List.length_append]; omega, ?_⟩
  rw [slice, List.drop_append_of_le_length (by omega), List.take_append_of_le_length]
  rw [List.length_drop]
  omega

/-- Copying accepted bytes above the window backs the longer sequence. -/
theorem Backed.write {block : Bytes} {count : UInt64} (fin : Bool)
    (backed : Backed written send) (length : block.length = count.toNat)
    (room : count.toNat ≤ 65536 - (send.writeOffset.toNat - send.ackedOffset.toNat))
    (small : send.writeOffset.toNat + count.toNat < 2 ^ 64) :
    Backed (written ++ block) { send with
      data := Ring.wrapCopy 65536 send.data send.writeOffset.toNat block
      writeOffset := send.writeOffset + count
      fin := fin } := by
  obtain ⟨counted, released, sent, lap, held⟩ := backed
  have moved : (send.writeOffset + count).toNat = send.writeOffset.toNat + count.toNat := by
    rw [UInt64.toNat_add]
    omega
  have kept : Ring.Holds 65536 send.data (fun o => (written ++ block).getD o 0)
      (Set.Ico send.ackedOffset.toNat send.writeOffset.toNat) := by
    intro o inside
    rw [held o inside]
    exact (List.getD_append _ _ _ _ (by rw [counted]; exact inside.2)).symm
  refine ⟨?_, released, ?_, ?_, ?_⟩ <;> simp only [moved, List.length_append]
  · omega
  · omega
  · omega
  · -- The block lies just above the window, within the lap above what was released.
    refine (Ring.Holds.wrapCopy send.ackedOffset.toNat kept ?_ ?_ ?_ ?_).mono ?_
    · exact Set.Ico_subset_Ico_right lap
    · omega
    · omega
    · intro i within
      rw [← counted, List.getD_append_right _ _ _ _ (by omega), Nat.add_sub_cancel_left]
      simp [List.getElem?_eq_getElem within]
    · intro o inside
      simp only [Set.mem_union, Set.mem_Ico] at inside ⊢
      omega

/-- A write keeps the buffer faithful. -/
theorem sendStep_write_sendable (data : Bytes) (fin : Bool)
    (faithful : Sendable t) : Sendable (sendStep t (.write data fin)) := by
  obtain ⟨backed, carried, short⟩ := faithful
  have ordered : t.stream.send.ackedOffset ≤ t.stream.send.writeOffset :=
    UInt64.le_iff_toNat_le.mpr (backed.released.trans backed.sent)
  obtain ⟨offered, room, small⟩ := streamWriteCount_le t.stream data ordered
  rcases streamWrite_cases t.stream data fin with refused | written
  · refine ⟨?_, ?_, ?_⟩ <;> simp only [sendStep, refused, Option.getD_none, UInt64.toNat_zero,
      List.take_zero, List.append_nil]
    · exact backed
    · exact carried
    · exact short
  · refine ⟨?_, ?_, ?_⟩ <;> simp only [sendStep, written, Option.getD_some]
    · exact backed.write fin (by rw [List.length_take]; omega) room small
    · exact fun f member => (carried f member).append _
    · exact short

/-- A filled frame carries octets that were written. -/
theorem Fills.carries {s s' : Stream} {maxDataLen : UInt64}
    (fills : Fills s maxDataLen f s') (backed : Backed written s.send) : Carries written f := by
  obtain ⟨counted, released, sent, lap, held⟩ := backed
  have cut := streamFillLen_toNat s maxDataLen
  rw [← fills.length] at cut
  refine ⟨by rw [fills.start]; omega, ?_⟩
  rw [fills.data, fills.start, Ring.take_drop_eq_map written 0 (by omega)]
  refine held.readAt (fun o inside => ?_) (by omega)
  simp only [Set.mem_Ico] at inside ⊢
  omega

/-- Producing a frame keeps every accepted byte backed. -/
theorem sendStep_fill_sendable (maxDataLen : UInt64) (faithful : Sendable t) :
    Sendable (sendStep t (.fill maxDataLen)) := by
  obtain ⟨backed, carried, short⟩ := faithful
  rcases filled : streamFillFrame t.stream maxDataLen with ⟨_ | f, s'⟩
  · obtain ⟨rfl, -⟩ := streamFillFrame_idle filled
    simp only [sendStep, filled]
    exact ⟨backed, carried, short⟩
  · have fills := streamFillFrame_fills filled
    have frame := fills.carries backed
    have cut := streamFillLen_toNat t.stream maxDataLen
    rw [← fills.length] at cut
    obtain ⟨counted, released, sent, lap, held⟩ := backed
    have bound := t.stream.send.writeOffset.toNat_lt
    have moved : (t.stream.send.sentOffset + f.length).toNat =
        t.stream.send.sentOffset.toNat + f.length.toNat := by
      rw [UInt64.toNat_add]
      omega
    simp only [sendStep, filled, fills.left]
    refine ⟨⟨counted, ?_, ?_, lap, held⟩, ?_, ?_⟩
    · simp only [moved]
      omega
    · simp only [moved]
      omega
    · exact List.forall_mem_cons.mpr ⟨frame, carried⟩
    · exact List.forall_mem_cons.mpr ⟨by omega, short⟩

theorem Backed.release {len : UInt32} (fin : Bool) (backed : Backed written send)
    (below : offset.toNat + len.toNat ≤ send.sentOffset.toNat) :
    Backed written { send with
      ackedOffset := if send.ackedOffset < offset + len.toUInt64 then offset + len.toUInt64
        else send.ackedOffset
      finAcked := fin } := by
  obtain ⟨counted, released, sent, lap, held⟩ := backed
  have bound := send.sentOffset.toNat_lt
  have unwrapped : (offset + len.toUInt64).toNat = offset.toNat + len.toNat := by
    rw [UInt64.toNat_add, UInt32.toNat_toUInt64]
    omega
  have frontier := Word.toNat_max_guarded send.ackedOffset (offset + len.toUInt64)
  rw [unwrapped] at frontier
  refine ⟨counted, ?_, sent, ?_, ?_⟩ <;> simp only [frontier]
  · omega
  · omega
  · exact held.mono (Set.Ico_subset_Ico_left (by omega))

theorem Backed.rewind (finSent : Bool) (backed : Backed written send)
    (above : send.ackedOffset ≤ offset ∨ send.sentOffset ≤ offset) :
    Backed written { send with
      sentOffset := if offset < send.sentOffset then offset else send.sentOffset
      finSent := finSent } := by
  obtain ⟨counted, released, sent, lap, held⟩ := backed
  have frontier := Word.toNat_min_guarded offset send.sentOffset
  simp only [UInt64.le_iff_toNat_le] at above
  refine ⟨counted, ?_, ?_, lap, held⟩ <;> simp only [frontier]
  · omega
  · omega

/-- An acknowledgement in order keeps the buffer faithful. -/
theorem sendStep_ack_sendable (faithful : Sendable t)
    (inOrder : (SendOp.ack index).InOrder t) : Sendable (sendStep t (.ack index)) := by
  obtain ⟨backed, carried, short⟩ := faithful
  cases found : t.outstanding[index]? with
  | none =>
    simp only [sendStep, found]
    exact ⟨backed, carried, short⟩
  | some f =>
    have small := short f (List.mem_of_getElem? found)
    have below := inOrder f found
    have len : f.length.toUInt32.toNat = f.length.toNat := by
      rw [UInt64.toNat_toUInt32]
      omega
    simp only [sendStep, found]
    refine ⟨?_, carried, fun g member => short g (List.mem_of_mem_eraseIdx member)⟩
    rw [streamOnAck_send]
    exact backed.release _ (by rw [len]; exact below)

/-- So does a loss in order. -/
theorem sendStep_loss_sendable (faithful : Sendable t)
    (inOrder : (SendOp.loss index).InOrder t) : Sendable (sendStep t (.loss index)) := by
  obtain ⟨backed, carried, short⟩ := faithful
  cases found : t.outstanding[index]? with
  | none =>
    simp only [sendStep, found]
    exact ⟨backed, carried, short⟩
  | some f =>
    simp only [sendStep, found]
    refine ⟨?_, carried, fun g member => short g (List.mem_of_mem_eraseIdx member)⟩
    rw [streamOnLoss_send]
    exact backed.rewind _ (inOrder f found)

/-- While acknowledgements and losses keep their order, every frame carries its own stretch. -/
theorem filled_carries_of_inOrder (id : UInt64) (type : StreamType)
    (initialMaxSend initialMaxRecv : UInt64) (ops : List SendOp)
    (inOrder : Machine.Along sendStep (fun t op => op.InOrder t)
      (sendTraceInit id type initialMaxSend initialMaxRecv) ops) :
    let final := Machine.run sendStep (sendTraceInit id type initialMaxSend initialMaxRecv) ops
    ∀ f ∈ final.filled, Carries final.written f := by
  refine (Machine.run_invariant _ (fun t op faithful inOrder => ?_)
    (sendTraceInit_sendable id type initialMaxSend initialMaxRecv) inOrder).carried
  -- One step lemma for each kind of event.
  cases op with
  | write data fin => exact sendStep_write_sendable data fin faithful
  | fill maxDataLen => exact sendStep_fill_sendable maxDataLen faithful
  | ack index => exact sendStep_ack_sendable faithful inOrder
  | loss index => exact sendStep_loss_sendable faithful inOrder

/-- A frame lost and sent again before anything was released meets the condition. -/
theorem filled_carries_after_loss :
    let ops : List SendOp := [.write [7, 8, 9] true, .fill 2, .fill 5, .loss 1, .fill 1, .ack 0]
    let final := Machine.run sendStep (sendTraceInit 0 .reliable 100 100) ops
    final.filled.length = 3 ∧ ∀ f ∈ final.filled, Carries final.written f :=
  ⟨by decide, filled_carries_of_inOrder 0 .reliable 100 100 _ (by decide)⟩

/-- A stream whose buffer was filled to the brim by one write. -/
def brimful (block : Bytes) : SendTrace :=
  { stream := { streamCreate 0 .reliable 100000 100 with
      send := ⟨Ring.wrapCopy 65536 (fun _ => 0) 0 block, 65536, 0, 0, false, false, false⟩ }
    written := block
    outstanding := []
    filled := [] }

theorem sendStep_brimful (block : Bytes) (full : block.length = 65536) :
    sendStep (sendTraceInit 0 .reliable 100000 100) (.write block false) = brimful block := by
  have count : streamWriteCount (streamCreate 0 .reliable 100000 100) (UInt64.ofNat 65536) =
      65536 := by decide
  have whole : block.take 65536 = block := by rw [← full, List.take_length]
  simp only [sendStep, streamWrite, full, sendTraceInit, count]
  simp [streamCreate, brimful, whole]

/-- Acknowledged out of order, a full buffer is reused and the lost first byte is resent wrong. -/
theorem filled_not_carries :
    let ops : List SendOp := [.write (List.replicate 65536 1) false, .fill 1, .fill 65535, .ack 0,
      .write [2] false, .loss 0, .fill 1]
    let final := Machine.run sendStep (sendTraceInit 0 .reliable 100000 100) ops
    ∃ f ∈ final.filled, f.startOffset = 0 ∧ f.length = 1 ∧ f.data = some [2] ∧
      final.written.take 1 = [1] ∧ ¬ Carries final.written f := by
  -- The second frame's acknowledgement releases the first one's byte, which a write then replaces.
  intro ops final
  have tail : final = Machine.run sendStep (brimful (List.replicate 65536 1)) [.fill 1,
      .fill 65535, .ack 0, .write [2] false, .loss 0, .fill 1] := by
    simp only [final, ops]
    rw [Machine.run_cons, sendStep_brimful _ List.length_replicate]
  have produced : (final.filled.head?.map fun f => (f.startOffset, f.length, f.data)) =
      some (0, 1, some [2]) := by
    rw [tail]
    decide +kernel
  have accepted : final.written.take 1 = [1] := by
    rw [tail]
    decide +kernel
  rw [Option.map_eq_some_iff] at produced
  obtain ⟨f, head, fields⟩ := produced
  simp only [Prod.mk.injEq] at fields
  obtain ⟨start, length, data⟩ := fields
  refine ⟨f, List.mem_of_mem_head? head, start, length, data, accepted, ?_⟩
  rintro ⟨-, slice⟩
  rw [data, start, length] at slice
  simp [accepted] at slice
end Nxp
