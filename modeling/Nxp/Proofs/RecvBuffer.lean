import Nxp.Proofs.Reassembly

/-! Whether what a stream accepts fits into its receive buffer. -/

namespace Nxp

variable {f : FrameStream} {s : Stream} {t : StoreTrace} {op : RecvOp}

/-- Offset of the first octet of a frame that is stored. -/
def copyStart (s : Stream) (f : FrameStream) : Nat :=
  max f.startOffset.toNat s.recv.readOffset.toNat

/-- How many octets of a frame are stored. -/
def copyLen (s : Stream) (f : FrameStream) : Nat :=
  f.length.toNat - (s.recv.readOffset.toNat - f.startOffset.toNat)

/-- Whether a frame has octets beyond those that were read. -/
def StoresData (s : Stream) (f : FrameStream) : Prop :=
  0 < f.length ∧ s.recv.readOffset < f.endOffset

/-- Every octet that is stored goes into the buffer, and into no cell where another octet of the
window belongs that the frame leaves behind. -/
def StoredInPlace (s : Stream) (f : FrameStream) : Prop :=
  StoresData s f → ∀ i < copyLen s f,
    Ring.wrapCell 65536 (copyStart s f) i < 65536 ∧
    ∀ o, s.recv.readOffset.toNat ≤ o → o < (streamOnRecv s f).2.recv.recvOffset.toNat →
      Ring.wrapCell 65536 (copyStart s f) i = o % 65536 → copyStart s f + i = o

/-- A stream with the frames it accepted, each with the stream as it was then. -/
structure StoreTrace where
  stream : Stream
  stored : List (Stream × FrameStream)

/-- A new stream that accepted nothing. -/
def storeTraceInit (id : UInt64) (type : StreamType) (initialMaxSend initialMaxRecv : UInt64) :
    StoreTrace :=
  ⟨streamCreate id type initialMaxSend initialMaxRecv, []⟩

/-- One event, recording what the stream accepted. -/
def storeStep (t : StoreTrace) : RecvOp → StoreTrace
  | .recv f =>
    { stream := (streamOnRecv t.stream f).2
      stored := if (streamOnRecv t.stream f).1 = .ok then (t.stream, f) :: t.stored else t.stored }
  | .read bufLen => { t with stream := (streamRead t.stream bufLen).2.2 }

/-- What was received and not yet read fits into the buffer, and all that was stored went where it
belongs. -/
structure StoreTrace.Fits (t : StoreTrace) : Prop where
  window : t.stream.recv.recvOffset.toNat - t.stream.recv.readOffset.toNat ≤ 65536
  placed : ∀ entry ∈ t.stored, StoredInPlace entry.1 entry.2

/-- A frame that is accepted and stored ends within one lap of what was read. -/
def RecvOp.WithinLap (t : StoreTrace) : RecvOp → Prop
  | .recv f => Acceptable t.stream f → StoresData t.stream f →
      f.startOffset.toNat + f.length.toNat ≤ t.stream.recv.readOffset.toNat + 65536
  | .read _ => True

/-- Everything fits, and nothing was read that was not received. -/
structure StoreTrace.Sound (t : StoreTrace) : Prop where
  fits : t.Fits
  ordered : t.stream.recv.readOffset ≤ t.stream.recv.recvOffset

theorem streamOnRecv_frontier (accepted : (streamOnRecv s f).1 = .ok) (stores : StoresData s f) :
    (streamOnRecv s f).2.recv.readOffset = s.recv.readOffset ∧
      (streamOnRecv s f).2.recv.recvOffset.toNat =
        max s.recv.recvOffset.toNat f.endOffset.toNat := by
  obtain ⟨positive, beyond⟩ := stores
  obtain ⟨bytes, found⟩ := f.data_of_positive positive
  obtain ⟨-, sameRead, sameRecv⟩ := recvFin_recv (recvData s f) f
  rw [(streamOnRecv_accepted accepted).2, sameRead, sameRecv, recvData_stored found positive]
  unfold recvStore
  rw [if_pos beyond]
  exact ⟨rfl, Word.toNat_max_guarded _ _⟩

theorem streamOnRecv_idle (idle : (streamOnRecv s f).1 = .ok → ¬ StoresData s f) :
    (streamOnRecv s f).2.recv.readOffset = s.recv.readOffset ∧
      (streamOnRecv s f).2.recv.recvOffset = s.recv.recvOffset := by
  by_cases accepted : (streamOnRecv s f).1 = .ok
  · obtain ⟨-, sameRead, sameRecv⟩ := recvFin_recv (recvData s f) f
    rw [(streamOnRecv_accepted accepted).2, sameRead, sameRecv, recvData_kept (idle accepted)]
    exact ⟨rfl, rfl⟩
  · rw [streamOnRecv_refused accepted]
    exact ⟨rfl, rfl⟩

/-- The cells spoken of are those that an accepted frame writes: it leaves every other one alone. -/
theorem streamOnRecv_unwritten (accepted : (streamOnRecv s f).1 = .ok) {cell : Nat}
    (other : StoresData s f → ∀ i < copyLen s f, cell ≠ Ring.wrapCell 65536 (copyStart s f) i) :
    (streamOnRecv s f).2.recv.data cell = s.recv.data cell := by
  rw [(streamOnRecv_accepted accepted).2, (recvFin_recv (recvData s f) f).1]
  by_cases stores : StoresData s f
  · obtain ⟨bytes, found⟩ := f.data_of_positive stores.1
    have covered : bytes.length = f.length.toNat := by
      have whole := f.covered
      rwa [found] at whole
    rw [recvData_stored found stores.1, recvStore_data _ _ _ stores.2]
    refine Ring.wrapCopy_unwritten _ _ _ fun i within => other stores i ?_
    rwa [List.length_drop, covered] at within
  · rw [recvData_kept stores]

theorem storedInPlace_of_lap (window : s.recv.recvOffset.toNat ≤ s.recv.readOffset.toNat + 65536)
    (accepted : (streamOnRecv s f).1 = .ok) (lap : StoresData s f →
      f.startOffset.toNat + f.length.toNat ≤ s.recv.readOffset.toNat + 65536) :
    StoredInPlace s f := by
  intro stores i inside
  have ends := lap stores
  have unwrapped := endOffset_unwrapped stores.2 ends
  have frontier := (streamOnRecv_frontier accepted stores).2
  unfold copyLen at inside
  have real : Ring.wrapCell 65536 (copyStart s f) i < 65536 :=
    Ring.wrapCell_lt (by omega)
  refine ⟨real, fun o above below same => ?_⟩
  rw [Ring.wrapCell_eq_mod real] at same
  unfold copyStart at same ⊢
  exact Ring.offset_eq_of_cell_eq (by omega) (by omega) same

/-- A frame that ends further up makes the window too wide, or its last octet wraps around and goes
where another one belongs. -/
theorem not_fits_of_beyond (accepted : (streamOnRecv s f).1 = .ok) (stores : StoresData s f)
    (beyond : s.recv.readOffset.toNat + 65536 < f.startOffset.toNat + f.length.toNat)
    (window : (streamOnRecv s f).2.recv.recvOffset.toNat -
      (streamOnRecv s f).2.recv.readOffset.toNat ≤ 65536) : ¬ StoredInPlace s f := by
  intro placed
  obtain ⟨sameRead, frontier⟩ := streamOnRecv_frontier accepted stores
  have above := UInt64.lt_iff_toNat_lt.mp stores.2
  have startBound := f.startOffset.toNat_lt
  have lengthBound := f.length.toNat_lt
  have ends : f.endOffset.toNat = (f.startOffset.toNat + f.length.toNat) % 2 ^ 64 :=
    UInt64.toNat_add ..
  rw [sameRead] at window
  by_cases wrapped : f.startOffset.toNat + f.length.toNat < 2 ^ 64
  · rw [Nat.mod_eq_of_lt wrapped] at ends
    omega
  · -- The last octet has the cell of the last offset of the window.
    have last := placed stores (copyLen s f - 1) (by unfold copyLen; omega)
    have place : copyStart s f + (copyLen s f - 1) = f.endOffset.toNat - 1 + 2 ^ 64 := by
      unfold copyStart copyLen
      omega
    have same : Ring.wrapCell 65536 (copyStart s f) (copyLen s f - 1) =
        (f.endOffset.toNat - 1) % 65536 := by
      rw [Ring.wrapCell_eq_mod last.1, place]
      omega
    have equal := last.2 (f.endOffset.toNat - 1) (by omega) (by omega) same
    omega

/-- Frames within one lap leave everything fitting, and so do reads. -/
theorem storeStep_sound (sound : t.Sound) (lap : op.WithinLap t) :
    (storeStep t op).Sound := by
  have window := sound.fits.window
  have ordered := UInt64.le_iff_toNat_le.mp sound.ordered
  have close : t.stream.recv.recvOffset.toNat ≤ t.stream.recv.readOffset.toNat + 65536 := by omega
  cases op with
  | recv f =>
    have lap (accepted : (streamOnRecv t.stream f).1 = .ok) (stores : StoresData t.stream f) :=
      lap ((acceptable_iff ..).mpr accepted) stores
    have placed : ∀ entry ∈ (storeStep t (.recv f)).stored, StoredInPlace entry.1 entry.2 := by
      intro entry member
      simp only [storeStep] at member
      split at member
      · rename_i accepted
        rcases List.mem_cons.mp member with rfl | before
        · exact storedInPlace_of_lap close accepted (lap accepted)
        · exact sound.fits.placed entry before
      · exact sound.fits.placed entry member
    by_cases new : (streamOnRecv t.stream f).1 = .ok ∧ StoresData t.stream f
    · obtain ⟨sameRead, frontier⟩ := streamOnRecv_frontier new.1 new.2
      have ends := lap new.1 new.2
      have unwrapped := endOffset_unwrapped new.2.2 ends
      refine ⟨⟨?_, placed⟩, ?_⟩
      · simp only [storeStep, sameRead, frontier]
        omega
      · simp only [storeStep, sameRead, UInt64.le_iff_toNat_le, frontier]
        omega
    · obtain ⟨sameRead, sameRecv⟩ := streamOnRecv_idle fun accepted stores => new ⟨accepted, stores⟩
      refine ⟨⟨?_, placed⟩, ?_⟩
      · simp only [storeStep, sameRead, sameRecv]
        exact window
      · simp only [storeStep, sameRead, sameRecv]
        exact sound.ordered
  | read bufLen =>
    obtain ⟨-, -, moved, -, sameRecv, -, -⟩ := streamRead_spec t.stream bufLen sound.ordered
    refine ⟨⟨?_, sound.fits.placed⟩, ?_⟩
    · simp only [storeStep, moved, sameRecv]
      omega
    · simp only [storeStep, UInt64.le_iff_toNat_le, moved, sameRecv]
      omega

theorem storeStep_overflows (beyond : ¬ op.WithinLap t) :
    ¬ (storeStep t op).Fits := by
  intro fits
  cases op with
  | recv f =>
    simp only [RecvOp.WithinLap, Classical.not_imp, Nat.not_le] at beyond
    obtain ⟨acceptable, stores, beyond⟩ := beyond
    have accepted := (acceptable_iff ..).mp acceptable
    refine not_fits_of_beyond accepted stores beyond fits.window (fits.placed (t.stream, f) ?_)
    simp only [storeStep, if_pos accepted]
    exact List.mem_cons_self ..
  | read bufLen => exact beyond trivial

/-- In every run of a stream, whatever the frames, all that is accepted fits into the receive buffer
exactly when every frame that is accepted and stored ends within one lap of what was read. -/
theorem accepted_fits_iff (id : UInt64) (type : StreamType) (initialMaxSend initialMaxRecv : UInt64)
    (ops : List RecvOp) :
    (∀ past rest, ops = past ++ rest →
      (Machine.run storeStep (storeTraceInit id type initialMaxSend initialMaxRecv) past).Fits) ↔
    Machine.Along storeStep (fun t op => op.WithinLap t)
      (storeTraceInit id type initialMaxSend initialMaxRecv) ops := by
  refine Machine.run_everywhere_iff _ StoreTrace.Sound StoreTrace.Fits (fun _ sound => sound.fits)
    (fun _ _ sound lap => storeStep_sound sound lap)
    (fun _ _ _ beyond => storeStep_overflows beyond) ?_
  exact ⟨⟨by simp [storeTraceInit, streamCreate], by simp [storeTraceInit]⟩, UInt64.le_refl _⟩

/-- A frame of one octet at offset 65536. -/
def lapFrame : FrameStream := frameAt 65536 [7] false (by decide)

/-- Under the default limit a stream accepts an octet 65536 octets ahead, which makes the window
wider than the buffer, and puts it where the first octet belongs. -/
theorem accepted_overflows :
    let s := streamCreate 0 .reliable 262144 262144
    (streamOnRecv s lapFrame).1 = .ok ∧
    (streamOnRecv s lapFrame).2.recv.recvOffset.toNat -
      (streamOnRecv s lapFrame).2.recv.readOffset.toNat = 65537 ∧
    (streamRead (streamOnRecv s lapFrame).2 1).1 = [7] := by
  decide +kernel

end Nxp
