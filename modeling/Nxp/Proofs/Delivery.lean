import Nxp.Proofs.Reassembly

/-! Delivery of a whole byte sequence: exactly the arrival orders whose end mark comes last work. -/

namespace Nxp

variable {sequence : Bytes} {f : FrameStream} {seen frames : List FrameStream} {s : Stream}
  {limit : UInt64}

/-- Feeding a frame, keeping the stream only. -/
def feed (s : Stream) (f : FrameStream) : Stream := (streamOnRecv s f).2

/-- Every call on the way returns success. -/
def AllAccepted (s : Stream) (frames : List FrameStream) : Prop :=
  Machine.Along feed (fun s f => (streamOnRecv s f).1 = .ok) s frames

/-- What reads with the given buffer sizes return, one after another. -/
def streamReads (s : Stream) : List UInt64 → List (Bytes × Bool)
  | [] => []
  | bufLen :: rest =>
    ((streamRead s bufLen).1, (streamRead s bufLen).2.1) ::
      streamReads (streamRead s bufLen).2.2 rest

/-- The purpose of delivery: a sequence handed out in pieces, the exhausting piece marked. -/
def deliver (sequence : Bytes) : List UInt64 → List (Bytes × Bool)
  | [] => []
  | bufLen :: rest =>
    (sequence.take bufLen.toNat, (sequence.drop bufLen.toNat).isEmpty) ::
      deliver (sequence.drop bufLen.toNat) rest

/-- Everything a set of frames carries has been collected, and nothing was read. -/
structure Collected (sequence : Bytes) (seen : List FrameStream) (recv : RecvBuf) : Prop where
  unread : recv.readOffset = 0
  bounded : recv.recvOffset.toNat ≤ sequence.length
  reached : ∀ f ∈ seen, 0 < f.length →
    f.startOffset.toNat + f.length.toNat ≤ recv.recvOffset.toNat
  held : Ring.Holds 65536 recv.data (fun o => sequence.getD o 0)
    {o | ∃ f ∈ seen, f.startOffset.toNat ≤ o ∧ o < f.startOffset.toNat + f.length.toNat}

/-- The whole sequence and its end are in the buffer, read up to some offset. -/
structure Complete (sequence : Bytes) (recv : RecvBuf) : Prop where
  within : recv.readOffset.toNat ≤ sequence.length
  reached : recv.recvOffset.toNat = sequence.length
  held : Ring.Holds 65536 recv.data (fun o => sequence.getD o 0) (Set.Ico 0 sequence.length)
  marked : recv.finReceived = true
  final : recv.finOffset.toNat = sequence.length

theorem endOffset_of_carries (fits : sequence.length ≤ 65536) (carried : Carries sequence f) :
    f.endOffset.toNat = f.startOffset.toNat + f.length.toNat := by
  have := carried.1
  simp only [FrameStream.endOffset, UInt64.toNat_add]
  omega

/-- Taking one more frame's data collects that frame as well. -/
theorem recvData_collected (fits : sequence.length ≤ 65536) (carried : Carries sequence f)
    (collected : Collected sequence seen s.recv) :
    Collected sequence (f :: seen) (recvData s f).recv := by
  have ends := endOffset_of_carries fits carried
  have whole := carried.1
  by_cases positive : 0 < f.length
  case neg =>
    -- An empty frame stores nothing and covers nothing.
    have empty : f.length.toNat = 0 := by
      have := mt UInt64.lt_iff_toNat_lt.mpr positive
      simpa using this
    rw [recvData_kept (fun stores => positive stores.1)]
    refine ⟨collected.unread, collected.bounded, ?_, collected.held.mono ?_⟩
    · intro g member nonempty
      rcases List.mem_cons.mp member with rfl | old
      · exact absurd nonempty positive
      · exact collected.reached g old nonempty
    · rintro o ⟨g, member, inside⟩
      rcases List.mem_cons.mp member with rfl | old
      · omega
      · exact ⟨g, old, inside⟩
  obtain ⟨bytes, found⟩ := f.data_of_positive positive
  have count := f.length_of_data found
  have order := UInt64.lt_iff_toNat_lt.mp positive
  have beyond : s.recv.readOffset < f.endOffset := by
    rw [UInt64.lt_iff_toNat_lt, collected.unread, ends]
    simp only [UInt64.toNat_zero] at order ⊢
    omega
  obtain ⟨stored, frontier, readSame⟩ := recvStore_beyond s.recv f bytes beyond ends
  have start : s.recv.readOffset.toNat = 0 := by simp [collected.unread]
  have bounded := collected.bounded
  rw [recvData_stored found positive]
  refine ⟨?_, ?_, ?_, ?_⟩
  · rw [readSame, collected.unread]
  · rw [frontier]
    omega
  · intro g member nonempty
    rw [frontier]
    rcases List.mem_cons.mp member with rfl | old
    · omega
    · have := collected.reached g old nonempty
      omega
  · -- Nothing was read, so all of the sequence shares the buffer's first lap.
    rw [stored, start, Nat.zero_sub, List.drop_zero, Nat.max_zero]
    refine (Ring.Holds.wrapCopy 0 collected.held ?_ ?_ ?_ ?_).mono ?_
    · rintro o ⟨g, member, inside⟩
      have nonempty : 0 < g.length := by
        rw [UInt64.lt_iff_toNat_lt]
        simp only [UInt64.toNat_zero]
        omega
      have := collected.reached g member nonempty
      exact ⟨by omega, by omega⟩
    · omega
    · omega
    · intro i inside
      exact carries_getElem carried found 0 i inside
    · rintro o ⟨g, member, inside⟩
      rcases List.mem_cons.mp member with rfl | old
      · exact Or.inr ⟨inside.1, by omega⟩
      · exact Or.inl ⟨g, old, inside⟩

/-- A stream still open to the peer, with its limit and what it has collected. -/
structure Collecting (sequence : Bytes) (limit : UInt64) (seen : List FrameStream)
    (s : Stream) : Prop where
  opened : s.state = .open
  limited : s.flow.localMaxData = limit
  collected : Collected sequence seen s.recv

/-- A frame of the sequence is accepted while collecting. -/
theorem feed_accepted (fits : sequence.length ≤ 65536) (credit : sequence.length ≤ limit.toNat)
    (carried : Carries sequence f) (collecting : Collecting sequence limit seen s) :
    (streamOnRecv s f).1 = .ok := by
  rw [← acceptable_iff]
  refine ⟨by simp [collecting.opened], by simp [collecting.opened], by simp [collecting.opened], ?_⟩
  rw [UInt64.le_iff_toNat_le, collecting.limited, endOffset_of_carries fits carried]
  exact carried.1.trans credit

/-- A frame without FIN leaves the stream collecting. -/
theorem feed_collecting (fits : sequence.length ≤ 65536)
    (credit : sequence.length ≤ limit.toNat) (carried : Carries sequence f)
    (unmarked : f.fin = false) (collecting : Collecting sequence limit seen s) :
    Collecting sequence limit (f :: seen) (feed s f) := by
  have result := (streamOnRecv_accepted (feed_accepted fits credit carried collecting)).2
  rw [recvFin_of_not_fin _ unmarked] at result
  unfold feed
  rw [result]
  exact ⟨by simp [collecting.opened], by simp [collecting.limited],
    recvData_collected fits carried collecting.collected⟩

/-- So does a run of such frames. -/
theorem run_collecting (fits : sequence.length ≤ 65536)
    (credit : sequence.length ≤ limit.toNat) (carried : ∀ f ∈ frames, Carries sequence f)
    (unmarked : ∀ f ∈ frames, f.fin = false) (collecting : Collecting sequence limit seen s) :
    AllAccepted s frames ∧
      Collecting sequence limit (frames.reverse ++ seen) (Machine.run feed s frames) := by
  induction frames generalizing seen s with
  | nil => exact ⟨trivial, collecting⟩
  | cons f rest ih =>
    have head := carried f (by simp)
    have next := feed_collecting fits credit head (unmarked f (by simp)) collecting
    obtain ⟨accepted, final⟩ := ih (fun g member => carried g (by simp [member]))
      (fun g member => unmarked g (by simp [member])) next
    refine ⟨⟨feed_accepted fits credit head collecting, accepted⟩, ?_⟩
    simpa using final

/-- The frame with FIN half-closes the stream, its octets collected. -/
theorem feed_marked (fits : sequence.length ≤ 65536)
    (credit : sequence.length ≤ limit.toNat) (carried : Carries sequence f) (marked : f.fin = true)
    (collecting : Collecting sequence limit seen s) :
    (feed s f).state = .halfClosedRemote ∧ Collected sequence (f :: seen) (feed s f).recv ∧
      (feed s f).recv.finReceived = true ∧ (feed s f).recv.finOffset = f.endOffset := by
  have result := (streamOnRecv_accepted (feed_accepted fits credit carried collecting)).2
  have gathered := recvData_collected fits carried collecting.collected
  have opened : (recvData s f).state = .open := by simp [collecting.opened]
  unfold feed
  rw [result]
  simp only [recvFin, marked, if_true, opened, setStreamState, isValidStreamStateTransition]
  simp only [reduceCtorEq, or_false, or_true, decide_true, Bool.not_true, Bool.false_eq_true,
    if_false, true_and, and_true]
  exact ⟨gathered.unread, gathered.bounded, gathered.reached, gathered.held⟩

theorem streamOnRecv_halfClosed (closed : s.state = .halfClosedRemote) (f : FrameStream) :
    (streamOnRecv s f).1 = .streamClosed := by
  simp [streamOnRecv, closed]

/-- Frames that cover the sequence complete the buffer. -/
theorem complete_of_collected {recv : RecvBuf} (covering : ∀ o < sequence.length, ∃ f ∈ seen,
      f.startOffset.toNat ≤ o ∧ o < f.startOffset.toNat + f.length.toNat)
    (collected : Collected sequence seen recv) (marked : recv.finReceived = true)
    (final : recv.finOffset.toNat = sequence.length) : Complete sequence recv := by
  refine ⟨by simp [collected.unread], ?_, ?_, marked, final⟩
  · -- The frame that covers the last octet pushed the frontier to the end.
    have bounded := collected.bounded
    by_cases empty : sequence.length = 0
    · omega
    · obtain ⟨f, member, inside⟩ := covering (sequence.length - 1) (by omega)
      have nonempty : 0 < f.length := by
        rw [UInt64.lt_iff_toNat_lt]
        simp only [UInt64.toNat_zero]
        omega
      have := collected.reached f member nonempty
      omega
  · exact collected.held.mono fun o inside => covering o inside.2

/-- One read of a complete buffer hands out the next piece and keeps the buffer complete. -/
theorem streamRead_complete (bufLen : UInt64) (fits : sequence.length ≤ 65536)
    (complete : Complete sequence s.recv) :
    let rest := sequence.drop s.recv.readOffset.toNat
    (streamRead s bufLen).1 = rest.take bufLen.toNat ∧
      (streamRead s bufLen).2.1 = (rest.drop bufLen.toNat).isEmpty ∧
      sequence.drop (streamRead s bufLen).2.2.recv.readOffset.toNat = rest.drop bufLen.toNat ∧
      Complete sequence (streamRead s bufLen).2.2.recv := by
  intro rest
  have within := complete.within
  have reached := complete.reached
  have ordered : s.recv.readOffset ≤ s.recv.recvOffset := by
    rw [UInt64.le_iff_toNat_le]
    omega
  obtain ⟨bytes, mark, moved, sameData, sameRecv, sameFin, sameEnd⟩ :=
    streamRead_spec s bufLen ordered
  have shorter : sequence.drop (streamRead s bufLen).2.2.recv.readOffset.toNat =
      rest.drop bufLen.toNat := by
    -- A buffer larger than the remainder empties it, as dropping too much does.
    rw [moved, List.drop_drop, reached]
    by_cases short : bufLen.toNat ≤ sequence.length - s.recv.readOffset.toNat
    · rw [min_eq_left short]
    · rw [List.drop_eq_nil_of_le (by omega), List.drop_eq_nil_of_le (by omega)]
  refine ⟨?_, ?_, shorter, ?_⟩
  · rw [bytes, complete.held.wrapRead (fun o inside => ?_) (by omega),
      ← Ring.take_drop_eq_map sequence 0 (by omega), reached]
    · rw [List.take_eq_take_iff, List.length_drop]
      omega
    · simp only [Set.mem_Ico] at inside ⊢
      omega
  · rw [mark, ← shorter, recvFinReached, sameFin, complete.marked, sameEnd, Bool.true_and,
      Bool.eq_iff_iff]
    simp only [ge_iff_le, decide_eq_true_eq, List.isEmpty_iff, List.drop_eq_nil_iff,
      UInt64.le_iff_toNat_le, complete.final]
  · refine ⟨?_, ?_, ?_, ?_, ?_⟩
    · rw [moved]
      omega
    · rw [sameRecv, reached]
    · rw [sameData]
      exact complete.held
    · rw [sameFin, complete.marked]
    · rw [sameEnd, complete.final]

/-- From a complete buffer, reads deliver the rest of the sequence. -/
theorem streamReads_complete (sizes : List UInt64) (fits : sequence.length ≤ 65536)
    (complete : Complete sequence s.recv) :
    streamReads s sizes = deliver (sequence.drop s.recv.readOffset.toNat) sizes := by
  -- The induction follows the reads, each moving the read offset along the sequence.
  induction sizes generalizing s with
  | nil => rfl
  | cons bufLen rest ih =>
    obtain ⟨bytes, mark, moved, next⟩ := streamRead_complete bufLen fits complete
    rw [streamReads, deliver, bytes, mark, ih next, moved]

theorem streamCreate_collecting (sequence : Bytes) (id : UInt64) (type : StreamType)
    (initialMaxSend initialMaxRecv : UInt64) :
    Collecting sequence initialMaxRecv [] (streamCreate id type initialMaxSend initialMaxRecv) where
  opened := rfl
  limited := rfl
  collected := by
    refine ⟨rfl, by simp [streamCreate], by simp, ?_⟩
    rintro o ⟨f, member, -⟩
    simp at member

theorem eq_append_of_marked
    (closing : ∃ f ∈ frames, f.fin = true) (early : ∀ f ∈ frames.dropLast, f.fin = false) :
    ∃ init last, frames = init ++ [last] ∧ (∀ f ∈ init, f.fin = false) ∧ last.fin = true := by
  obtain ⟨f, member, marked⟩ := closing
  have nonempty : frames ≠ [] := List.ne_nil_of_mem member
  have parts := List.dropLast_append_getLast nonempty
  refine ⟨frames.dropLast, frames.getLast nonempty, parts.symm, early, ?_⟩
  rw [← parts, List.mem_append, List.mem_singleton] at member
  rcases member with before | rfl
  · simp [early f before] at marked
  · exact marked

/-- No frame is accepted behind the one with FIN. -/
theorem not_allAccepted_of_marked {init rest : List FrameStream}
    (closed : (feed (Machine.run feed s init) f).state = .halfClosedRemote) (more : rest ≠ []) :
    ¬ AllAccepted s (init ++ f :: rest) := by
  intro accepted
  unfold AllAccepted at accepted
  rw [Machine.along_append] at accepted
  cases rest with
  | nil => exact more rfl
  | cons g rest =>
    have success : (streamOnRecv (feed (Machine.run feed s init) f) g).1 = .ok := accepted.2.2.1
    rw [streamOnRecv_halfClosed closed] at success
    exact ErrorCode.noConfusion success

/-- Frames that cover a sequence deliver it in exactly the orders that put the end mark last. -/
theorem delivery_iff_mark_last (sequence : Bytes) (id : UInt64) (type : StreamType)
    (initialMaxSend initialMaxRecv : UInt64) (frames : List FrameStream)
    (credit : sequence.length ≤ initialMaxRecv.toNat) (fits : sequence.length ≤ streamBufSize.toNat)
    (carried : ∀ f ∈ frames, Carries sequence f) (covering : ∀ o < sequence.length, ∃ f ∈ frames,
      f.startOffset.toNat ≤ o ∧ o < f.startOffset.toNat + f.length.toNat)
    (ending : ∀ f ∈ frames, f.fin = true →
      f.startOffset.toNat + f.length.toNat = sequence.length)
    (closing : ∃ f ∈ frames, f.fin = true) :
    let s := streamCreate id type initialMaxSend initialMaxRecv
    (AllAccepted s frames ∧
        ∀ sizes, streamReads (Machine.run feed s frames) sizes = deliver sequence sizes) ↔
      ∀ f ∈ frames.dropLast, f.fin = false := by
  intro s
  have start : Collecting sequence initialMaxRecv [] s :=
    streamCreate_collecting sequence id type initialMaxSend initialMaxRecv
  constructor
  · -- Take the first marked frame: were it not the last, its successor would be refused.
    rintro ⟨accepted, -⟩
    cases found : frames.dropLast.find? FrameStream.fin with
    | none => simpa using found
    | some g =>
    obtain ⟨gMarked, init, rest, split, unmarked⟩ := List.find?_eq_some_iff_append.mp found
    have nonempty : frames ≠ [] := by
      rintro rfl
      simp at found
    have whole : frames = init ++ g :: (rest ++ [frames.getLast nonempty]) := by
      conv_lhs => rw [← List.dropLast_append_getLast nonempty, split]
      simp
    have initCarried : ∀ f ∈ init, Carries sequence f :=
      fun f inside => carried f (by rw [whole]; simp [inside])
    obtain ⟨-, collecting⟩ := run_collecting fits credit initCarried
      (fun f inside => by simpa using unmarked f inside) start
    have closed := (feed_marked fits credit
      (carried g (by rw [whole]; simp)) gMarked collecting).1
    rw [whole] at accepted
    exact absurd accepted (not_allAccepted_of_marked closed (by simp))
  · intro early
    obtain ⟨init, last, rfl, unmarked, marked⟩ := eq_append_of_marked closing early
    have lastCarried := carried last (by simp)
    obtain ⟨accepted, collecting⟩ := run_collecting fits credit
      (fun f inside => carried f (by simp [inside])) unmarked start
    obtain ⟨-, collected, received, final⟩ :=
      feed_marked fits credit lastCarried marked collecting
    have complete : Complete sequence (feed (Machine.run feed s init) last).recv := by
      refine complete_of_collected ?_ collected received ?_
      · intro o below
        obtain ⟨f, member, inside⟩ := covering o below
        refine ⟨f, ?_, inside⟩
        simp only [List.mem_append, List.mem_singleton] at member
        rcases member with before | rfl <;> simp [*]
      · rw [final, endOffset_of_carries fits lastCarried]
        exact ending last (by simp) marked
    refine ⟨?_, ?_⟩
    · unfold AllAccepted
      rw [Machine.along_append]
      exact ⟨accepted, feed_accepted fits credit lastCarried collecting, trivial⟩
    · intro sizes
      rw [Machine.run_append, Machine.run_cons, Machine.run_nil,
        streamReads_complete sizes fits complete, collected.unread]
      simp

/-- Two overlapping frames delivered with the end mark last hand out the whole sequence. -/
theorem delivery_mark_last :
    let frames := [frameAt 1 [8, 9] false (by decide), frameAt 0 [7, 8] false (by decide),
      frameAt 2 [9] true (by decide)]
    let s := streamCreate 0 .reliable 100 100
    AllAccepted s frames ∧
      ∀ sizes, streamReads (Machine.run feed s frames) sizes = deliver [7, 8, 9] sizes :=
  (delivery_iff_mark_last [7, 8, 9] 0 .reliable 100 100 _ (by decide) (by decide) (by decide)
    (by decide) (by decide) (by decide)).mpr (by decide)

/-- When the marked frame overtakes the first one, the latter is refused and the reads differ. -/
theorem delivery_mark_first :
    let first := frameAt 0 [7, 8] false (by decide)
    let last := frameAt 2 [9] true (by decide)
    let s := streamCreate 0 .reliable 100 100
    (∀ f ∈ [last, first], Carries [7, 8, 9] f) ∧
      (∀ o < 3, ∃ f ∈ [last, first],
        f.startOffset.toNat ≤ o ∧ o < f.startOffset.toNat + f.length.toNat) ∧
      (streamOnRecv (feed s last) first).1 = .streamClosed ∧
      streamReads (Machine.run feed s [last, first]) [10] = [([0, 0, 9], true)] ∧
      deliver [7, 8, 9] [10] = [([7, 8, 9], true)] := by
  decide

end Nxp
