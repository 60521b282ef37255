import Nxp.Core.RingLaws

/-! Streams with something to send are in the ring, as long as no write only marks the end of a
stream that is not there. -/

namespace Nxp

/-- A stream that is marked as scheduled and lies on the circle that the ring is entered at. -/
def Conn.OnRing (conn : Conn) (id : UInt64) : Prop :=
  conn.isScheduled id = true ∧ ∃ head, conn.schedHead = some head ∧
    Relation.ReflTransGen (fun x y => conn.links.next x = some y) head id ∧
    Relation.ReflTransGen (fun x y => conn.links.next x = some y) id head

/-- Every stream with data or its end to send is in the ring. -/
def PendingScheduled (conn : Conn) : Prop :=
  ∀ id s, conn.stream id = some s → streamUnsent s > 0 ∨ streamFinPending s = true →
    conn.OnRing id

/-- No write only marks the end of a stream that is not in the ring. -/
def steadyTerms : Terms where
  taken _ _ _ := True
  written conn streamId data fin := ¬ Strands conn streamId data fin

/-- An end that was sent is an end that was marked. -/
def Stream.EndMarked (_ : UInt64) (s : Stream) : Prop := s.send.finSent = true → s.send.fin = true

theorem Stream.EndMarked.linked {id : UInt64} {s s' : Stream} (same : s'.unlinked = s.unlinked)
    (marked : s.EndMarked id) : s'.EndMarked id := by
  have send : s'.send = s.send := (congrArg Stream.send same :)
  unfold Stream.EndMarked at marked ⊢
  rwa [send]

/-- No move sends an end that is not marked. -/
theorem Stream.EndMarked.moved {id : UInt64} {act : Act} {s s' : Stream}
    (move : Move id s act s') (marked : s.EndMarked id) : s'.EndMarked id := by
  unfold Stream.EndMarked at marked ⊢
  cases move with
  | retimed only => rw [only]; exact marked
  | @received env f named => rw [streamOnRecv_only]; exact marked
  | raised maxData => exact marked
  | acked named blocked => simp only [streamOnAck_send]; exact marked
  | lost named =>
    rw [streamOnLoss_send]
    intro sent
    simp only [Bool.and_eq_true] at sent
    exact marked sent.1
  | @sent space b b' limit refreshed filledStream f only filled =>
    have ready : refreshed.send = s.send := (congrArg Stream.send only :)
    obtain ⟨rfl, -, -, -, -, -, -, fin⟩ := streamFillFrame_fills filled
    intro sent
    show refreshed.send.fin = true
    -- Either the end was sent before, or it is sent now because it is marked.
    rcases Bool.or_eq_true_iff.mp sent with old | new
    · rw [ready] at old ⊢
      exact marked old
    · rw [fin, Bool.and_eq_true] at new
      exact (Bool.and_eq_true_iff.mp new.1).1
  | written data fin =>
    by_cases writable : s.Writable
    · -- A stream that takes data has not sent its end.
      have unsent : s.send.finSent = false := by
        by_contra sent
        have ended := marked (by simpa using sent)
        rw [writable.2] at ended
        cases ended
      rw [streamWrite_accepted writable]
      intro sent
      exact absurd sent (by simp [unsent])
    · rw [streamWrite_refused writable]
      exact marked
  | read bufLen => rw [streamRead_only]; exact marked

/-- A connection whose ring is in order, with what that rests on. -/
structure Conn.Steady (conn : Conn) : Prop where
  numbered : conn.Numbered
  marked : conn.Each Stream.EndMarked
  ring : ∃ items, conn.RingOf items

/-- Every act keeps the connection steady. -/
theorem Conn.Steady.kept {act : Act} {before after : Conn} (steady : before.Steady)
    (done : act.does before after) : after.Steady := by
  obtain ⟨items, ring⟩ := steady.ring
  refine ⟨steady.numbered.kept done, ?_, Act.ring steady.numbered done ring⟩
  exact Conn.Each.act Stream.EndMarked.linked (fun _ _ _ sent => by cases sent)
    Stream.EndMarked.moved done steady.marked

theorem Conn.Steady.pending_iff {conn : Conn} (steady : conn.Steady) :
    PendingScheduled conn ↔ ∀ id, ¬ conn.Stray id := by
  obtain ⟨items, ring⟩ := steady.ring
  have positive (s : Stream) : s.Pending ↔ streamUnsent s > 0 ∨ streamFinPending s = true := by
    unfold Stream.Pending
    rw [not_and_or, gt_iff_lt, UInt64.lt_iff_toNat_lt, ← UInt64.toNat_inj]
    simp [Nat.pos_iff_ne_zero]
  constructor
  · rintro scheduled id ⟨s, found, pending, out⟩
    have inside := (scheduled id s found ((positive s).mp pending)).1
    rw [(Conn.links_found found).2.2, out] at inside
    cases inside
  · intro none id s found waiting
    have member : id ∈ items := by
      rw [ring.mem_iff found]
      by_contra out
      exact none id ⟨s, found, (positive s).mpr waiting, Bool.eq_false_iff.mpr out⟩
    refine ⟨(ring.members id).mp member, ?_⟩
    cases items with
    | nil => cases member
    | cons head rest => exact ⟨head, ring.head, ring.linked.reaches member, ring.linked.returns member⟩

theorem Strands.stray {conn : Conn} {streamId : UInt64} {data : Bytes} {fin : Bool}
    (marked : conn.Each Stream.EndMarked) (strands : Strands conn streamId data fin) :
    (connStreamSend conn streamId data fin).2.Stray streamId := by
  obtain ⟨state, rfl, s, found, writable, out, zero⟩ := strands
  have unsent : s.send.finSent = false := by
    by_contra sent
    have ended := marked streamId s found (by simpa using sent)
    rw [writable.2] at ended
    cases ended
  unfold connStreamSend
  rw [if_neg (not_not.mpr state), found]
  simp only [streamWrite_accepted writable, zero]
  rw [if_neg (by decide)]
  refine ⟨_, (Conn.stream_setStream _ _ _ _).trans (if_pos rfl), ?_, out⟩
  unfold Stream.Pending streamFinPending
  simp [unsent]

theorem connCreate_steady (config : ConnConfig) (isServer allocCc : Bool) :
    (connCreate config isServer allocCc).Steady :=
  ⟨connCreate_numbered config isServer allocCc, fun _ _ found => (by cases found),
    [], connCreate_ring config isServer allocCc⟩

/-- In every run in which no write only marks the end of a stream that is not in the ring, every
stream with data or its end to send is in the ring; and in every state such a run reaches, a write
keeps it so exactly if it does not do that. -/
theorem pending_scheduled {evp : Evp} {config : ConnConfig} {isServer allocCc : Bool}
    {inputs : List (Env × ConnOp)} {final : Conn}
    (kept : Machine.Throughout (connStep evp) (steadyTerms.met evp)
      (connCreate config isServer allocCc) inputs)
    (reached : Machine.attempt (connStep evp) (connCreate config isServer allocCc) inputs =
      some final) :
    PendingScheduled final ∧
      ∀ streamId data fin, PendingScheduled (connStreamSend final streamId data fin).2 ↔
        ¬ Strands final streamId data fin := by
  have act (before after : Conn) (act : Act) (permitted : steadyTerms.permit before act)
      (done : act.does before after) (held : before.Steady ∧ ∀ id, ¬ before.Stray id) :
      after.Steady ∧ ∀ id, ¬ after.Stray id := by
    obtain ⟨steady, none⟩ := held
    refine ⟨steady.kept done, fun id stray => ?_⟩
    obtain ⟨items, ring⟩ := steady.ring
    have ringed := Act.ringed steady.numbered done
      (fun streamId data fin same => by subst same; exact permitted)
    exact none id (ringed.strays items ring id stray)
  have held : final.Steady ∧ ∀ id, ¬ final.Stray id :=
    Machine.attempt_invariant (steadyTerms.met evp)
      (fun conn : Conn => conn.Steady ∧ ∀ id, ¬ conn.Stray id)
      (fun _ _ _ before met stepped => (connStep_acts met stepped).preserve act before)
      ⟨connCreate_steady config isServer allocCc, fun _ stray => stray.elim fun _ h => by cases h.1⟩
      kept reached
  obtain ⟨steady, none⟩ := held
  refine ⟨steady.pending_iff.mpr none, fun streamId data fin => ?_⟩
  have done : (Act.written streamId data fin).does final
      (connStreamSend final streamId data fin).2 := rfl
  rw [(steady.kept done).pending_iff]
  constructor
  · intro nothing strands
    exact nothing streamId (strands.stray steady.marked)
  · intro safe id stray
    obtain ⟨items, ring⟩ := steady.ring
    exact none id (((connStreamSend_wrote final streamId data fin).ringed safe).strays items ring id
      stray)

/-- Three octets that are written are in the ring, and writing no more than the end then keeps
them there. -/
theorem pending_scheduled_three :
    ∃ final, Machine.attempt (connStep plainEvp) (connCreate plainConfig false true)
        threeWritten = some final ∧ PendingScheduled final ∧
      PendingScheduled (connStreamSend final 0 [] true).2 := by
  have kept : Machine.Throughout (connStep plainEvp) (steadyTerms.met plainEvp)
      (connCreate plainConfig false true) threeWritten := by
    refine ⟨trivial, fun _ first => ?_⟩
    cases first
    refine ⟨trivial, fun _ second => ?_⟩
    cases second
    refine ⟨?_, fun _ _ => trivial⟩
    rintro ⟨-, marked, -⟩
    cases marked
  have scheduled := pending_scheduled kept rfl
  refine ⟨_, rfl, scheduled.1, (scheduled.2 0 [] true).mpr ?_⟩
  -- The stream is in the ring because of its data.
  rintro ⟨-, -, s, found, -, out, -⟩
  cases found
  exact absurd out (by decide +kernel)

/-- A client that is established by hand and only marks the end of a stream. -/
def endMarked : List (Env × ConnOp) :=
  [(plainEnv, .setEstablished ConnId.empty), (plainEnv, .openStream .reliable false),
    (plainEnv, .streamSend 0 [] true)]

/-- The end of a stream without data is never put in the ring, and no packet takes it along. -/
theorem end_not_scheduled :
    ∃ final, Machine.attempt (connStep plainEvp) (connCreate plainConfig false true) endMarked =
        some final ∧ (final.stream 0).map streamFinPending = some true ∧
      (final.stream 0).map (·.scheduled) = some false ∧ ¬ PendingScheduled final ∧
      (connSend plainEvp plainEnv final 1200 0).map Prod.fst = some .nothing := by
  have run : ∃ final, Machine.attempt (connStep plainEvp) (connCreate plainConfig false true)
      endMarked = some final ∧ (final.stream 0).map streamFinPending = some true ∧
      (final.stream 0).map (·.scheduled) = some false ∧
      (connSend plainEvp plainEnv final 1200 0).map Prod.fst = some .nothing :=
    ⟨_, rfl, by decide +kernel⟩
  obtain ⟨final, reached, pending, out, nothing⟩ := run
  refine ⟨final, reached, pending, out, fun scheduled => ?_, nothing⟩
  obtain ⟨s, found, waits⟩ := Option.map_eq_some_iff.mp pending
  rw [found, Option.map_some] at out
  have inside := (scheduled 0 s found (.inr waits)).1
  rw [(Conn.links_found found).2.2, Option.some.inj out] at inside
  cases inside

end Nxp
