import Nxp.Core.RingLaws

/-! The scheduler's list is one circle of the scheduled streams, and serves them in turn. -/

namespace Nxp

/-- What happens to the scheduler's list and to the streams on it. -/
inductive SchedOp where
  | create (id : UInt64) (type : StreamType)
  | send (id : UInt64) (send : SendBuf)
  | add (id : UInt64)
  | remove (id : UInt64)
  | next

namespace SchedOp

/-- No stream is added or removed. -/
def quiet : SchedOp → Bool
  | .add _ | .remove _ => false
  | _ => true

/-- Whether the next stream is asked for. -/
def isNext : SchedOp → Bool
  | .next => true
  | _ => false

end SchedOp

/-- One operation, anything being allowed to happen to what a stream has to send. -/
def schedStep (conn : Conn) : SchedOp → Conn
  | .create id type =>
    if (conn.stream id).isNone then conn.setStream id (streamCreate id type 0 0) else conn
  | .send id send => conn.modifyStream id fun s => { s with send := send }
  | .add id => schedAdd conn id
  | .remove id => schedRemove conn id
  | .next => (schedNext conn).2

/-- The streams that are returned, one after the other. -/
def schedReturned (conn : Conn) : List SchedOp → List UInt64
  | [] => []
  | op :: ops =>
    (if op.isNext then (schedNext conn).1.toList else []) ++ schedReturned (schedStep conn op) ops

/-- All of these streams have something to send. -/
def Conn.AllPending (conn : Conn) (ids : List UInt64) : Prop :=
  ∀ id ∈ ids, ∃ s, conn.stream id = some s ∧ s.Pending

section Steps

variable {conn : Conn} {items : List UInt64}

theorem schedStep_create (ring : conn.RingOf items) (id : UInt64) (type : StreamType) :
    (schedStep conn (.create id type)).RingOf items := by
  simp only [schedStep]
  split
  · rename_i absent
    exact ring.create (Option.isNone_iff_eq_none.mp absent) ⟨rfl, rfl, rfl⟩
  · exact ring

theorem schedStep_send (ring : conn.RingOf items) (id : UInt64) (send : SendBuf) :
    (schedStep conn (.send id send)).RingOf items := by
  simp only [schedStep, Conn.modifyStream]
  split
  · exact ring
  · rename_i s found
    exact ring.setStream found ⟨rfl, rfl, rfl⟩

/-- Every operation leaves one circle of the scheduled streams. -/
theorem schedStep_ring (ring : conn.RingOf items) (op : SchedOp) :
    ∃ items', (schedStep conn op).RingOf items' := by
  cases op with
  | create id type => exact ⟨items, schedStep_create ring id type⟩
  | send id send => exact ⟨items, schedStep_send ring id send⟩
  | add id =>
    cases found : conn.stream id with
    | none => exact ⟨items, by simpa [schedStep, schedAdd, found] using ring⟩
    | some s => exact ⟨_, ring.schedAdd found⟩
  | remove id =>
    cases found : conn.stream id with
    | none => exact ⟨items, by simpa [schedStep, schedRemove, found] using ring⟩
    | some s => exact ⟨_, ring.schedRemove found⟩
  | next =>
    cases items with
    | nil => exact ⟨[], by simpa [schedStep, ring.schedNext_nil] using ring⟩
    | cons x rest =>
      obtain ⟨s, -, -, after⟩ := ring.schedNext_cons
      exact ⟨_, after⟩

end Steps

/-- Streams waiting for their turn get it in the order of the list, those served going behind. -/
theorem schedReturned_turn {all waiting served : List UInt64} {conn : Conn}
    {window : List SchedOp} (quiet : ∀ op ∈ window, op.quiet = true)
    (ring : conn.RingOf (waiting ++ served)) (within : ∀ id ∈ waiting, id ∈ all)
    (pending : Machine.Along schedStep (fun conn _ => conn.AllPending all) conn window)
    (turns : window.countP SchedOp.isNext = waiting.length) :
    schedReturned conn window = waiting := by
  induction window generalizing conn waiting served with
  | nil =>
    rw [List.countP_nil] at turns
    rw [List.length_eq_zero_iff.mp turns.symm]
    rfl
  | cons op window ih =>
    have later : ∀ op ∈ window, op.quiet = true :=
      fun other member => quiet other (List.mem_cons_of_mem op member)
    rw [schedReturned]
    cases op with
    | create id type =>
      exact ih later (schedStep_create ring id type) within pending.2 turns
    | send id send =>
      exact ih later (schedStep_send ring id send) within pending.2 turns
    | add id => exact absurd (quiet _ (List.mem_cons_self ..)) (by simp [SchedOp.quiet])
    | remove id => exact absurd (quiet _ (List.mem_cons_self ..)) (by simp [SchedOp.quiet])
    | next =>
      rw [List.countP_cons_of_pos (by rfl)] at turns
      cases waiting with
      | nil => simp at turns
      | cons x waiting =>
        have started : conn.RingOf (x :: (waiting ++ served)) := ring
        obtain ⟨s, found, returned, after⟩ := started.schedNext_cons
        obtain ⟨t, there, busy⟩ := pending.1 x (within x (List.mem_cons_self ..))
        cases found.symm.trans there
        -- A stream with something to send goes to the end of the list.
        rw [if_pos busy, List.append_assoc] at after
        have rest := ih later after (fun id member => within id (List.mem_cons_of_mem x member))
          pending.2 (by simpa using turns)
        rw [returned]
        exact congrArg (x :: ·) rest

/-- After any operations the scheduled streams are one circular list, and as many turns as there are
streams on it return each of them once, as long as they have something to send. -/
theorem sched_round_robin (config : ConnConfig) (isServer allocCc : Bool) (ops : List SchedOp) :
    ∃ items, (Machine.run schedStep (connCreate config isServer allocCc) ops).RingOf items ∧
      ∀ window : List SchedOp, (∀ op ∈ window, op.quiet = true) →
        Machine.Along schedStep (fun conn _ => conn.AllPending items)
          (Machine.run schedStep (connCreate config isServer allocCc) ops) window →
        window.countP SchedOp.isNext = items.length →
        schedReturned (Machine.run schedStep (connCreate config isServer allocCc) ops) window =
          items := by
  obtain ⟨items, ring⟩ :
      ∃ items, (Machine.run schedStep (connCreate config isServer allocCc) ops).RingOf items := by
    apply Machine.run_preserves fun conn : Conn => ∃ items, conn.RingOf items
    · rintro conn op ⟨items, ring⟩
      exact schedStep_ring ring op
    · exact ⟨[], connCreate_ring config isServer allocCc⟩
  refine ⟨items, ring, ?_⟩
  intro window quiet pending turns
  rw [← List.append_nil items] at ring
  exact schedReturned_turn quiet ring (fun _ member => member) pending turns

/-- Two streams are written to and added to the list. -/
def bothAdded : List SchedOp :=
  let send := (streamWrite (streamCreate 0 .reliable 8 8) [7] false).2.send
  [.create 0 .reliable, .create 4 .reliable, .send 0 send, .send 4 send, .add 0, .add 4]

/-- The connection then. -/
def bothWaiting : Conn := Machine.run schedStep (connCreate plainConfig false true) bothAdded

/-- Two turns return the two streams. -/
theorem sched_round_robin_two :
    ∃ items, bothWaiting.RingOf items ∧ items.Perm [0, 4] ∧
      schedReturned bothWaiting [.next, .next] = items := by
  obtain ⟨items, ring, turns⟩ := sched_round_robin plainConfig false true bothAdded
  have ring : bothWaiting.RingOf items := ring
  have facts : bothWaiting.streams.keys.Perm [0, 4] ∧
      [0, 4].all bothWaiting.isScheduled = true ∧
      [0, 4].all (fun id => (bothWaiting.stream id).any fun s => decide s.Pending) = true ∧
      [0, 4].all (fun id => ((schedNext bothWaiting).2.stream id).any fun s => decide s.Pending) =
        true := by
    decide +kernel
  obtain ⟨keys, scheduled, first, second⟩ := facts
  have same : items.Perm [0, 4] := by
    refine (List.perm_ext_iff_of_nodup ring.linked.distinct (by decide)).mpr fun id => ?_
    refine ⟨fun member => ?_,
      fun member => (ring.members id).mpr (List.all_eq_true.mp scheduled id member)⟩
    obtain ⟨s, found, -⟩ := ring.found member
    have listed : id ∈ bothWaiting.streams :=
      AList.lookup_isSome.mp (Option.isSome_iff_exists.mpr ⟨s, found⟩)
    exact keys.subset (AList.mem_keys.mp listed)
  have pending {conn : Conn}
      (all : [0, 4].all (fun id => (conn.stream id).any fun s => decide s.Pending) = true) :
      conn.AllPending items := by
    intro id member
    have waiting := List.all_eq_true.mp all id (same.subset member)
    obtain ⟨s, found, waits⟩ := (Option.any_eq_true ..).mp waiting
    exact ⟨s, found, of_decide_eq_true waits⟩
  exact ⟨items, ring, same, turns [.next, .next] (by decide)
    ⟨pending first, pending second, trivial⟩ same.length_eq.symm⟩

end Nxp
