import Nxp.Core.PathEvents

/-! When a retired identifier of the peer can come into use again. -/

namespace Nxp

variable {run : CidRun} {seqNum nowUs : UInt64} {ms : MigrationState} {entry : CidEntry} {env : Env}

/-- What happens to the identifiers of the peer: a frame is taken, the peer seems to have moved, a
validation takes too long, or the frame that retires an identifier has been sent. -/
inductive CidEvent where
  | frame (env : Env) (frame : Frame) (nowUs : UInt64)
  | addrChange (addr : Addr) (challenge : Option (Vector UInt8 8)) (nowUs : UInt64)
  | timeout (nowUs ptoUs : UInt64)
  | retireSent

/-- What such an event does to a connection. -/
def cidStep (conn : Conn) : CidEvent → Conn
  | .frame env frame nowUs => pathStep conn (.frame env frame nowUs)
  | .addrChange addr challenge nowUs => pathStep conn (.addrChange addr challenge nowUs)
  | .timeout nowUs ptoUs => pathStep conn (.timeout nowUs ptoUs)
  | .retireSent => { conn with migration := { conn.migration with sendRetireCid := false } }

/-- A connection with the number of the identifier it uses, the largest number up to which the peer
asked to retire, and the numbers whose retirement was queued. -/
structure CidRun where
  conn : Conn
  dcidSeq : UInt64
  retirePriorTo : UInt64
  queued : List UInt64

namespace CidRun

/-- At first the identifier of the handshake is used, whose number is zero. -/
def start (conn : Conn) : CidRun := ⟨conn, 0, 0, []⟩

/-- The entry a connection switches to when it takes the answer to a challenge. -/
def switched (conn : Conn) (data : Vector UInt8 8) : Option CidEntry :=
  match migrationOnPathResponse conn.migration data with
  | (true, ms) => migrationGetUnusedCid ms
  | (false, _) => none

/-- The number of the identifier in use after an event. -/
def nextSeq (run : CidRun) : CidEvent → UInt64
  | .frame _ (.pathResponse data) _ => ((switched run.conn data).map (·.seqNum)).getD run.dcidSeq
  | _ => run.dcidSeq

/-- The largest number up to which the peer asked to retire after an event. -/
def nextFloor (run : CidRun) : CidEvent → UInt64
  | .frame _ (.newConnectionId f) _ =>
    if run.retirePriorTo < f.retirePriorTo then f.retirePriorTo else run.retirePriorTo
  | _ => run.retirePriorTo

/-- An event, and what it says about retired numbers. -/
def step (run : CidRun) (event : CidEvent) : CidRun :=
  let conn := cidStep run.conn event
  { conn
    dcidSeq := run.nextSeq event
    retirePriorTo := run.nextFloor event
    queued :=
      if conn.migration.sendRetireCid then conn.migration.retireSeq :: run.queued else run.queued }

/-- A number that the peer asked to retire or whose retirement was queued. -/
def Retired (run : CidRun) (seqNum : UInt64) : Prop :=
  seqNum < run.retirePriorTo ∨ seqNum ∈ run.queued

instance (run : CidRun) (seqNum : UInt64) : Decidable (run.Retired seqNum) :=
  inferInstanceAs (Decidable (_ ∨ _))

/-- No retired identifier is in use or would be used next. -/
structure Sound (run : CidRun) : Prop where
  used : ¬ run.Retired run.dcidSeq
  unused : ∀ entry, migrationGetUnusedCid run.conn.migration = some entry →
    ¬ run.Retired entry.seqNum

/-- A new identifier does not retire the one in use and is not retired itself, unless its number is
known; and no answer makes the connection switch away from an identifier of the pool. -/
def Orderly (run : CidRun) : CidEvent → Prop
  | .frame _ (.newConnectionId f) _ =>
    f.retirePriorTo ≤ run.dcidSeq ∧
      (f.seqNum ∈ run.conn.migration.peerCidPool.entries.map (·.seqNum) ∨
        f.retirePriorTo ≤ f.seqNum ∧ ¬ run.Retired f.seqNum)
  | .frame _ (.pathResponse data) _ =>
    switched run.conn data = none ∨
      ∀ entry ∈ run.conn.migration.peerCidPool.entries, entry.inUse = false
  | _ => True

/-- Nothing was queued, and neither the identifier in use nor one that is not marked was retired. -/
structure Kept (run : CidRun) : Prop where
  quiet : run.conn.migration.sendRetireCid = false
  unqueued : run.queued = []
  live : ∀ entry ∈ run.conn.migration.peerCidPool.entries, entry.retired = false →
    run.retirePriorTo ≤ entry.seqNum
  used : run.retirePriorTo ≤ run.dcidSeq

/-- A kept run has retired nothing from its mark on. -/
theorem Kept.not_retired (kept : run.Kept) (above : run.retirePriorTo ≤ seqNum) :
    ¬ run.Retired seqNum := by
  rintro (below | member)
  · exact UInt64.not_lt.mpr above below
  · rw [kept.unqueued] at member
    cases member

theorem unused_mem (found : migrationGetUnusedCid ms = some entry) :
    entry ∈ ms.peerCidPool.entries ∧ entry.retired = false := by
  have fits := List.find?_some found
  simp only [Bool.and_eq_true, Bool.not_eq_true'] at fits
  exact ⟨List.mem_of_find?_eq_some found, fits.2⟩

/-- So no retired identifier is live. -/
theorem Kept.sound (kept : run.Kept) : run.Sound := by
  refine ⟨kept.not_retired kept.used, fun entry found => kept.not_retired ?_⟩
  exact kept.live entry (unused_mem found).1 (unused_mem found).2

theorem start_kept {conn : Conn} (fresh : conn.migration = migrationInit) :
    (start conn).Kept where
  quiet := by rw [start, fresh]; rfl
  unqueued := rfl
  live := by
    intro entry member
    rw [start, fresh] at member
    cases member
  used := UInt64.le_refl _

theorem Kept.untouched (kept : run.Kept) {event : CidEvent}
    (pool : (cidStep run.conn event).migration.peerCidPool = run.conn.migration.peerCidPool)
    (quiet : (cidStep run.conn event).migration.sendRetireCid = false)
    (seq : run.nextSeq event = run.dcidSeq) (floor : run.nextFloor event = run.retirePriorTo) :
    (run.step event).Kept where
  quiet := quiet
  unqueued := by
    unfold step
    simp only [quiet]
    exact kept.unqueued
  live := by
    unfold step
    simp only [pool, floor]
    exact kept.live
  used := by
    unfold step
    simp only [seq, floor]
    exact kept.used

theorem mem_add {pool : CidPool} {added : CidEntry} (member : entry ∈ (pool.add added).entries) :
    entry = added ∨ entry ∈ pool.entries := by
  unfold CidPool.add at member
  split at member
  · rcases List.mem_append.mp member with old | new
    · exact .inr old
    · exact .inl (List.mem_singleton.mp new)
  · cases slot : pool.entries.findIdx? fun e => e.retired && !e.inUse with
    | none =>
      simp only [slot] at member
      exact .inr member
    | some slot =>
      simp only [slot] at member
      exact (List.mem_or_eq_of_mem_set member).symm

theorem live_retireEntry {retirePriorTo : UInt64}
    (live : (retireEntry retirePriorTo entry).retired = false) :
    retireEntry retirePriorTo entry = entry ∧ entry.retired = false ∧
      retirePriorTo ≤ entry.seqNum := by
  unfold retireEntry at live ⊢
  split at live
  · cases live
  · rename_i spared
    rw [if_neg spared]
    refine ⟨rfl, live, UInt64.not_lt.mp fun below => spared ⟨below, ?_⟩⟩
    rw [live]
    rfl

/-- A new identifier that retires neither the one in use nor itself keeps them. -/
theorem Kept.newConnectionId (kept : run.Kept) {f : FrameNewConnectionId}
    (orderly : run.Orderly (.frame env (.newConnectionId f) nowUs)) :
    (run.step (.frame env (.newConnectionId f) nowUs)).Kept := by
  obtain ⟨sparing, accepted⟩ := orderly
  have floor : run.nextFloor (.frame env (.newConnectionId f) nowUs) =
      if run.retirePriorTo < f.retirePriorTo then f.retirePriorTo else run.retirePriorTo := rfl
  -- A number that neither request covers is above both.
  have above {seqNum : UInt64} (first : run.retirePriorTo ≤ seqNum)
      (second : f.retirePriorTo ≤ seqNum) :
      run.nextFloor (.frame env (.newConnectionId f) nowUs) ≤ seqNum := by
    rw [floor]
    split
    · exact second
    · exact first
  have shown : (cidStep run.conn (.frame env (.newConnectionId f) nowUs)).migration =
      migrationOnNewConnectionId run.conn.migration f.cid f.seqNum f.retirePriorTo
        f.statelessResetToken := rfl
  have quiet : (cidStep run.conn (.frame env (.newConnectionId f) nowUs)).migration.sendRetireCid =
      false := by
    rw [shown]
    unfold migrationOnNewConnectionId
    dsimp only
    split <;> exact kept.quiet
  -- Every entry of the retired pool that is not marked stood there before, above both requests.
  have mapped : ∀ entry ∈ (run.conn.migration.peerCidPool.map
      (retireEntry f.retirePriorTo)).entries, entry.retired = false →
        run.nextFloor (.frame env (.newConnectionId f) nowUs) ≤ entry.seqNum := by
    intro entry member live
    obtain ⟨old, oldMember, rfl⟩ := List.mem_map.mp member
    obtain ⟨same, unmarked, spared⟩ := live_retireEntry live
    rw [same]
    exact above (kept.live old oldMember unmarked) spared
  refine ⟨quiet, ?_, ?_, above kept.used sparing⟩
  · unfold step
    simp only [quiet]
    exact kept.unqueued
  · show ∀ entry ∈ (cidStep run.conn (.frame env (.newConnectionId f) nowUs)).migration.peerCidPool
      |>.entries, entry.retired = false →
        run.nextFloor (.frame env (.newConnectionId f) nowUs) ≤ entry.seqNum
    rw [shown]
    unfold migrationOnNewConnectionId
    dsimp only
    split
    · exact mapped
    · rename_i unknown
      intro entry member live
      rcases mem_add member with rfl | old
      · rcases accepted with known | ⟨ahead, unretired⟩
        · -- A number that is known is found in the retired pool as well.
          obtain ⟨old, oldMember, same⟩ := List.mem_map.mp known
          refine absurd (List.any_eq_true.mpr
            ⟨_, List.mem_map.mpr ⟨old, oldMember, rfl⟩, ?_⟩) unknown
          unfold retireEntry
          split <;> simpa using same
        · exact above (UInt64.not_lt.mp fun below => unretired (.inl below)) ahead
      · exact mapped entry old live

theorem mem_markInUse {entries : List CidEntry} (member : entry ∈ markInUse seqNum entries) :
    ∃ old ∈ entries, entry.seqNum = old.seqNum ∧ entry.retired = old.retired := by
  induction entries with
  | nil => cases member
  | cons first rest ih =>
    unfold markInUse at member
    split at member
    · rcases List.mem_cons.mp member with rfl | later
      · exact ⟨first, List.mem_cons_self, rfl, rfl⟩
      · exact ⟨entry, List.mem_cons_of_mem _ later, rfl, rfl⟩
    · rcases List.mem_cons.mp member with rfl | later
      · exact ⟨entry, List.mem_cons_self, rfl, rfl⟩
      · obtain ⟨old, oldMember, same⟩ := ih later
        exact ⟨old, List.mem_cons_of_mem _ oldMember, same⟩

theorem mem_migrationUseCid (member : entry ∈ (migrationUseCid ms seqNum).peerCidPool.entries) :
    ∃ old ∈ ms.peerCidPool.entries, entry.seqNum = old.seqNum ∧ entry.retired = old.retired := by
  have marked : entry ∈ markInUse seqNum
      (ms.peerCidPool.entries.map fun e => { e with inUse := false }) := by
    unfold migrationUseCid at member
    dsimp only at member
    split at member <;> exact member
  obtain ⟨old, oldMember, sameSeq, sameMark⟩ := mem_markInUse marked
  obtain ⟨oldest, oldestMember, rfl⟩ := List.mem_map.mp oldMember
  exact ⟨oldest, oldestMember, sameSeq, sameMark⟩

theorem migrationUseCid_quiet (seqNum : UInt64)
    (idle : ∀ entry ∈ ms.peerCidPool.entries, entry.inUse = false) :
    (migrationUseCid ms seqNum).sendRetireCid = ms.sendRetireCid := by
  have idle : ms.peerCidPool.entries.filter (·.inUse) = [] :=
    List.filter_eq_nil_iff.mpr fun entry member => by simp [idle entry member]
  unfold migrationUseCid
  simp only [idle, List.getLast?_nil]

theorem migrationOnPathResponse_pool (ms : MigrationState) (data : Vector UInt8 8) :
    (migrationOnPathResponse ms data).2.peerCidPool = ms.peerCidPool ∧
      (migrationOnPathResponse ms data).2.sendRetireCid = ms.sendRetireCid := by
  unfold migrationOnPathResponse
  split
  · exact ⟨rfl, rfl⟩
  · split <;> exact ⟨rfl, rfl⟩

/-- An answer that switches to an unused identifier only when none is in use keeps them. -/
theorem Kept.pathResponse (kept : run.Kept) {data : Vector UInt8 8}
    (orderly : run.Orderly (.frame env (.pathResponse data) nowUs)) :
    (run.step (.frame env (.pathResponse data) nowUs)).Kept := by
  have taken := migrationOnPathResponse_pool run.conn.migration data
  have shown : cidStep run.conn (.frame env (.pathResponse data) nowUs) =
      recvPathResponse run.conn data := rfl
  have seq : run.nextSeq (.frame env (.pathResponse data) nowUs) =
      ((switched run.conn data).map (·.seqNum)).getD run.dcidSeq := rfl
  cases answered : migrationOnPathResponse run.conn.migration data with
  | mk valid ms =>
    rw [answered] at taken
    cases valid with
    | false =>
      refine kept.untouched ?_ ?_ ?_ rfl
      · rw [shown, recvPathResponse, answered]
        exact taken.1
      · rw [shown, recvPathResponse, answered]
        exact taken.2.trans kept.quiet
      · rw [seq, switched, answered]
        rfl
    | true =>
      cases chosen : migrationGetUnusedCid ms with
      | none =>
        refine kept.untouched ?_ ?_ ?_ rfl
        · rw [shown, recvPathResponse, answered]
          simp only [chosen]
          exact taken.1
        · rw [shown, recvPathResponse, answered]
          simp only [chosen]
          exact taken.2.trans kept.quiet
        · rw [seq, switched, answered]
          simp only [chosen]
          rfl
      | some entry =>
        have moved : switched run.conn data = some entry := by
          rw [switched, answered]
          exact chosen
        have idle : ∀ entry ∈ ms.peerCidPool.entries, entry.inUse = false := by
          rw [taken.1]
          exact orderly.resolve_left (by rw [moved]; exact Option.some_ne_none _)
        have after : (cidStep run.conn (.frame env (.pathResponse data) nowUs)).migration =
            migrationUseCid ms entry.seqNum := by
          rw [shown, recvPathResponse, answered]
          simp only [chosen]
        have quiet : (cidStep run.conn
            (.frame env (.pathResponse data) nowUs)).migration.sendRetireCid = false := by
          rw [after, migrationUseCid_quiet _ idle]
          exact taken.2.trans kept.quiet
        -- The entry switched to is one of the pool that is not marked.
        have inPool := unused_mem chosen
        rw [taken.1] at inPool
        refine ⟨quiet, ?_, ?_, ?_⟩
        · unfold step
          simp only [quiet]
          exact kept.unqueued
        · show ∀ entry ∈ (cidStep run.conn
            (.frame env (.pathResponse data) nowUs)).migration.peerCidPool.entries,
              entry.retired = false → run.retirePriorTo ≤ entry.seqNum
          rw [after]
          intro other member live
          obtain ⟨old, oldMember, sameSeq, sameMark⟩ := mem_migrationUseCid member
          rw [taken.1] at oldMember
          rw [sameSeq]
          exact kept.live old oldMember (sameMark.symm.trans live)
        · show run.retirePriorTo ≤ run.nextSeq (.frame env (.pathResponse data) nowUs)
          rw [seq, moved]
          exact kept.live entry inPool.1 inPool.2

/-- Every orderly event keeps them. -/
theorem Kept.step (event : CidEvent) (kept : run.Kept) (orderly : run.Orderly event) :
    (run.step event).Kept := by
  cases event with
  | frame env frame nowUs =>
    cases about : frame.migrates with
    | false =>
      have same : (cidStep run.conn (.frame env frame nowUs)).migration = run.conn.migration :=
        (processFrame_migration env run.conn nowUs about).1
      refine kept.untouched (by rw [same]) (by rw [same]; exact kept.quiet) ?_ ?_
      · cases frame with
        | pathResponse data => cases about
        | _ => rfl
      · cases frame with
        | newConnectionId f => cases about
        | _ => rfl
    | true =>
      cases frame with
      | pathChallenge data => exact kept.untouched rfl kept.quiet rfl rfl
      | pathResponse data => exact kept.pathResponse orderly
      | newConnectionId f => exact kept.newConnectionId orderly
      | _ => cases about
  | addrChange addr challenge nowUs =>
    refine kept.untouched ?_ ?_ rfl rfl
    · show (migrationOnPeerAddrChange run.conn.migration addr challenge nowUs).2.peerCidPool = _
      unfold migrationOnPeerAddrChange
      split_ifs <;> cases challenge <;> rfl
    · show (migrationOnPeerAddrChange run.conn.migration addr challenge nowUs).2.sendRetireCid = _
      unfold migrationOnPeerAddrChange
      split_ifs <;> cases challenge <;> exact kept.quiet
  | timeout nowUs ptoUs =>
    refine kept.untouched ?_ ?_ rfl rfl
    · show (migrationCheckTimeout run.conn.migration nowUs ptoUs).2.peerCidPool = _
      unfold migrationCheckTimeout
      split_ifs <;> rfl
    · show (migrationCheckTimeout run.conn.migration nowUs ptoUs).2.sendRetireCid = _
      unfold migrationCheckTimeout
      split_ifs <;> exact kept.quiet
  | retireSent => exact kept.untouched rfl rfl rfl rfl

end CidRun

/-- In every run of orderly events from a new connection no retired identifier is in use or would be
used next. -/
theorem retired_unused {conn : Conn} (fresh : conn.migration = migrationInit)
    (events : List CidEvent)
    (orderly : Machine.Along CidRun.step CidRun.Orderly (CidRun.start conn) events) :
    (Machine.run CidRun.step (CidRun.start conn) events).Sound :=
  (Machine.run_invariant CidRun.Orderly (fun _ event kept orderly => kept.step event orderly)
    (CidRun.start_kept fresh) orderly).sound

/-- An identifier of one octet. -/
def octetCid (octet : UInt8) : ConnId := ⟨[octet], show 1 ≤ maxCidLen by decide⟩

/-- The peer issues an identifier of one octet under a number, and asks to retire others. -/
def issued (seqNum retirePriorTo : UInt64) : CidEvent :=
  .frame plainEnv (.newConnectionId
    ⟨seqNum, retirePriorTo, octetCid seqNum.toUInt8, Vector.replicate 16 0⟩) 0

/-- The peer moves and answers the challenge sent to its new address. -/
def movedOnce : List CidEvent :=
  [.addrChange ⟨Vector.replicate 28 1⟩ (some (Vector.replicate 8 1)) 0,
    .frame plainEnv (.pathResponse (Vector.replicate 8 1)) 0]

/-- Two identifiers are issued, the first of them is used, and the peer retires all but it and the
one it issues last. -/
def retiring : List CidEvent := [issued 5 0, issued 2 0] ++ movedOnce ++ [issued 6 3]

/-- The identifier of the handshake and one that was not used are retired, and neither is in use. -/
theorem retired_unused_retiring :
    ∃ run, run = Machine.run CidRun.step (CidRun.start (connCreate plainConfig false true)) retiring ∧
      run.Retired 0 ∧ run.Retired 2 ∧ run.dcidSeq = 5 ∧ run.Sound :=
  ⟨_, rfl, by decide +kernel, by decide +kernel, by decide +kernel, retired_unused rfl retiring
    ⟨⟨by decide, .inr ⟨by decide, by decide⟩⟩, ⟨by decide, .inr ⟨by decide, by decide⟩⟩, trivial,
      .inr (by decide +kernel), ⟨by decide +kernel, .inr ⟨by decide, by decide +kernel⟩⟩, trivial⟩⟩

/-- Two identifiers are issued and the peer moves twice. -/
def twiceMoved : Conn :=
  Machine.run cidStep (connCreate plainConfig false true)
    ([issued 1 0, issued 2 0] ++ movedOnce ++ movedOnce)

/-- After two moves the retirement of the first identifier is queued, yet it is the next to be used
and in use after a third move; and the identifier in use stays in use when the peer retires it. -/
theorem retired_used :
    (twiceMoved.migration.sendRetireCid = true ∧ twiceMoved.migration.retireSeq = 1 ∧
      (migrationGetUnusedCid twiceMoved.migration).map (·.seqNum) = some 1 ∧
      (Machine.run cidStep twiceMoved movedOnce).dcid = octetCid 1) ∧
    (Machine.run cidStep (connCreate plainConfig false true)
      ([issued 1 0] ++ movedOnce ++ [issued 2 2])).dcid = octetCid 1 := by
  decide +kernel

end Nxp
