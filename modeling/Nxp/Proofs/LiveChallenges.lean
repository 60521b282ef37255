import Nxp.Core.ControlFrames
import Nxp.Core.PathEvents
import Nxp.Core.SendLaws

/-! When a challenge is sent that nobody waits for an answer to. -/

namespace Nxp

variable {conn next : Conn} {evp : Evp} {event : ChallengeEvent} {env : Env} {maxLen : Nat}
  {nowUs : UInt64}

/-- What happens to a challenge: the peer seems to have moved, it answers, the validation takes too
long, or the connection sends. -/
inductive ChallengeEvent where
  | addrChange (addr : Addr) (challenge : Option (Vector UInt8 8)) (nowUs : UInt64)
  | response (data : Vector UInt8 8)
  | timeout (nowUs ptoUs : UInt64)
  | send (env : Env) (maxLen : Nat) (nowUs : UInt64)

/-- What such an event does, if it returns. -/
def challengeStep (evp : Evp) (conn : Conn) : ChallengeEvent → Option Conn
  | .addrChange addr challenge nowUs =>
    some { conn with
      migration := (migrationOnPeerAddrChange conn.migration addr challenge nowUs).2 }
  | .response data => some (recvPathResponse conn data)
  | .timeout nowUs ptoUs =>
    some { conn with migration := (migrationCheckTimeout conn.migration nowUs ptoUs).2 }
  | .send env maxLen nowUs => (connSend evp env conn maxLen nowUs).map (·.2)

/-- A challenge that waits to be sent is one whose answer is waited for. -/
def Conn.ChallengeLive (conn : Conn) : Prop :=
  conn.migration.sendPathChallenge = true → conn.migration.newPath.challengePending = true

/-- An event does not end the validation while its challenge waits to be sent: neither is it the
answer nor does the validation take too long. -/
def SentFirst (conn : Conn) : ChallengeEvent → Prop
  | .response data =>
    conn.migration.sendPathChallenge = true → data ≠ conn.migration.newPath.challengeData
  | .timeout nowUs ptoUs =>
    conn.migration.sendPathChallenge = true →
      nowUs < conn.migration.newPath.challengeSentTime + ptoUs * 3
  | _ => True

instance (conn : Conn) (event : ChallengeEvent) : Decidable (SentFirst conn event) :=
  match event with
  | .addrChange _ _ _ => inferInstanceAs (Decidable True)
  | .response _ => inferInstanceAs (Decidable (_ → _))
  | .timeout _ _ => inferInstanceAs (Decidable (_ → _))
  | .send _ _ _ => inferInstanceAs (Decidable True)

/-- The validation under way is the same, and no challenge waits that did not before. -/
structure KeepsChallenge (before after : Conn) : Prop where
  path : after.migration.newPath = before.migration.newPath
  queued : after.migration.sendPathChallenge = true → before.migration.sendPathChallenge = true

namespace KeepsChallenge

theorem of_migration {before after : Conn} (same : after.migration = before.migration) :
    KeepsChallenge before after := by
  constructor
  case path => rw [same]
  case queued => rw [same]; exact id

theorem trans {first second third : Conn} (left : KeepsChallenge first second)
    (right : KeepsChallenge second third) : KeepsChallenge first third where
  path := right.path.trans left.path
  queued := fun waits => left.queued (right.queued waits)

theorem clears {frame : Frame} (clears : Clears conn frame next) :
    KeepsChallenge conn next := by
  cases clears with
  | close due =>
    exact of_migration (congrArg Conn.migration
      (setConnState_only { conn with sendConnClose := false } .closing) :)
  | pathChallenge due => exact ⟨rfl, nofun⟩
  | _ => exact ⟨rfl, id⟩

/-- A send queues no new challenge. -/
theorem connSend {result : SendResult} (sent : ConnSent evp env conn maxLen nowUs result next) :
    KeepsChallenge conn next :=
  ConnSent.asides (KeepsChallenge conn)
    (fun kept same => kept.trans (of_migration (congrArg Prod.fst same)))
    (fun kept cleared => kept.trans (clears cleared)) sent (of_migration rfl)

end KeepsChallenge

theorem migrationUseCid_challenge (ms : MigrationState) (seqNum : UInt64) :
    (migrationUseCid ms seqNum).sendPathChallenge = ms.sendPathChallenge := by
  unfold migrationUseCid
  dsimp only
  split <;> rfl

theorem recvPathResponse_challenge (conn : Conn) (data : Vector UInt8 8) :
    (recvPathResponse conn data).migration.sendPathChallenge = conn.migration.sendPathChallenge ∧
      (recvPathResponse conn data).migration.newPath =
        if conn.migration.newPath.challengePending = true ∧
            data = conn.migration.newPath.challengeData then PathState.zero
        else conn.migration.newPath := by
  unfold recvPathResponse
  cases pending : conn.migration.newPath.challengePending with
  | false => simp [migrationOnPathResponse, pending]
  | true =>
    by_cases right : data = conn.migration.newPath.challengeData
    · simp only [migrationOnPathResponse, pending, right]
      simp only [Bool.not_true, Bool.false_eq_true, if_false, ne_eq, not_true_eq_false, and_self,
        if_true]
      split
      · exact ⟨rfl, rfl⟩
      · exact ⟨migrationUseCid_challenge _ _, (migrationUseCid_paths _ _).2.1⟩
    · simp [migrationOnPathResponse, pending, right]

theorem migrationCheckTimeout_challenge (ms : MigrationState) (nowUs ptoUs : UInt64) :
    (migrationCheckTimeout ms nowUs ptoUs).2.sendPathChallenge = ms.sendPathChallenge ∧
      (migrationCheckTimeout ms nowUs ptoUs).2.newPath =
        if ms.newPath.challengePending = true ∧ nowUs ≥ ms.newPath.challengeSentTime + ptoUs * 3 then
          PathState.zero
        else ms.newPath := by
  unfold migrationCheckTimeout
  cases pending : ms.newPath.challengePending with
  | false => simp
  | true =>
    by_cases late : nowUs ≥ ms.newPath.challengeSentTime + ptoUs * 3
    · simp [late]
    · simp [late]

theorem migrationOnPeerAddrChange_challenge (ms : MigrationState) (addr : Addr)
    (challenge : Option (Vector UInt8 8)) (nowUs : UInt64) :
    let after := (migrationOnPeerAddrChange ms addr challenge nowUs).2
    (after.sendPathChallenge = ms.sendPathChallenge ∧
        after.newPath.challengePending = ms.newPath.challengePending ∧
        after.newPath.challengeData = ms.newPath.challengeData) ∨
      (after.newPath.challengePending = true ∧ challenge = some after.newPath.challengeData) := by
  unfold migrationOnPeerAddrChange
  split
  · exact .inl ⟨rfl, rfl, rfl⟩
  · split
    · exact .inl ⟨rfl, rfl, rfl⟩
    · cases challenge with
      | none => exact .inl ⟨rfl, rfl, rfl⟩
      | some data => exact .inr ⟨rfl, rfl⟩

/-- An event that does not end the validation before its time leaves the challenge alive. -/
theorem challengeStep_live (live : conn.ChallengeLive) (first : SentFirst conn event)
    (stepped : challengeStep evp conn event = some next) : next.ChallengeLive := by
  cases event with
  | addrChange addr challenge nowUs =>
    cases stepped
    rcases migrationOnPeerAddrChange_challenge conn.migration addr challenge nowUs with
      ⟨queued, pending, -⟩ | ⟨pending, -⟩
    · intro waits
      rw [queued] at waits
      exact pending.trans (live waits)
    · exact fun _ => pending
  | response data =>
    cases stepped
    obtain ⟨queued, path⟩ := recvPathResponse_challenge conn data
    intro waits
    rw [queued] at waits
    rw [path, if_neg fun right => first waits right.2]
    exact live waits
  | timeout nowUs ptoUs =>
    cases stepped
    obtain ⟨queued, path⟩ := migrationCheckTimeout_challenge conn.migration nowUs ptoUs
    intro waits
    rw [queued] at waits
    rw [path, if_neg fun late => UInt64.not_le.mpr (first waits) late.2]
    exact live waits
  | send env maxLen nowUs =>
    obtain ⟨⟨result, after⟩, called, rfl⟩ := Option.map_eq_some_iff.mp stepped
    have keeps := KeepsChallenge.connSend (connSend_sent called)
    intro waits
    rw [keeps.path]
    exact live (keeps.queued waits)

/-- A validation that ends before its challenge is sent leaves a dead one. -/
theorem challengeStep_dead (live : conn.ChallengeLive) (early : ¬ SentFirst conn event)
    (stepped : challengeStep evp conn event = some next) : ¬ next.ChallengeLive := by
  cases event with
  | addrChange addr challenge nowUs => exact absurd trivial early
  | send env maxLen nowUs => exact absurd trivial early
  | response data =>
    cases stepped
    obtain ⟨queued, path⟩ := recvPathResponse_challenge conn data
    simp only [SentFirst, Classical.not_imp, not_not] at early
    intro alive
    have pending := alive (queued.trans early.1)
    rw [path, if_pos ⟨live early.1, early.2⟩] at pending
    cases pending
  | timeout nowUs ptoUs =>
    cases stepped
    obtain ⟨queued, path⟩ := migrationCheckTimeout_challenge conn.migration nowUs ptoUs
    simp only [SentFirst, Classical.not_imp, UInt64.not_lt] at early
    intro alive
    have pending := alive (queued.trans early.1)
    rw [path, if_pos ⟨live early.1, early.2⟩] at pending
    cases pending

/-- The frames of a datagram challenge the peer only if a challenge was waiting, and with its data.
-/
theorem connSend_challenge {bytes : Bytes} (sound : conn.Sound)
    (called : connSend evp env conn maxLen nowUs = some (.datagram bytes, next)) :
    ∃ control streams, conn.Loads env maxLen nowUs control streams ∧
      ∀ data, .pathChallenge data ∈ control →
        conn.migration.sendPathChallenge = true ∧ data = conn.migration.newPath.challengeData := by
  cases connSend_dispatched called with
  | @handshake control _ _ loads plain =>
    exact ⟨control, [], loads, fun data member => by cases plain _ member⟩
  | built waiting built =>
    obtain ⟨control, laid, moved⟩ := buildFrames_taken
      (show (conn.paced nowUs).connFlow.sendMaxData = false from sound.flow.quiet) built
    obtain ⟨streams, ordered⟩ := buildFrames_follows
      (show (conn.paced nowUs).Sound from ⟨sound.streams, sound.flow⟩) laid built
    refine ⟨control, streams, ordered.laid.loads waiting built, fun data member => ?_⟩
    -- The frame was taken from those that waited.
    have waited := (moved .pathChallenge).subset
      (List.mem_append_right _ (mem_framesOfKind member rfl))
    have queue : (conn.paced nowUs).pending .pathChallenge =
        if conn.migration.sendPathChallenge then
          [.pathChallenge conn.migration.newPath.challengeData] else [] := rfl
    rw [queue] at waited
    split at waited
    · rename_i waits
      cases List.mem_singleton.mp waited
      exact ⟨waits, rfl⟩
    · cases waited

theorem challengeStep_sound (stepped : challengeStep evp conn event = some next)
    (sound : conn.Sound) : next.Sound := by
  cases event with
  | addrChange addr challenge nowUs =>
    cases stepped
    exact ⟨sound.streams, sound.flow⟩
  | response data =>
    cases stepped
    unfold recvPathResponse
    split
    · exact ⟨sound.streams, sound.flow⟩
    · dsimp only
      split <;> exact ⟨sound.streams, sound.flow⟩
  | timeout nowUs ptoUs =>
    cases stepped
    exact ⟨sound.streams, sound.flow⟩
  | send env maxLen nowUs =>
    obtain ⟨⟨result, after⟩, called, rfl⟩ := Option.map_eq_some_iff.mp stepped
    have acts : Acts Terms.free conn after := (Performs.connSend (connSend_sent called)).acts
    exact acts.preserve (fun _ _ _ _ done held => held.act done) sound

/-- A validation that waits for an answer waits for one to a challenge that was drawn. -/
theorem challengeStep_drawn (stepped : challengeStep evp conn event = some next)
    (pending : next.migration.newPath.challengePending = true) :
    conn.migration.newPath.challengePending = true ∧
        next.migration.newPath.challengeData = conn.migration.newPath.challengeData ∨
      ∃ addr nowUs, event = .addrChange addr (some next.migration.newPath.challengeData) nowUs := by
  cases event with
  | addrChange addr challenge nowUs =>
    cases stepped
    rcases migrationOnPeerAddrChange_challenge conn.migration addr challenge nowUs with
      ⟨-, same, data⟩ | ⟨-, drawn⟩
    · exact .inl ⟨same.symm.trans pending, data⟩
    · exact .inr ⟨addr, nowUs, congrArg (ChallengeEvent.addrChange addr · nowUs) drawn⟩
  | response data =>
    cases stepped
    obtain ⟨-, path⟩ := recvPathResponse_challenge conn data
    rw [path] at pending ⊢
    split at pending
    · cases pending
    · rename_i other
      rw [if_neg other]
      exact .inl ⟨pending, rfl⟩
  | timeout nowUs ptoUs =>
    cases stepped
    obtain ⟨-, path⟩ := migrationCheckTimeout_challenge conn.migration nowUs ptoUs
    dsimp only at pending ⊢
    rw [path] at pending ⊢
    split at pending
    · cases pending
    · rename_i other
      rw [if_neg other]
      exact .inl ⟨pending, rfl⟩
  | send env maxLen nowUs =>
    obtain ⟨⟨result, after⟩, called, rfl⟩ := Option.map_eq_some_iff.mp stepped
    have keeps := KeepsChallenge.connSend (connSend_sent called)
    rw [keeps.path] at pending ⊢
    exact .inl ⟨pending, rfl⟩

/-- A pending challenge was drawn in the run. -/
theorem pending_drawn (fresh : conn.migration = migrationInit) {events : List ChallengeEvent}
    {final : Conn} (ran : Machine.attempt (challengeStep evp) conn events = some final)
    (pending : final.migration.newPath.challengePending = true) :
    ∃ addr nowUs,
      .addrChange addr (some final.migration.newPath.challengeData) nowUs ∈ events := by
  -- The induction is on the run, the last event coming on top.
  induction events using List.reverseRecOn generalizing final with
  | nil =>
    cases ran
    rw [fresh] at pending
    cases pending
  | append_singleton past event ih =>
    obtain ⟨middle, before, stepped⟩ := Machine.attempt_concat_some.mp ran
    rcases challengeStep_drawn stepped pending with ⟨waited, same⟩ | ⟨addr, nowUs, rfl⟩
    · obtain ⟨addr, nowUs, member⟩ := ih before waited
      rw [same]
      exact ⟨addr, nowUs, List.mem_append_left _ member⟩
    · exact ⟨addr, nowUs, List.mem_append_right _ (List.mem_singleton_self _)⟩

/-- The peer moves, and its challenge is sent before the time of the validation is over. -/
def sentInTime : List ChallengeEvent :=
  [.addrChange Addr.zero (some plainChallenge) 0, .send plainEnv 1200 0,
    .timeout 10 1]

/-- The peer moves, and the validation takes too long before anything is sent. -/
def expiredUnsent : List ChallengeEvent :=
  [.addrChange Addr.zero (some plainChallenge) 0, .timeout 10 1]

end Nxp
