import Nxp.Core.FrameEffects

/-! What can happen to the paths of a connection, event by event. -/

namespace Nxp

variable (env : Env) (conn : Conn) (nowUs : UInt64) {frame : Frame}

/-- Something that happens to a connection: its peer seems to have moved, a frame of an application
packet is taken, a validation is given up when it took too long, or anything that leaves the paths
alone. -/
inductive PathEvent where
  | addrChange (addr : Addr) (challenge : Option (Vector UInt8 8)) (nowUs : UInt64)
  | frame (env : Env) (frame : Frame) (nowUs : UInt64)
  | timeout (nowUs ptoUs : UInt64)
  | other (rest : Conn)

/-- Where packets are sent and how far the validation of another address is. -/
structure Paths where
  peerAddr : Addr
  currentPath : PathState
  newPath : PathState
  migrationInProgress : Bool
  enabled : Bool

/-- The paths of a connection. -/
def Conn.paths (conn : Conn) : Paths where
  peerAddr := conn.peerAddr
  currentPath := conn.migration.currentPath
  newPath := conn.migration.newPath
  migrationInProgress := conn.migration.migrationInProgress
  enabled := conn.migration.enabled

/-- A connection with the paths of another. -/
def Conn.withPaths (conn : Conn) (paths : Paths) : Conn :=
  { conn with
    peerAddr := paths.peerAddr
    migration := { conn.migration with
      currentPath := paths.currentPath
      newPath := paths.newPath
      migrationInProgress := paths.migrationInProgress
      enabled := paths.enabled } }

/-- What an event does. -/
def pathStep (conn : Conn) : PathEvent → Conn
  | .addrChange addr challenge nowUs =>
    { conn with
      migration := (migrationOnPeerAddrChange conn.migration addr challenge nowUs).2 }
  | .frame env frame nowUs => (processFrame env conn frame nowUs).2
  | .timeout nowUs ptoUs =>
    { conn with migration := (migrationCheckTimeout conn.migration nowUs ptoUs).2 }
  | .other rest => rest.withPaths conn.paths

/-- Whether an event ends the validation that is under way. -/
def PathEvent.ends (conn : Conn) : PathEvent → Bool
  | .frame _ (.pathResponse data) _ => (migrationOnPathResponse conn.migration data).1
  | .timeout nowUs ptoUs => (migrationCheckTimeout conn.migration nowUs ptoUs).1
  | _ => false

/-- Every way an event can change the paths of a connection. -/
inductive PathMoved (conn next : Conn) : PathEvent → Prop
  | same {event : PathEvent} (quiet : event.ends conn = false) (same : next.paths = conn.paths) :
      PathMoved conn next event
  | drawn {addr : Addr} {nowUs : UInt64} (free : conn.migration.migrationInProgress = false)
      (allowed : conn.migration.enabled = true)
      (moved : next.paths = { conn.paths with
        newPath := { conn.migration.newPath with addr := addr, validated := false } }) :
      PathMoved conn next (.addrChange addr none nowUs)
  | started {addr : Addr} {data : Vector UInt8 8} {nowUs : UInt64}
      (free : conn.migration.migrationInProgress = false) (allowed : conn.migration.enabled = true)
      (moved : next.paths = { conn.paths with
        newPath := ⟨addr, data, nowUs, true, false⟩, migrationInProgress := true }) :
      PathMoved conn next (.addrChange addr (some data) nowUs)
  | validated {env : Env} {data : Vector UInt8 8} {nowUs : UInt64}
      (pending : conn.migration.newPath.challengePending = true)
      (answered : data = conn.migration.newPath.challengeData)
      (moved : next.paths = { conn.paths with
        peerAddr := conn.migration.newPath.addr
        currentPath := { conn.migration.newPath with validated := true, challengePending := false }
        newPath := PathState.zero, migrationInProgress := false }) :
      PathMoved conn next (.frame env (.pathResponse data) nowUs)
  | dropped {nowUs ptoUs : UInt64}
      (moved : next.paths = { conn.paths with
        newPath := PathState.zero, migrationInProgress := false }) :
      PathMoved conn next (.timeout nowUs ptoUs)

/-- A switch to another identifier leaves the paths alone. -/
theorem migrationUseCid_paths (ms : MigrationState) (seqNum : UInt64) :
    (migrationUseCid ms seqNum).currentPath = ms.currentPath ∧
      (migrationUseCid ms seqNum).newPath = ms.newPath ∧
      (migrationUseCid ms seqNum).migrationInProgress = ms.migrationInProgress ∧
      (migrationUseCid ms seqNum).enabled = ms.enabled := by
  unfold migrationUseCid
  dsimp only
  split <;> exact ⟨rfl, rfl, rfl, rfl⟩

/-- An answer to a challenge ends the validation or changes nothing. -/
theorem recvPathResponse_moved (env : Env) (data : Vector UInt8 8) (nowUs : UInt64) :
    PathMoved conn (recvPathResponse conn data) (.frame env (.pathResponse data) nowUs) := by
  unfold recvPathResponse
  cases answered : migrationOnPathResponse conn.migration data with
  | mk valid ms =>
    unfold migrationOnPathResponse at answered
    split at answered
    · cases answered
      refine .same ?_ rfl
      simp_all [PathEvent.ends, migrationOnPathResponse]
    · split at answered
      · cases answered
        refine .same ?_ rfl
        simp_all [PathEvent.ends, migrationOnPathResponse]
      · rename_i pending differs
        cases answered
        refine .validated (by simpa using pending) (not_not.mp differs) ?_
        -- The identifier may be switched as well, which the paths do not show.
        dsimp only
        split
        · rfl
        · unfold Conn.paths
          dsimp only
          rw [(migrationUseCid_paths _ _).1, (migrationUseCid_paths _ _).2.1,
            (migrationUseCid_paths _ _).2.2.1, (migrationUseCid_paths _ _).2.2.2]

/-- Whether a frame is about paths or identifiers. -/
def Frame.migrates : Frame → Bool
  | .pathChallenge _ | .pathResponse _ | .newConnectionId _ => true
  | _ => false

/-- A frame about anything else leaves paths and identifiers alone. -/
theorem processFrame_migration (other : frame.migrates = false) :
    (processFrame env conn frame nowUs).2.migration = conn.migration ∧
      (processFrame env conn frame nowUs).2.peerAddr = conn.peerAddr := by
  cases about : frame.transfers with
  | true =>
    have only := (processFrame_transfer env conn nowUs about).only
    exact ⟨(congrArg Conn.migration only :), (congrArg Conn.peerAddr only :)⟩
  | false =>
    cases frame with
    | maxStreams limit isBidi => cases isBidi <;> exact ⟨rfl, rfl⟩
    | connectionClose f =>
      have only := setConnState_only conn .draining
      exact ⟨(congrArg Conn.migration only :), (congrArg Conn.peerAddr only :)⟩
    | handshakeDone =>
      have only := recvHandshakeDone_only conn
      exact ⟨(congrArg Conn.migration only :), (congrArg Conn.peerAddr only :)⟩
    | newToken token =>
      have only := recvNewToken_only conn token
      exact ⟨(congrArg Conn.migration only :), (congrArg Conn.peerAddr only :)⟩
    | ack f => cases about
    | stream f => cases about
    | maxStreamData streamId limit => cases about
    | pathChallenge data => cases other
    | pathResponse data => cases other
    | newConnectionId f => cases other
    | _ => exact ⟨rfl, rfl⟩

theorem processFrame_paths (other : ∀ data, frame ≠ .pathResponse data) :
    (processFrame env conn frame nowUs).2.paths = conn.paths := by
  cases about : frame.migrates with
  | false =>
    have untouched := processFrame_migration env conn nowUs about
    unfold Conn.paths
    rw [untouched.1, untouched.2]
  | true =>
    cases frame with
    | pathChallenge data => rfl
    | pathResponse data => exact absurd rfl (other data)
    | newConnectionId f =>
      unfold processFrame migrationOnNewConnectionId
      dsimp only
      split <;> rfl
    | _ => cases about

/-- Every event is one of the ways the paths can change. -/
theorem pathStep_moved (event : PathEvent) :
    PathMoved conn (pathStep conn event) event := by
  cases event with
  | addrChange addr challenge nowUs =>
    unfold pathStep migrationOnPeerAddrChange
    dsimp only
    split
    · exact .same rfl rfl
    · rename_i enabled
      split
      · exact .same rfl rfl
      · rename_i free
        cases challenge with
        | none => exact .drawn (by simpa using free) (by simpa using enabled) rfl
        | some data => exact .started (by simpa using free) (by simpa using enabled) rfl
  | frame env frame nowUs =>
    by_cases answer : ∃ data, frame = .pathResponse data
    · obtain ⟨data, rfl⟩ := answer
      exact recvPathResponse_moved conn env data nowUs
    · have other : ∀ data, frame ≠ .pathResponse data := fun data same => answer ⟨data, same⟩
      refine .same ?_ (processFrame_paths env conn nowUs other)
      cases frame with
      | pathResponse data => exact absurd rfl (other data)
      | _ => rfl
  | timeout nowUs ptoUs =>
    unfold pathStep
    dsimp only
    by_cases pending : conn.migration.newPath.challengePending = true
    · by_cases due : nowUs ≥ conn.migration.newPath.challengeSentTime + ptoUs * 3
      · refine .dropped ?_
        simp [migrationCheckTimeout, pending, due, Conn.paths]
      · refine .same ?_ ?_
        · simp [PathEvent.ends, migrationCheckTimeout, pending, due]
        · simp [migrationCheckTimeout, pending, due]
    · refine .same ?_ ?_
      · simp [PathEvent.ends, migrationCheckTimeout, pending]
      · simp [migrationCheckTimeout, pending]
  | other rest => exact .same rfl rfl

end Nxp
