import Nxp.Types

/-! Moving a connection to a new address: path validation and the pool of peer identifiers. -/

namespace Nxp

/-- How many identifiers of the peer are held. -/
def maxCidPoolSize : Nat := 8

/-- How many identifiers of our own may be waiting to be announced. -/
def defaultActiveCidLimit : UInt32 := 4

/-- An identifier with its number and what became of it. -/
structure CidEntry where
  cid : ConnId
  seqNum : UInt64
  statelessResetToken : Vector UInt8 16
  inUse : Bool
  retired : Bool
  deriving DecidableEq, Repr

/-- An address and the challenge sent to it. -/
structure PathState where
  addr : Addr
  challengeData : Vector UInt8 8
  challengeSentTime : UInt64
  challengePending : Bool
  validated : Bool
  deriving DecidableEq, Repr

/-- No path. -/
def PathState.zero : PathState := ⟨Addr.zero, Vector.replicate 8 0, 0, false, false⟩

/-- The peer's identifiers, never more than the pool has room for. -/
structure CidPool where
  entries : List CidEntry
  bounded : entries.length ≤ maxCidPoolSize
  deriving DecidableEq, Repr

/-- Paths, identifiers and the frames about them that wait to be sent. -/
structure MigrationState where
  peerCidPool : CidPool
  localCidNextSeq : UInt64
  currentPath : PathState
  newPath : PathState
  migrationInProgress : Bool
  sendPathChallenge : Bool
  sendPathResponse : Bool
  pendingResponseData : Vector UInt8 8
  pendingNewCids : List CidEntry
  sendRetireCid : Bool
  retireSeq : UInt64
  activeCidLimit : UInt32
  enabled : Bool

/-- Nothing has moved yet; number zero is the identifier of the handshake. -/
def migrationInit : MigrationState where
  peerCidPool := ⟨[], by decide⟩
  localCidNextSeq := 1
  currentPath := PathState.zero
  newPath := PathState.zero
  migrationInProgress := false
  sendPathChallenge := false
  sendPathResponse := false
  pendingResponseData := Vector.replicate 8 0
  pendingNewCids := []
  sendRetireCid := false
  retireSeq := 0
  activeCidLimit := defaultActiveCidLimit
  enabled := true

/-- Start validating a new address with a challenge from the generator, which may fail. -/
def migrationOnPeerAddrChange (ms : MigrationState) (newAddr : Addr)
    (challenge : Option (Vector UInt8 8)) (nowUs : UInt64) : ErrorCode × MigrationState :=
  if !ms.enabled then (.invalidArgument, ms)
  else if ms.migrationInProgress then (.ok, ms)
  else
    let path := { ms.newPath with addr := newAddr, validated := false }
    match challenge with
    | none => (.platform, { ms with newPath := path })
    | some data =>
      (.ok, { ms with
        newPath :=
          { path with challengeData := data, challengeSentTime := nowUs, challengePending := true }
        sendPathChallenge := true
        migrationInProgress := true })

/-- Queue the answer to a challenge. -/
def migrationOnPathChallenge (ms : MigrationState) (data : Vector UInt8 8) : MigrationState :=
  { ms with pendingResponseData := data, sendPathResponse := true }

/-- Take an answer, the new path becoming the current one when it is the right answer. -/
def migrationOnPathResponse (ms : MigrationState) (data : Vector UInt8 8) : Bool × MigrationState :=
  if !ms.newPath.challengePending then (false, ms)
  else if data ≠ ms.newPath.challengeData then (false, ms)
  else
    (true, { ms with
      currentPath := { ms.newPath with validated := true, challengePending := false }
      migrationInProgress := false
      newPath := PathState.zero })

/-- Retire an entry that comes before a number. -/
def retireEntry (retirePriorTo : UInt64) (entry : CidEntry) : CidEntry :=
  if entry.seqNum < retirePriorTo ∧ !entry.retired then
    { entry with retired := true, inUse := false }
  else entry

/-- Put an entry into the pool, in place of a retired one when the pool is full. -/
def CidPool.add (pool : CidPool) (entry : CidEntry) : CidPool :=
  if room : pool.entries.length < maxCidPoolSize then
    ⟨pool.entries ++ [entry], by
      rw [List.length_append, List.length_singleton]
      omega⟩
  else
    match pool.entries.findIdx? fun e => e.retired && !e.inUse with
    | none => pool
    | some slot => ⟨pool.entries.set slot entry, by
        rw [List.length_set]
        exact pool.bounded⟩

/-- Change every entry of the pool. -/
def CidPool.map (pool : CidPool) (f : CidEntry → CidEntry) : CidPool :=
  ⟨pool.entries.map f, by
    rw [List.length_map]
    exact pool.bounded⟩

/-- Take a fresh identifier of the peer, after retiring those it replaces. -/
def migrationOnNewConnectionId (ms : MigrationState) (cid : ConnId)
    (seqNum retirePriorTo : UInt64) (token : Vector UInt8 16) : MigrationState :=
  let pool := ms.peerCidPool.map (retireEntry retirePriorTo)
  if pool.entries.any (·.seqNum == seqNum) then { ms with peerCidPool := pool }
  else { ms with peerCidPool := pool.add ⟨cid, seqNum, token, false, false⟩ }

/-- The first identifier that is neither used nor retired. -/
def migrationGetUnusedCid (ms : MigrationState) : Option CidEntry :=
  ms.peerCidPool.entries.find? fun e => !e.inUse && !e.retired

/-- Mark the first entry with a number as used. -/
def markInUse (seqNum : UInt64) : List CidEntry → List CidEntry
  | [] => []
  | e :: rest =>
    if e.seqNum = seqNum then { e with inUse := true } :: rest else e :: markInUse seqNum rest

theorem markInUse_length (seqNum : UInt64) (entries : List CidEntry) :
    (markInUse seqNum entries).length = entries.length := by
  induction entries with
  | nil => rfl
  | cons e rest ih =>
    unfold markInUse
    split
    · rfl
    · rw [List.length_cons, List.length_cons, ih]

/-- Switch to another identifier, queueing the retirement of the one used before. -/
def migrationUseCid (ms : MigrationState) (seqNum : UInt64) : MigrationState :=
  let used := ms.peerCidPool.entries.filter (·.inUse)
  let pool := ms.peerCidPool.map fun e => { e with inUse := false }
  let pool : CidPool := ⟨markInUse seqNum pool.entries, by
    rw [markInUse_length]
    exact pool.bounded⟩
  match used.getLast? with
  | none => { ms with peerCidPool := pool }
  | some last =>
    { ms with peerCidPool := pool, sendRetireCid := true, retireSeq := last.seqNum }

/-- A random identifier of a given length, at most the longest there is. -/
def drawnCid (octets : Vector UInt8 20) (len : Nat) : ConnId :=
  ⟨octets.toList.take len, by
    rw [List.length_take, Vector.length_toList]
    exact Nat.min_le_right _ _⟩

/-- Queue announcements of random identifiers up to the limit; each draw has its own number. -/
def generateLoop (baseScid : ConnId) (draw : UInt64 → Vector UInt8 20 × Vector UInt8 16) :
    Nat → MigrationState → MigrationState
  | 0, ms => ms
  | fuel + 1, ms =>
    if ms.pendingNewCids.length < ms.activeCidLimit.toNat ∧
        ms.pendingNewCids.length < defaultActiveCidLimit.toNat then
      let seqNum := ms.localCidNextSeq
      let cid := drawnCid (draw seqNum).1 baseScid.len
      generateLoop baseScid draw fuel
        { ms with
          pendingNewCids := ms.pendingNewCids ++ [⟨cid, seqNum, (draw seqNum).2, false, false⟩]
          localCidNextSeq := seqNum + 1 }
    else ms

/-- Fill the queue of identifiers to announce, which never holds more than four. -/
def migrationGenerateCids (ms : MigrationState) (baseScid : ConnId)
    (draw : UInt64 → Vector UInt8 20 × Vector UInt8 16) : MigrationState :=
  generateLoop baseScid draw defaultActiveCidLimit.toNat ms

/-- Whether a frame about paths or identifiers waits to be sent. -/
def migrationHasPending (ms : MigrationState) : Bool :=
  ms.sendPathChallenge || ms.sendPathResponse || ms.sendRetireCid || !ms.pendingNewCids.isEmpty

/-- Give up a validation that took too long. -/
def migrationCheckTimeout (ms : MigrationState) (nowUs ptoUs : UInt64) : Bool × MigrationState :=
  if !ms.newPath.challengePending then (false, ms)
  else if nowUs ≥ ms.newPath.challengeSentTime + ptoUs * 3 then
    (true, { ms with newPath := PathState.zero, migrationInProgress := false })
  else (false, ms)

end Nxp
