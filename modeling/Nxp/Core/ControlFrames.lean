import Nxp.Core.Loading

/-! Control frames leave the queues they wait in when they are put into a packet. -/

namespace Nxp

/-- The kinds of control information that a packet carries once it was queued. -/
inductive ControlKind
  | maxData | connectionClose | pathChallenge | pathResponse | newConnectionId | retireConnectionId
  deriving DecidableEq, Repr

/-- The kind of control information in a frame. -/
def Frame.controlKind : Frame → Option ControlKind
  | .maxData _ => some .maxData
  | .connectionClose _ => some .connectionClose
  | .pathChallenge _ => some .pathChallenge
  | .pathResponse _ => some .pathResponse
  | .newConnectionId _ => some .newConnectionId
  | .retireConnectionId _ => some .retireConnectionId
  | _ => none

/-- The frames of a kind that wait to be sent. -/
def Conn.pending (conn : Conn) : ControlKind → List Frame
  | .maxData =>
    if flowShouldUpdate conn.connFlow then [.maxData (flowGetUpdate conn.connFlow).1] else []
  | .connectionClose =>
    if conn.sendConnClose then [.connectionClose ⟨conn.closeErrorCode, 0, [], true⟩] else []
  | .pathChallenge =>
    if conn.migration.sendPathChallenge then
      [.pathChallenge conn.migration.newPath.challengeData] else []
  | .pathResponse =>
    if conn.migration.sendPathResponse then
      [.pathResponse conn.migration.pendingResponseData] else []
  | .newConnectionId => conn.migration.pendingNewCids.map fun entry =>
      .newConnectionId ⟨entry.seqNum, 0, entry.cid, entry.statelessResetToken⟩
  | .retireConnectionId =>
    if conn.migration.sendRetireCid then [.retireConnectionId conn.migration.retireSeq] else []

/-- A frame, if it is of a kind. -/
def Frame.ofKind (frame : Frame) (kind : ControlKind) : List Frame :=
  if frame.controlKind = some kind then [frame] else []

/-- The frames of a kind in a packet. -/
def framesOfKind (control : List Frame) (kind : ControlKind) : List Frame :=
  control.flatMap fun frame => frame.ofKind kind

/-- A frame of a kind is among the frames of that kind. -/
theorem mem_framesOfKind {control : List Frame} {frame : Frame} {kind : ControlKind}
    (member : frame ∈ control) (sort : frame.controlKind = some kind) :
    frame ∈ framesOfKind control kind := by
  refine List.mem_flatMap.mpr ⟨frame, member, ?_⟩
  rw [Frame.ofKind, if_pos sort]
  exact List.mem_singleton_self frame

/-- A frame that is put into a packet was one of those that waited. -/
theorem Clears.moved {conn next : Conn} {frame : Frame} (clears : Clears conn frame next)
    (kind : ControlKind) :
    (next.pending kind ++ frame.ofKind kind).Perm (conn.pending kind) := by
  cases clears with
  | close due =>
    have same : (setConnState { conn with sendConnClose := false } .closing).pending =
        { conn with sendConnClose := false }.pending := by
      rw [setConnState_only]
      rfl
    rw [same]
    cases kind <;> simp [Conn.pending, Frame.ofKind, Frame.controlKind, due]
  | maxData due =>
    unfold flowShouldUpdate at due
    cases kind <;>
      simp [Conn.pending, Frame.ofKind, Frame.controlKind, flowShouldUpdate, flowGetUpdate, due]
  | newCid due =>
    obtain ⟨drawn, shape⟩ := List.getLast?_eq_some_iff.mp due
    cases kind <;>
      simp [Conn.pending, Frame.ofKind, Frame.controlKind, SendBuild.dropNewCid, shape]
  | ack due | ping due | pathResponse due | pathChallenge due | retireCid due | echo due
  | heartbeat due =>
    cases kind <;> simp [Conn.pending, Frame.ofKind, Frame.controlKind, due]

open scoped List in
/-- What waits and what was put into a packet is together what waited before. -/
theorem Cleared.moved {conn next : Conn} {control : List Frame}
    (cleared : Cleared conn control next) (calm : conn.connFlow.sendMaxData = false)
    (kind : ControlKind) :
    (next.pending kind ++ framesOfKind control kind).Perm (conn.pending kind) := by
  induction cleared with
  | none => simp [framesOfKind]
  | taken past waiting =>
    rw [flowShouldUpdate, (past.calm calm).1] at waiting
    cases waiting
  | @put control frame middle next _ clears _ ih =>
    have split : framesOfKind (control ++ [frame]) kind =
        framesOfKind control kind ++ frame.ofKind kind := by simp [framesOfKind]
    calc next.pending kind ++ framesOfKind (control ++ [frame]) kind
        = next.pending kind ++ (framesOfKind control kind ++ frame.ofKind kind) := by rw [split]
      _ ~ next.pending kind ++ (frame.ofKind kind ++ framesOfKind control kind) :=
          List.perm_append_comm.append_left _
      _ = (next.pending kind ++ frame.ofKind kind) ++ framesOfKind control kind :=
          (List.append_assoc ..).symm
      _ ~ middle.pending kind ++ framesOfKind control kind := (clears.moved kind).append_right _
      _ ~ conn.pending kind := ih

theorem Turned.pending_eq {space : Nat} {b b' : SendBuild} (turned : Turned space b b') :
    b'.conn.pending = b.conn.pending := by
  rw [turned.only]
  rfl

/-- What waits and what is in the packet is together what waited before the packet was built. -/
theorem buildFrames_taken {turns space : Nat} {conn : Conn} {nowUs : UInt64} {b : SendBuild}
    (calm : conn.connFlow.sendMaxData = false)
    (built : buildFrames turns conn space nowUs = some b) :
    ∃ control,
      Laid space (conn.controls space nowUs)
        control [] ∧
      ∀ kind, (b.conn.pending kind ++ framesOfKind control kind).Perm (conn.pending kind) := by
  obtain ⟨control, laid, cleared⟩ := putControl_laid conn space nowUs
  refine ⟨control, laid, ?_⟩
  have same : b.conn.pending =
      (conn.controls space nowUs).conn.pending := by
    exact buildFrames_invariant (fun b => b.conn.pending = _) rfl
      (fun _ _ _ before turned => turned.pending_eq.trans before) built
  rw [same]
  exact cleared.moved calm

/-- Closing a packet leaves what waits to be sent alone. -/
theorem closePacket_pending {evp : Evp} {conn next : Conn} {hdr frames bytes : Bytes} {pnLen : Nat}
    (closed : closePacket evp conn hdr pnLen frames = some (bytes, next)) :
    next.pending = conn.pending := by
  rw [(closePacket_seen closed).1]
  rfl

/-- Accounting for a packet leaves what waits to be sent alone. -/
theorem accountSent_pending (env : Env) (b : SendBuild) (total : Nat) (nowUs : UInt64) :
    (accountSent env b total nowUs).pending = b.conn.pending := by
  rw [accountSent_only]
  rfl

end Nxp
