import Nxp.Core.FrameEffects
import Nxp.Core.RecvLaws
import Nxp.Core.SendLaws

/-! That a connection whose handshake is over keeps its keys and its identifier. -/

namespace Nxp

variable {next : Conn} {env : Env} {evp : Evp} {maxLen : Nat} {nowUs : UInt64} {result : SendResult}

/-- Keys, identifier and handshake stay, and no new handshake becomes possible. -/
structure KeepsKeys (before after : Conn) : Prop where
  crypto : after.crypto = before.crypto
  scid : after.scid = before.scid
  handshake : after.handshake = before.handshake
  idle : after.state = .idle → before.state = .idle

namespace KeepsKeys

theorem refl (conn : Conn) : KeepsKeys conn conn := ⟨rfl, rfl, rfl, id⟩

theorem trans {first second third : Conn} (left : KeepsKeys first second)
    (right : KeepsKeys second third) : KeepsKeys first third :=
  ⟨right.crypto.trans left.crypto, right.scid.trans left.scid, right.handshake.trans left.handshake,
    fun idle => left.idle (right.idle idle)⟩

/-- Transfers keep the keys. -/
theorem of_transfers {before after : Conn} (transfers : Transfers before after) :
    KeepsKeys before after :=
  ⟨(congrArg Conn.crypto transfers.only :), (congrArg Conn.scid transfers.only :),
    (congrArg Conn.handshake transfers.only :),
    fun idle => (congrArg Conn.state transfers.only :).symm.trans idle⟩

/-- A move to another state keeps the keys. -/
theorem setConnState (conn : Conn) {target : ConnState} (busy : target ≠ .idle) :
    KeepsKeys conn (setConnState conn target) := by
  unfold Nxp.setConnState
  split
  · exact refl conn
  · exact ⟨rfl, rfl, rfl, fun idle => absurd idle busy⟩

/-- A fired timer is not about keys. -/
theorem connOnTimeout (conn : Conn) (nowUs : UInt64) : KeepsKeys conn (connOnTimeout conn nowUs) := by
  unfold Nxp.connOnTimeout
  split
  · exact setConnState conn (by decide)
  · have tracked : KeepsKeys conn { conn with
        ack := (lossTimer conn nowUs).ack
        sendPing := (lossTimer conn nowUs).sendPing } := ⟨rfl, rfl, rfl, id⟩
    have fired := tracked.trans (of_transfers (Transfers.lossTimer conn nowUs))
    have checked : KeepsKeys (lossTimer conn nowUs)
        { lossTimer conn nowUs with
          heartbeat := heartbeatCheck (lossTimer conn nowUs).heartbeat nowUs } :=
      ⟨rfl, rfl, rfl, id⟩
    simp only
    split
    · exact (fired.trans checked).trans (setConnState _ (by decide))
    · exact fired.trans checked

end KeepsKeys

/-- A connection with given keys and identifier whose handshake, if it had one, is over. -/
structure Secured (keys : CryptoState) (scid : ConnId) (conn : Conn) : Prop where
  crypto : conn.crypto = keys
  scid : conn.scid = scid
  finished : ∀ hs, conn.handshake = some hs → hs.state = .complete ∧ hs.appKeys = keys
  busy : conn.state ≠ .idle

namespace Secured

variable {keys : CryptoState} {scid : ConnId} {conn : Conn}

section

variable (secured : Secured keys scid conn)
include secured

theorem keeps (kept : KeepsKeys conn next) :
    Secured keys scid next :=
  ⟨kept.crypto.trans secured.crypto, kept.scid.trans secured.scid,
    fun hs present => secured.finished hs (kept.handshake.symm.trans present),
    fun idle => secured.busy (kept.idle idle)⟩

theorem putBack {hs later : Handshake} (present : conn.handshake = some hs)
    (state : later.state = hs.state) (appKeys : later.appKeys = hs.appKeys) :
    Secured keys scid { conn with handshake := some later } := by
  refine ⟨secured.crypto, secured.scid, ?_, secured.busy⟩
  intro other same
  cases same
  rw [state, appKeys]
  exact secured.finished hs present

theorem refusesDone {hs : Handshake}
    (present : conn.handshake = some hs) : handshakeOnHandshakeDone hs = (.handshakeFail, hs) := by
  simp [handshakeOnHandshakeDone, (secured.finished hs present).1]

theorem recvHandshakeDone :
    Secured keys scid (recvHandshakeDone conn) := by
  unfold Nxp.recvHandshakeDone
  split
  · exact secured
  · rename_i hs present
    simp only [secured.refusesDone present]
    exact secured.putBack present rfl rfl

theorem recvNewToken (token : Bytes) :
    Secured keys scid (recvNewToken conn token) := by
  unfold Nxp.recvNewToken
  split
  · exact secured
  · rename_i hs present
    split
    · exact secured
    · exact secured.putBack present rfl rfl

theorem processFrame (env : Env) (frame : Frame)
    (nowUs : UInt64) : Secured keys scid (processFrame env conn frame nowUs).2 := by
  cases about : frame.transfers with
  | true =>
    have tracked : Secured keys scid
        { conn with ack := (Nxp.processFrame env conn frame nowUs).2.ack } :=
      secured.keeps ⟨rfl, rfl, rfl, id⟩
    exact tracked.keeps (KeepsKeys.of_transfers (processFrame_transfer env conn nowUs about))
  | false =>
    cases frame with
    | connectionClose f => exact secured.keeps (KeepsKeys.setConnState conn (by decide))
    | handshakeDone => exact secured.recvHandshakeDone
    | newToken token => exact secured.recvNewToken token
    -- The other frames touch limits, paths, identifiers and heartbeats, or nothing at all.
    | pathResponse data =>
      have only := recvPathResponse_only conn data
      exact secured.keeps ⟨(congrArg Conn.crypto only :), (congrArg Conn.scid only :),
        (congrArg Conn.handshake only :), fun idle => (congrArg Conn.state only :).symm.trans idle⟩
    | maxStreams limit isBidi => cases isBidi <;> exact secured.keeps ⟨rfl, rfl, rfl, id⟩
    | ack f => cases about
    | stream f => cases about
    | maxStreamData streamId limit => cases about
    | _ => exact secured.keeps ⟨rfl, rfl, rfl, id⟩

theorem processLongFrame (evp : Evp) (level : CryptoLevel)
    (frame : Frame) : Secured keys scid (processLongFrame evp conn level frame).2 := by
  unfold Nxp.processLongFrame
  split
  · rename_i hs offset data present
    have refused : handshakeRecvCrypto evp hs level data = (.handshakeFail, hs) := by
      simp [handshakeRecvCrypto, (secured.finished hs present).1]
    simp only [recvCryptoFrame, refused]
    exact secured.putBack present rfl rfl
  · rename_i hs present
    simp only [recvLongHandshakeDone, secured.refusesDone present]
    exact secured.putBack present rfl rfl
  · exact secured

theorem recvHandshakePacket (evp : Evp) (data : Bytes) :
    Secured keys scid (recvHandshakePacket evp conn data).2 := by
  apply recvHandshakePacket_invariant (Secured keys scid) evp secured
  · intro hdr
    rw [learnDcid_only]
    exact secured.keeps ⟨rfl, rfl, rfl, id⟩
  · exact fun middle level frame still => still.processLongFrame evp level frame

theorem connRecv (evp : Evp) (env : Env) (data : Bytes)
    (nowUs : UInt64) : Secured keys scid (connRecv evp env conn data nowUs).2 := by
  have noted : Secured keys scid (noteRecv conn data.length nowUs) :=
    secured.keeps ⟨rfl, rfl, rfl, id⟩
  exact connRecv_invariant (Secured keys scid) secured noted (noted.recvHandshakePacket evp data)
    (fun _ => secured.keeps ⟨rfl, rfl, rfl, id⟩)
    (fun _ _ _ _ _ _ => secured.keeps ⟨rfl, rfl, rfl, id⟩)
    (fun _ frame before => before.processFrame env frame nowUs)

/-- A packet is sent without changing the keys. -/
theorem connSend
    (sent : connSend evp env conn maxLen nowUs = some (result, next)) : Secured keys scid next := by
  have paced : Secured keys scid (conn.paced nowUs) := secured.keeps ⟨rfl, rfl, rfl, id⟩
  cases connSend_sent sent with
  | @handshake hs _ _ waiting packet =>
    have present := (Option.filter_eq_some_iff.mp waiting).1
    -- The handshake that is put back is in the same state, under the same keys.
    have back {later : Handshake} {after : Conn} (back : after.handshake = some later)
        (state : later.state = hs.state) (appKeys : later.appKeys = hs.appKeys)
        (crypto : after.crypto = conn.crypto) (own : after.scid = conn.scid)
        (same : after.state = conn.state) : Secured keys scid after :=
      (secured.putBack present state appKeys).keeps ⟨crypto, own, back, same.symm.trans⟩
    cases packet with
    | still => exact secured.keeps ⟨rfl, rfl, rfl, id⟩
    | taken => exact back rfl rfl rfl rfl rfl rfl
    | done => exact back rfl rfl rfl rfl rfl rfl
    | @crypto level => cases level <;> exact back rfl rfl rfl rfl rfl rfl
  | closed => exact secured
  | held => exact paced
  | short quiet busy free short =>
    have only := short.ships
    exact secured.keeps ⟨(congrArg Conn.crypto only :), (congrArg Conn.scid only :),
      (congrArg Conn.handshake only :), (connSend_sent sent).counts.idle⟩

/-- No operation changes the keys. -/
theorem connStep {op : ConnOp}
    (stepped : connStep evp conn (env, op) = some next) : Secured keys scid next := by
  cases op with
  | startHandshake peerCid =>
    cases stepped
    unfold connStartHandshake
    rw [if_pos secured.busy]
    exact secured
  | recv data nowUs =>
    cases stepped
    exact secured.connRecv evp env data nowUs
  | send maxLen nowUs =>
    obtain ⟨⟨result, sent⟩, called, rfl⟩ := Option.map_eq_some_iff.mp stepped
    exact secured.connSend called
  | setEstablished dcid =>
    cases stepped
    have named : Secured keys scid { conn with dcid := dcid } := secured.keeps ⟨rfl, rfl, rfl, id⟩
    exact named.keeps (KeepsKeys.setConnState _ (by decide))
  | onTimeout nowUs =>
    cases stepped
    exact secured.keeps (KeepsKeys.connOnTimeout conn nowUs)
  | _ =>
    have only := connStep_arranges (by trivial) stepped
    exact secured.keeps ⟨(congrArg Conn.crypto only :), (congrArg Conn.scid only :),
      (congrArg Conn.handshake only :), fun idle => (congrArg Conn.state only :).symm.trans idle⟩

end

end Secured

/-- A datagram leaves the identifier alone. -/
theorem connRecv_scid (evp : Evp) (env : Env) (conn : Conn) (data : Bytes) (nowUs : UInt64) :
    (connRecv evp env conn data nowUs).2.scid = conn.scid :=
  connRecv_invariant (fun next => next.scid = conn.scid) rfl rfl
    (congrArg Conn.scid (HandshakeOnly.recvHandshakePacket evp _ data) :) (fun _ => rfl)
    (fun _ _ _ _ _ _ => rfl)
    (fun next frame same => (processFrame_fixed env next nowUs frame).2.1.trans same)

/-- Starting a handshake leaves the identifier alone. -/
theorem connStartHandshake_scid (evp : Evp) (env : Env) (conn : Conn) (peerCid : ConnId) :
    (connStartHandshake evp env conn peerCid).2.scid = conn.scid :=
  (congrArg Conn.scid (connStartHandshake_only evp env conn peerCid) :)

/-- Sending leaves the identifier alone. -/
theorem connSend_scid {conn : Conn}
    (sent : connSend evp env conn maxLen nowUs = some (result, next)) :
    next.scid = conn.scid := by
  cases connSend_sent sent with
  | handshake waiting sent => cases sent <;> rfl
  | closed => rfl
  | held => rfl
  | short quiet busy free short => exact (congrArg Conn.scid short.ships :)

/-- No operation changes the identifier. -/
theorem connStep_scid {conn : Conn} {input : Env × ConnOp}
    (stepped : connStep evp conn input = some next) : next.scid = conn.scid := by
  obtain ⟨env, op⟩ := input
  cases op with
  | startHandshake peerCid =>
    cases stepped
    exact connStartHandshake_scid evp env conn peerCid
  | recv data nowUs =>
    cases stepped
    exact connRecv_scid evp env conn data nowUs
  | send maxLen nowUs =>
    obtain ⟨⟨result, sent⟩, called, rfl⟩ := Option.map_eq_some_iff.mp stepped
    exact connSend_scid called
  | setEstablished dcid =>
    cases stepped
    exact (KeepsKeys.setConnState { conn with dcid := dcid } (by decide)).scid
  | onTimeout nowUs =>
    cases stepped
    exact (KeepsKeys.connOnTimeout conn nowUs).scid
  | _ => exact (congrArg Conn.scid (connStep_arranges (by trivial) stepped) :)

end Nxp
