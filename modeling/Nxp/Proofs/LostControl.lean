import Nxp.Core.ControlFrames
import Nxp.Core.FrameEffects

/-! What becomes of the control information of a lost packet. -/

namespace Nxp

theorem onPacketLost_pending (ack : AckState) (pkt : SentPkt) (conn : Conn) :
    (onPacketLost ack pkt conn).pending = conn.pending := by
  rw [(Transfers.onPacketLost ack pkt conn).only]
  rfl

/-- Nothing of a kind was queued between two states: what waits in the later one is part of what
waited in the earlier one. -/
def Unqueued (kind : ControlKind) (earlier later : Conn) : Prop :=
  (later.pending kind).Subperm (earlier.pending kind)

theorem Unqueued.not_mem {kind : ControlKind} {before after mid : Conn} {frames : List Frame}
    (moved : (after.pending kind ++ frames).Perm (before.pending kind))
    (distinct : (before.pending kind).Nodup) (unqueued : Unqueued kind after mid) {frame : Frame}
    (gone : frame ∈ frames) : frame ∉ mid.pending kind := by
  intro waits
  have apart := List.disjoint_of_nodup_append (moved.nodup_iff.mpr distinct)
  exact apart (unqueued.subset waits) gone

/-- A connection whose peer shows up at another address. -/
def peerMoved : List (Env × ConnOp) :=
  [(plainEnv, .setEstablished ConnId.empty),
    (plainEnv, .peerAddrChange Addr.zero (some plainChallenge) 0)]

/-- The packet with the challenge goes out, three more with an octet each follow, and the peer
acknowledges the last of them. -/
def challengeLost : List (Env × ConnOp) :=
  [(plainEnv, .send 1200 0), (plainEnv, .openStream .reliable false),
    (plainEnv, .streamSend 0 [1] false), (plainEnv, .send 1200 0),
    (plainEnv, .streamSend 0 [2] false), (plainEnv, .send 1200 0),
    (plainEnv, .streamSend 0 [3] false), (plainEnv, .send 1200 0),
    (plainEnv, .recv [0x40, 0, 2, 3, 0, 0, 0] 0)]

end Nxp
