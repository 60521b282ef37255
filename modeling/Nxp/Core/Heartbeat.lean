import Nxp.Core.Ack

/-! Keep-alive probes, their echoes and the count of probes that went unanswered. -/

namespace Nxp

/-- How many unanswered probes in a row mean that the peer is gone. -/
def heartbeatMissThreshold : UInt32 := 3

/-- Probes sent and awaited. -/
structure Heartbeat where
  intervalUs : UInt64
  lastSentUs : UInt64
  lastRecvUs : UInt64
  pendingTimestamp : UInt64
  consecutiveMisses : UInt32
  enabled : Bool
  sendHeartbeat : Bool
  sendEcho : Bool
  echoTimestamp : UInt64
  awaitingResponse : Bool
  timeInitialized : Bool
  deriving DecidableEq, Repr

/-- Fresh state, an interval of zero turning probes off. -/
def heartbeatInit (intervalUs : UInt64) : Heartbeat :=
  ⟨intervalUs, 0, 0, 0, 0, intervalUs > 0, false, false, 0, false, false⟩

/-- Queue a probe when one is due, the first one at once. -/
def heartbeatCheck (hb : Heartbeat) (nowUs : UInt64) : Heartbeat :=
  if !hb.enabled then hb
  else if !hb.timeInitialized || nowUs ≥ hb.lastSentUs + hb.intervalUs then
    { hb with
      timeInitialized := true
      consecutiveMisses :=
        if hb.awaitingResponse then hb.consecutiveMisses + 1 else hb.consecutiveMisses
      sendHeartbeat := true
      pendingTimestamp := nowUs
      awaitingResponse := true
      lastSentUs := nowUs }
  else hb

/-- Take a probe, or an echo, from the peer: it is echoed and counts as an answer. -/
def heartbeatOnRecv (hb : Heartbeat) (timestampUs nowUs : UInt64) : Heartbeat :=
  { hb with
    lastRecvUs := nowUs
    sendEcho := true
    echoTimestamp := timestampUs
    consecutiveMisses := 0
    awaitingResponse := false }

/-- When the next probe is due. -/
def heartbeatNextTimeout (hb : Heartbeat) : UInt64 :=
  if !hb.enabled then timeNever else hb.lastSentUs + hb.intervalUs

/-- Whether too many probes went unanswered. -/
def heartbeatIsDead (hb : Heartbeat) : Bool :=
  hb.enabled && hb.consecutiveMisses ≥ heartbeatMissThreshold

/-- Whether there is a probe or an echo to send. -/
def heartbeatHasPending (hb : Heartbeat) : Bool := hb.sendHeartbeat || hb.sendEcho

end Nxp
