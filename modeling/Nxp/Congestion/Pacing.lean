import Nxp.Types

/-! The token bucket packets are paced by, and the samples of how fast they are delivered. -/

namespace Nxp

/-- Largest burst, ten full datagrams. -/
def pacerMaxBurst : UInt64 := 12000

/-- Tokens per octet. -/
def tokenScale : UInt64 := 1000

/-- The pacer's token bucket. -/
structure Pacer where
  rateBps : UInt64
  tokens : UInt64
  lastUpdate : UInt64
  maxBurst : UInt64
  enabled : Bool
  timeInitialized : Bool
  deriving DecidableEq, Repr

/-- A full bucket with no rate yet. -/
def pacerInit : Pacer where
  rateBps := 0
  tokens := pacerMaxBurst * tokenScale
  lastUpdate := 0
  maxBurst := pacerMaxBurst
  enabled := false
  timeInitialized := false

/-- Set the rate, zero turning the pacer off. -/
def pacerSetRate (p : Pacer) (rateBps : UInt64) : Pacer :=
  { p with rateBps := rateBps, enabled := rateBps > 0 }

/-- Add the tokens of the time gone by, up to a full burst. -/
def pacerUpdate (p : Pacer) (nowUs : UInt64) : Pacer :=
  if !p.enabled || p.rateBps == 0 then p
  else if !p.timeInitialized then { p with lastUpdate := nowUs, timeInitialized := true }
  else if nowUs ≤ p.lastUpdate then p
  else
    let elapsed := nowUs - p.lastUpdate
    let tokens := p.tokens + p.rateBps * elapsed * tokenScale / 1000000
    let maxTokens := p.maxBurst * tokenScale
    { p with lastUpdate := nowUs, tokens := if tokens > maxTokens then maxTokens else tokens }

/-- Whether a packet of this size may go out now. -/
def pacerCanSend (p : Pacer) (bytes : UInt32) : Bool :=
  !p.enabled || p.tokens ≥ bytes.toUInt64 * tokenScale

/-- Take the tokens of a packet that went out. -/
def pacerOnSend (p : Pacer) (bytes : UInt32) : Pacer :=
  if !p.enabled then p
  else
    let cost := bytes.toUInt64 * tokenScale
    { p with tokens := if p.tokens ≥ cost then p.tokens - cost else 0 }

/-- How long until a packet of this size may go out. -/
def pacerNextSendTime (p : Pacer) (bytes : UInt32) : UInt64 :=
  let cost := bytes.toUInt64 * tokenScale
  if !p.enabled || p.rateBps == 0 then 0
  else if p.tokens ≥ cost then 0
  else (cost - p.tokens) * 1000000 / (p.rateBps * tokenScale)

/-- What was delivered when a packet was sent. -/
structure DrPktState where
  delivered : UInt64
  deliveredTime : UInt64
  firstSentTime : UInt64
  isAppLimited : Bool
  appLimitedAt : UInt64
  deriving DecidableEq, Repr

/-- Delivery counters and the latest sample made from them. -/
structure DeliveryRate where
  delivered : UInt64
  deliveredTime : UInt64
  firstSentTime : UInt64
  rateSampleBps : UInt64
  rateIntervalUs : UInt64
  rateDelivered : UInt64
  rateIsAppLimited : Bool
  appLimited : Bool
  appLimitedAt : UInt64
  roundCount : UInt64
  nextRoundDelivered : UInt64
  roundStart : Bool
  deriving DecidableEq, Repr

/-- Nothing delivered yet. -/
def drInit : DeliveryRate := ⟨0, 0, 0, 0, 0, 0, false, false, 0, 0, 0, false⟩

/-- Snapshot the counters for a packet that goes out. -/
def drOnPacketSent (dr : DeliveryRate) (nowUs : UInt64) : DrPktState × DeliveryRate :=
  let dr :=
    if dr.firstSentTime == 0 then { dr with firstSentTime := nowUs, deliveredTime := nowUs } else dr
  (⟨dr.delivered, dr.deliveredTime, dr.firstSentTime, dr.appLimited, dr.appLimitedAt⟩,
    { dr with firstSentTime := nowUs })

/-- Count a packet as delivered and start a round when its snapshot is recent enough. -/
def drDeliver (dr : DeliveryRate) (pkt : DrPktState) (ackedBytes : UInt32) (nowUs : UInt64) :
    DeliveryRate :=
  let delivered := dr.delivered + ackedBytes.toUInt64
  let dr := { dr with delivered := delivered, deliveredTime := nowUs }
  if pkt.delivered ≥ dr.nextRoundDelivered then
    { dr with nextRoundDelivered := delivered, roundCount := dr.roundCount + 1, roundStart := true }
  else { dr with roundStart := false }

/-- Time from one instant to a later one, and zero otherwise. -/
def elapsedSince (late early : UInt64) : UInt64 := if late > early then late - early else 0

/-- Count an acknowledged packet and sample the rate it was delivered at. -/
def drOnPacketAcked (dr : DeliveryRate) (pkt : DrPktState) (ackedBytes : UInt32)
    (nowUs : UInt64) : DeliveryRate :=
  let dr := drDeliver dr pkt ackedBytes nowUs
  let deltaDelivered := dr.delivered - pkt.delivered
  let sendElapsed := elapsedSince dr.firstSentTime pkt.firstSentTime
  let ackElapsed := elapsedSince nowUs pkt.deliveredTime
  let interval := if sendElapsed > ackElapsed then sendElapsed else ackElapsed
  if interval == 0 || deltaDelivered == 0 then
    { dr with
      roundStart := pkt.delivered ≥ dr.nextRoundDelivered - ackedBytes.toUInt64 }
  else
    { dr with
      rateIntervalUs := interval
      rateDelivered := deltaDelivered
      rateIsAppLimited := pkt.isAppLimited
      rateSampleBps := deltaDelivered * 1000000 / interval
      -- The application no longer limits once delivery has passed where it began to.
      appLimited := dr.appLimited && !(dr.delivered > dr.appLimitedAt) }

/-- Note that the application has nothing more to send. -/
def drSetAppLimited (dr : DeliveryRate) : DeliveryRate :=
  { dr with appLimited := true, appLimitedAt := dr.delivered }

end Nxp
