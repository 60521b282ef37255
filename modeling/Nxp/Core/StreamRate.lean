import Nxp.Types

/-! A token bucket that limits how fast one stream may send. -/

namespace Nxp

/-- Token bucket of one stream, with tokens counted in thousandths of an octet. -/
structure StreamRate where
  rateBps : UInt64
  tokens : UInt64
  lastUpdate : UInt64
  maxBurst : UInt64
  enabled : Bool
  timeInitialized : Bool
  deriving DecidableEq, Repr, Inhabited

/-- A bucket that limits nothing. -/
def streamRateInit : StreamRate where
  rateBps := 0
  tokens := 0
  lastUpdate := 0
  maxBurst := 0
  enabled := false
  timeInitialized := false

/-- Set the rate and fill the bucket, zero meaning unlimited. -/
def streamRateSet (r : StreamRate) (rateBps : UInt64) : StreamRate :=
  -- A tenth of a second of traffic, but never less than four packets.
  let maxBurst := if rateBps > 0 then rateBps / 10 else 0
  let maxBurst := if maxBurst < 4800 then 4800 else maxBurst
  { r with
    rateBps := rateBps
    enabled := rateBps > 0
    maxBurst := maxBurst
    tokens := maxBurst * 1000 }

/-- Refill the bucket for the time that has passed. -/
def streamRateUpdate (r : StreamRate) (nowUs : UInt64) : StreamRate :=
  if !r.enabled || r.rateBps == 0 then r
  else if !r.timeInitialized then
    { r with lastUpdate := nowUs, timeInitialized := true }
  else if nowUs ≤ r.lastUpdate then r
  else
    let elapsed := nowUs - r.lastUpdate
    let newTokens := (r.rateBps * elapsed * 1000) / 1000000
    let tokens := r.tokens + newTokens
    let maxTokens := r.maxBurst * 1000
    { r with lastUpdate := nowUs, tokens := if tokens > maxTokens then maxTokens else tokens }

/-- Pay for a payload, emptying the bucket when it costs more than is there. -/
def streamRateOnSend (r : StreamRate) (bytes : UInt32) : StreamRate :=
  if !r.enabled then r
  else
    let cost := bytes.toUInt64 * 1000
    if r.tokens ≥ cost then { r with tokens := r.tokens - cost } else { r with tokens := 0 }

/-- How many whole octets the bucket pays for. -/
def streamRateBudget (r : StreamRate) : UInt64 :=
  if !r.enabled then 0xFFFFFFFFFFFFFFFF else r.tokens / 1000

end Nxp
