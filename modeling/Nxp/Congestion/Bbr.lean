import Nxp.Types

/-! Congestion control from a model of the path: its bottleneck rate and its shortest delay. -/

namespace Nxp

/-- A value and when it was taken. -/
structure WfSample where
  value : UInt64
  time : UInt64
  deriving DecidableEq, Repr

/-- The three best samples of a sliding window, best first. -/
structure WindowedFilter where
  best : WfSample
  second : WfSample
  third : WfSample
  window : UInt64
  isMax : Bool
  initialized : Bool
  deriving DecidableEq, Repr

/-- A filter without samples. -/
def wfInit (window : UInt64) (isMax : Bool) : WindowedFilter :=
  ⟨⟨0, 0⟩, ⟨0, 0⟩, ⟨0, 0⟩, window, isMax, false⟩

/-- Forget everything but one sample. -/
def wfReset (f : WindowedFilter) (s : WfSample) : WindowedFilter :=
  { f with best := s, second := s, third := s, initialized := true }

/-- The best value of the window. -/
def wfGet (f : WindowedFilter) : UInt64 := f.best.value

/-- Whether one value is at least as good as another. -/
def wfIsBetter (f : WindowedFilter) (a b : UInt64) : Bool := if f.isMax then a ≥ b else a ≤ b

/-- Whether the best sample is older than the window. -/
def wfExpired (f : WindowedFilter) (now : UInt64) : Bool := now - f.best.time > f.window

/-- Drop the best sample, which has expired, and others that have expired with it. -/
def wfRotate (f : WindowedFilter) (s : WfSample) : WindowedFilter :=
  let f := { f with best := f.second, second := f.third, third := s }
  let f := if wfExpired f s.time then { f with best := f.second, second := f.third } else f
  if wfExpired f s.time then { f with best := s, second := s } else f

/-- Take a new sample into the window. -/
def wfUpdate (f : WindowedFilter) (value now : UInt64) : WindowedFilter :=
  let s : WfSample := ⟨value, now⟩
  if !f.initialized then wfReset f s
  else if wfIsBetter f value f.best.value then wfReset f s
  else if wfExpired f now then wfRotate f s
  else if wfIsBetter f value f.second.value || now - f.second.time > f.window / 4 then
    { f with second := s, third := s }
  else if wfIsBetter f value f.third.value || now - f.third.time > f.window / 2 then
    { f with third := s }
  else f

/-- Least congestion window, four full datagrams. -/
def bbrMinCwnd : UInt64 := 4800

/-- Full datagram, as the window counts it. -/
def bbrMaxDatagramSize : UInt32 := 1200

/-- Window while the delay is probed. -/
def bbrProbeRttCwnd : UInt64 := 4800

/-- Phases of the controller. -/
inductive BbrState where
  | startup
  | drain
  | probeBw
  | probeRtt
  deriving DecidableEq, Repr

/-- A gain as a fraction. -/
structure Gain where
  num : UInt32
  den : UInt32
  deriving DecidableEq, Repr

/-- The controller. -/
structure Bbr where
  state : BbrState
  bwFilter : WindowedFilter
  btlBw : UInt64
  rtPropUs : UInt64
  rtPropStamp : UInt64
  pacingRate : UInt64
  cwnd : UInt64
  sendQuantum : UInt64
  targetCwnd : UInt64
  pacingGain : Gain
  cwndGain : Gain
  cycleIndex : UInt8
  cycleStamp : UInt64
  filledPipe : Bool
  fullBw : UInt64
  fullBwCount : UInt32
  probeRttDone : Bool
  probeRttDoneStamp : UInt64
  rtPropExpired : Bool
  roundCount : UInt64
  roundStart : Bool
  appLimited : Bool
  bytesInFlight : UInt64
  priorCwnd : UInt64
  lossInRound : UInt64

/-- What the controller is told about an acknowledged packet. -/
structure CcAckInfo where
  pktNum : UInt64
  ackedBytes : UInt32
  sentTime : UInt64
  nowUs : UInt64
  rttUs : UInt64
  minRttUs : UInt64
  bytesInFlight : UInt64
  deliveryRateBps : UInt64
  roundCount : UInt64
  isAppLimited : Bool
  roundStart : Bool

/-- Apply a gain, a zero denominator standing for none. -/
def applyGain (val : UInt64) (gain : Gain) : UInt64 :=
  if gain.den == 0 then val else val * gain.num.toUInt64 / gain.den.toUInt64

/-- Bytes the path holds, never below the least window. -/
def bbrBdp (bbr : Bbr) : UInt64 :=
  if bbr.btlBw == 0 || bbr.rtPropUs == 0 then bbrMinCwnd
  else
    let bdp := bbr.btlBw * bbr.rtPropUs / 1000000
    if bdp > bbrMinCwnd then bdp else bbrMinCwnd

/-- Pacing gain of the startup phase. -/
def startupPacingGain : Gain := ⟨277, 100⟩

/-- Window gain of the startup phase. -/
def startupCwndGain : Gain := ⟨200, 100⟩

/-- Pacing gain of the drain phase. -/
def drainPacingGain : Gain := ⟨100, 277⟩

/-- A fresh controller with a window of ten datagrams. -/
def bbrInitState : Bbr where
  state := .startup
  bwFilter := wfInit 10 true
  btlBw := 0
  rtPropUs := 0
  rtPropStamp := 0
  pacingRate := 0
  cwnd := 12000
  sendQuantum := 1200
  targetCwnd := 0
  pacingGain := startupPacingGain
  cwndGain := startupCwndGain
  cycleIndex := 0
  cycleStamp := 0
  filledPipe := false
  fullBw := 0
  fullBwCount := 0
  probeRttDone := false
  probeRttDoneStamp := 0
  rtPropExpired := false
  roundCount := 0
  roundStart := false
  appLimited := false
  bytesInFlight := 0
  priorCwnd := 0
  lossInRound := 0

/-- Update the bottleneck rate, to which a limited sample counts only if it is better. -/
def bbrUpdateBw (bbr : Bbr) (info : CcAckInfo) : Bbr :=
  if info.deliveryRateBps > 0 then
    let filter :=
      if !info.isAppLimited || info.deliveryRateBps > wfGet bbr.bwFilter then
        wfUpdate bbr.bwFilter info.deliveryRateBps bbr.roundCount
      else bbr.bwFilter
    { bbr with bwFilter := filter, btlBw := wfGet filter }
  else bbr

/-- Update the shortest delay, which any sample replaces once it has expired. -/
def bbrUpdateRtProp (bbr : Bbr) (info : CcAckInfo) : Bbr :=
  if info.rttUs > 0 then
    let expired : Bool := info.nowUs - bbr.rtPropStamp > 10000000
    let bbr :=
      if info.rttUs ≤ bbr.rtPropUs || bbr.rtPropUs == 0 || expired then
        { bbr with rtPropUs := info.rttUs, rtPropStamp := info.nowUs }
      else bbr
    { bbr with rtPropExpired := expired }
  else bbr

/-- Update the model of the path. -/
def bbrUpdateModel (bbr : Bbr) (info : CcAckInfo) : Bbr :=
  let bbr := { bbr with
    roundCount := info.roundCount, roundStart := info.roundStart, appLimited := info.isAppLimited }
  bbrUpdateRtProp (bbrUpdateBw bbr info) info

/-- Leave startup when the rate stops growing for three rounds. -/
def bbrCheckStartupDone (bbr : Bbr) : Bbr :=
  if bbr.state ≠ .startup ∨ bbr.filledPipe then bbr
  else if !bbr.roundStart then bbr
  else if bbr.btlBw ≥ applyGain bbr.fullBw ⟨125, 100⟩ then
    { bbr with fullBw := bbr.btlBw, fullBwCount := 0 }
  else
    let bbr := { bbr with fullBwCount := bbr.fullBwCount + 1 }
    if bbr.fullBwCount ≥ 3 then
      { bbr with filledPipe := true, state := .drain, pacingGain := drainPacingGain }
    else bbr

/-- Leave the drain phase when the queue is gone. -/
def bbrCheckDrainDone (bbr : Bbr) : Bbr :=
  if bbr.state ≠ .drain then bbr
  else if bbr.bytesInFlight ≤ bbrBdp bbr then
    { bbr with
      state := .probeBw, cycleIndex := 0, pacingGain := ⟨125, 100⟩, cwndGain := ⟨200, 100⟩ }
  else bbr

/-- Gain of a phase of the bandwidth cycle. -/
def probeBwGain (index : UInt8) : Gain :=
  if index = 0 then ⟨125, 100⟩ else if index = 1 then ⟨75, 100⟩ else ⟨100, 100⟩

/-- Go to the next phase of the cycle once per delay. -/
def bbrUpdateProbeBw (bbr : Bbr) (nowUs : UInt64) : Bbr :=
  if bbr.state ≠ .probeBw then bbr
  else if bbr.rtPropUs > 0 ∧ nowUs - bbr.cycleStamp ≥ bbr.rtPropUs then
    let index := (bbr.cycleIndex + 1) % 8
    { bbr with cycleIndex := index, cycleStamp := nowUs, pacingGain := probeBwGain index }
  else bbr

/-- Start probing the delay when its sample has expired. -/
def bbrEnterProbeRtt (bbr : Bbr) : Bbr :=
  if bbr.state ≠ .probeRtt ∧ bbr.rtPropExpired ∧ !bbr.appLimited then
    { bbr with
      priorCwnd := bbr.cwnd, state := .probeRtt, pacingGain := ⟨100, 100⟩, probeRttDone := false }
  else bbr

/-- Go back to where the controller was before the delay was probed. -/
def bbrLeaveProbeRtt (bbr : Bbr) (nowUs : UInt64) : Bbr :=
  let bbr := { bbr with
    rtPropExpired := false
    cwnd := if bbr.priorCwnd > bbrMinCwnd then bbr.priorCwnd else bbrMinCwnd }
  if bbr.filledPipe then
    { bbr with
      state := .probeBw, cycleIndex := 0, cycleStamp := nowUs, pacingGain := probeBwGain 0
      cwndGain := ⟨200, 100⟩ }
  else
    { bbr with state := .startup, pacingGain := startupPacingGain, cwndGain := startupCwndGain }

/-- Probe the delay at a small window for a while. -/
def bbrCheckProbeRtt (bbr : Bbr) (nowUs : UInt64) : Bbr :=
  let bbr := bbrEnterProbeRtt bbr
  if bbr.state ≠ .probeRtt then bbr
  else
    let bbr := if bbr.cwnd > bbrProbeRttCwnd then { bbr with cwnd := bbrProbeRttCwnd } else bbr
    if bbr.bytesInFlight ≤ bbrProbeRttCwnd then
      let bbr :=
        if !bbr.probeRttDone then { bbr with probeRttDone := true, probeRttDoneStamp := nowUs }
        else bbr
      if nowUs - bbr.probeRttDoneStamp ≥ 200000 then bbrLeaveProbeRtt bbr nowUs else bbr
    else bbr

/-- Window after a new target, kept where it is while the delay is probed. -/
def bbrNextCwnd (bbr : Bbr) : UInt64 :=
  if bbr.state = .probeRtt then bbr.cwnd
  else
    let cwnd := if bbr.cwnd < bbr.targetCwnd then bbr.targetCwnd else bbr.cwnd
    if bbr.filledPipe ∧ cwnd > bbr.targetCwnd * 2 then bbr.targetCwnd else cwnd

/-- Largest burst at a pacing rate, between two datagrams and sixty-four kibibytes. -/
def bbrQuantum (pacingRate : UInt64) : UInt64 :=
  let quantum := pacingRate / 1000
  let quantum := if quantum < 2400 then 2400 else quantum
  if quantum > 65536 then 65536 else quantum

/-- Set pacing rate, window and burst from the model. -/
def bbrUpdateControl (bbr : Bbr) : Bbr :=
  let target := applyGain (bbrBdp bbr) bbr.cwndGain
  let bbr := { bbr with
    pacingRate := applyGain bbr.btlBw bbr.pacingGain
    targetCwnd := if target < bbrMinCwnd then bbrMinCwnd else target }
  { bbr with cwnd := bbrNextCwnd bbr, sendQuantum := bbrQuantum bbr.pacingRate }

/-- Take note of a packet that was sent. -/
def bbrOnSent (bbr : Bbr) (bytesInFlight : UInt64) : Bbr :=
  { bbr with bytesInFlight := bytesInFlight }

/-- Take note of an acknowledged packet. -/
def bbrOnAck (bbr : Bbr) (info : CcAckInfo) : Bbr :=
  let bbr := bbrUpdateModel { bbr with bytesInFlight := info.bytesInFlight } info
  let bbr := bbrCheckDrainDone (bbrCheckStartupDone bbr)
  bbrUpdateControl (bbrCheckProbeRtt (bbrUpdateProbeBw bbr info.nowUs) info.nowUs)

/-- Take note of a lost packet, heavy loss ending the startup phase. -/
def bbrOnLoss (bbr : Bbr) (lostBytes : UInt32) (bytesInFlight : UInt64) : Bbr :=
  let bbr := { bbr with
    bytesInFlight := bytesInFlight, lossInRound := bbr.lossInRound + lostBytes.toUInt64 }
  if bbr.state = .startup ∧ !bbr.filledPipe ∧ bbr.bytesInFlight > 0 ∧
      bbr.lossInRound > bbr.bytesInFlight / 5 then
    { bbr with filledPipe := true, state := .drain, pacingGain := drainPacingGain }
  else bbr

end Nxp
