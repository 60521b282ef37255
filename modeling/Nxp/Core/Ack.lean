import Nxp.Congestion.Pacing
import Nxp.Core.FrameData

/-! Which packets were received and which were sent, acknowledged or given up as lost. -/

namespace Nxp

/-- Delay estimate before there is a sample. -/
def initialRttUs : UInt64 := 333000

/-- Longest an acknowledgement is held back. -/
def ackDelayUs : UInt64 := 25000

/-- How many ranges of received numbers are kept. -/
def maxRecvRanges : Nat := 64

/-- How many stream frames one packet may carry. -/
def maxStreamFramesPerPkt : Nat := 8

/-- The largest time, which stands for never. -/
def timeNever : UInt64 := 0xFFFFFFFFFFFFFFFF

/-- The stretch of a stream that a packet carries. -/
structure StreamFrameRecord where
  streamId : UInt64
  offset : UInt64
  len : UInt32
  fin : Bool
  deriving DecidableEq, Repr

/-- The stretches one packet carries, never more than the tracker has room for. -/
structure FrameRecords where
  records : List StreamFrameRecord
  bounded : records.length ≤ maxStreamFramesPerPkt
  deriving DecidableEq, Repr

/-- No stretch at all. -/
def FrameRecords.empty : FrameRecords := ⟨[], by decide⟩

/-- Whether there is room for one more stretch. -/
def FrameRecords.hasRoom (records : FrameRecords) : Bool :=
  records.records.length < maxStreamFramesPerPkt

/-- Add a stretch behind the others where there is room for it. -/
def FrameRecords.push (records : FrameRecords) (record : StreamFrameRecord) : FrameRecords :=
  if room : records.records.length < maxStreamFramesPerPkt then
    ⟨records.records ++ [record], by
      rw [List.length_append, List.length_singleton]
      omega⟩
  else records

/-- What is remembered of a packet that was sent. -/
structure SentPkt where
  pktNum : UInt64
  sentTime : UInt64
  sentBytes : UInt32
  ackEliciting : Bool
  inFlight : Bool
  declaredLost : Bool
  frames : FrameRecords
  drState : DrPktState
  deriving DecidableEq, Repr

/-- An inclusive range of received packet numbers. -/
structure RecvPnRange where
  start : UInt64
  last : UInt64
  deriving DecidableEq, Repr, Inhabited

/-- The ranges kept, from the largest numbers down and never more than there is room for. -/
structure RecvRanges where
  ranges : List RecvPnRange
  bounded : ranges.length ≤ maxRecvRanges
  deriving DecidableEq, Repr

/-- Received and sent packets, delay estimates and the loss timer. -/
structure AckState where
  recvRanges : RecvRanges
  largestRecvPn : UInt64
  largestRecvTime : UInt64
  ackNeeded : Bool
  ackDelayTimer : UInt64
  smoothedRtt : UInt64
  rttVar : UInt64
  minRtt : UInt64
  latestRtt : UInt64
  hasRtt : Bool
  sent : List SentPkt
  sentCap : UInt32
  bytesInFlight : UInt64
  lossTime : UInt64
  ptoCount : UInt32
  timeOfLastAckEliciting : UInt64

/-- A tracker that has seen nothing. -/
def ackInit : AckState where
  recvRanges := ⟨[], by decide⟩
  largestRecvPn := 0
  largestRecvTime := 0
  ackNeeded := false
  ackDelayTimer := 0
  smoothedRtt := initialRttUs
  rttVar := initialRttUs / 2
  minRtt := timeNever
  latestRtt := 0
  hasRtt := false
  sent := []
  sentCap := 256
  bytesInFlight := 0
  lossTime := timeNever
  ptoCount := 0
  timeOfLastAckEliciting := 0

/-- Whether a number lies in a range. -/
def RecvPnRange.contains (r : RecvPnRange) (pktNum : UInt64) : Bool :=
  pktNum ≥ r.start && pktNum ≤ r.last

/-- Whether a number lies in a range or right next to it. -/
def RecvPnRange.touches (r : RecvPnRange) (pktNum : UInt64) : Bool :=
  r.contains pktNum || pktNum == r.last + 1 || pktNum + 1 == r.start

/-- Put a number at the upper end of a range, joining the range above where they meet. -/
def extendLast (ranges : List RecvPnRange) (i : Nat) (pktNum : UInt64) : List RecvPnRange :=
  let r : RecvPnRange := { ranges.getD i default with last := pktNum }
  let ranges := ranges.set i r
  let above := ranges.getD (i - 1) default
  if i > 0 ∧ above.start = pktNum + 1 then
    (ranges.set (i - 1) { above with start := r.start }).eraseIdx i
  else ranges

/-- Put a number at the lower end of a range, joining the range below where they meet. -/
def extendStart (ranges : List RecvPnRange) (i : Nat) (pktNum : UInt64) : List RecvPnRange :=
  let r : RecvPnRange := { ranges.getD i default with start := pktNum }
  let ranges := ranges.set i r
  let below := ranges.getD (i + 1) default
  if i + 1 < ranges.length ∧ below.last + 1 = pktNum then
    (ranges.set i { r with start := below.start }).eraseIdx (i + 1)
  else ranges

/-- Extend the first range a number touches. -/
def extendRange (ranges : List RecvPnRange) (i : Nat) (pktNum : UInt64) : List RecvPnRange :=
  let r := ranges.getD i default
  if r.contains pktNum then ranges
  else if pktNum = r.last + 1 then extendLast ranges i pktNum
  else extendStart ranges i pktNum

/-- Put a number into the ranges; a new range is dropped when there is no room for it. -/
def insertPktNum (ranges : List RecvPnRange) (pktNum : UInt64) : List RecvPnRange :=
  match ranges.findIdx? (·.touches pktNum) with
  | some i => extendRange ranges i pktNum
  | none =>
    if ranges.length < maxRecvRanges then
      ranges.insertIdx (ranges.findIdx fun r => !(r.start > pktNum)) ⟨pktNum, pktNum⟩
    else ranges

theorem extendRange_length (ranges : List RecvPnRange) (i : Nat) (pktNum : UInt64) :
    (extendRange ranges i pktNum).length ≤ ranges.length := by
  unfold extendRange extendLast extendStart
  simp only
  -- Every branch keeps the ranges, replaces one, or joins two of them.
  split_ifs <;> simp only [List.length_set, Nat.le_refl, List.length_eraseIdx] <;> split_ifs <;>
    omega

/-- The list of ranges never outgrows its array. -/
theorem insertPktNum_length {ranges : List RecvPnRange} (bounded : ranges.length ≤ maxRecvRanges)
    (pktNum : UInt64) : (insertPktNum ranges pktNum).length ≤ maxRecvRanges := by
  unfold insertPktNum
  split
  · exact Nat.le_trans (extendRange_length _ _ _) bounded
  · split
    · rename_i room
      exact Nat.le_trans List.length_insertIdx_le_succ room
    · exact bounded

/-- The ranges with one more number among them. -/
def RecvRanges.insert (known : RecvRanges) (pktNum : UInt64) : RecvRanges :=
  ⟨insertPktNum known.ranges pktNum, insertPktNum_length known.bounded pktNum⟩

/-- Remember a received packet, unless it is known already. -/
def ackOnPktRecv (ack : AckState) (pktNum nowUs : UInt64) (ackEliciting : Bool) : AckState :=
  let known := ack.recvRanges.ranges
  if known.any (·.contains pktNum) then ack
  else
    let ack :=
      if known.isEmpty || pktNum > ack.largestRecvPn then
        { ack with largestRecvPn := pktNum, largestRecvTime := nowUs }
      else ack
    let ack := { ack with recvRanges := ack.recvRanges.insert pktNum }
    if ackEliciting then { ack with ackNeeded := true, ackDelayTimer := nowUs + ackDelayUs }
    else ack

/-- Room for sent packets after a request to double it, none being granted for no room at all. -/
def growSent (ack : AckState) (granted : Bool) : Option UInt32 :=
  if ack.sent.length < ack.sentCap.toNat then some ack.sentCap
  else if granted && ack.sentCap * 2 != 0 then some (ack.sentCap * 2)
  else none

/-- Remember a sent packet, which is forgotten when the tracker cannot grow. -/
def ackOnPktSent (ack : AckState) (pkt : SentPkt) (granted : Bool) : AckState :=
  match growSent ack granted with
  | none => ack
  | some cap =>
    { ack with
      sent := ack.sent ++ [pkt]
      sentCap := cap
      bytesInFlight :=
        if pkt.inFlight then ack.bytesInFlight + pkt.sentBytes.toUInt64 else ack.bytesInFlight
      timeOfLastAckEliciting :=
        if pkt.ackEliciting then pkt.sentTime else ack.timeOfLastAckEliciting }

/-- A delay sample without the peer's share of it, which may not take it below the least delay. -/
def adjustRtt (latestRtt ackDelay minRtt : UInt64) : UInt64 :=
  if latestRtt > ackDelay ∧ latestRtt - ackDelay ≥ minRtt then latestRtt - ackDelay else latestRtt

/-- Distance between two values. -/
def absDiff (a b : UInt64) : UInt64 := if a > b then a - b else b - a

/-- Take a delay sample into the estimates. -/
def updateRtt (ack : AckState) (latestRtt ackDelay : UInt64) : AckState :=
  let minRtt := if ack.minRtt < latestRtt then ack.minRtt else latestRtt
  let ackDelay := if ackDelay > ackDelayUs then ackDelayUs else ackDelay
  let ack := { ack with latestRtt := latestRtt, minRtt := minRtt }
  if !ack.hasRtt then { ack with smoothedRtt := latestRtt, rttVar := latestRtt / 2, hasRtt := true }
  else
    let adjusted := adjustRtt latestRtt ackDelay minRtt
    { ack with
      rttVar := (3 * ack.rttVar + absDiff ack.smoothedRtt adjusted) / 4
      smoothedRtt := (7 * ack.smoothedRtt + adjusted) / 8 }

/-- Take a packet's bytes out of flight. -/
def removeInFlight (ack : AckState) (pkt : SentPkt) : AckState :=
  if pkt.inFlight ∧ ack.bytesInFlight ≥ pkt.sentBytes.toUInt64 then
    { ack with bytesInFlight := ack.bytesInFlight - pkt.sentBytes.toUInt64 }
  else ack

section Callbacks

variable {σ : Type} (onAck onLoss : AckState → SentPkt → σ → σ)

/-- How long a packet may stay unacknowledged behind a later one. -/
def lossDelay (ack : AckState) : UInt64 :=
  let maxRtt := if ack.smoothedRtt > ack.latestRtt then ack.smoothedRtt else ack.latestRtt
  let delay := maxRtt * 9 / 8
  if delay < 1000 then 1000 else delay

/-- Whether a packet counts as lost, by later numbers or by time. -/
def isLost (pkt : SentPkt) (nowUs largestAcked delay : UInt64) : Bool :=
  pkt.pktNum + 3 ≤ largestAcked || pkt.sentTime + delay ≤ nowUs

/-- Walk the sent packets, reporting the lost ones and keeping the others in order. -/
def detectLoop (nowUs largestAcked delay : UInt64) :
    List SentPkt → AckState → σ → List SentPkt × AckState × σ
  | [], ack, ctx => ([], ack, ctx)
  | pkt :: rest, ack, ctx =>
    if pkt.declaredLost then detectLoop nowUs largestAcked delay rest ack ctx
    else if pkt.pktNum > largestAcked then
      let (kept, ack, ctx) := detectLoop nowUs largestAcked delay rest ack ctx
      (pkt :: kept, ack, ctx)
    else if isLost pkt nowUs largestAcked delay then
      let ack := removeInFlight ack pkt
      let ctx := onLoss ack { pkt with declaredLost := true } ctx
      detectLoop nowUs largestAcked delay rest ack ctx
    else
      let deadline := pkt.sentTime + delay
      let ack := { ack with lossTime := if ack.lossTime < deadline then ack.lossTime else deadline }
      let (kept, ack, ctx) := detectLoop nowUs largestAcked delay rest ack ctx
      (pkt :: kept, ack, ctx)

/-- Report every packet that counts as lost now and set the timer for the next. -/
def detectLostPackets (ack : AckState) (nowUs largestAcked : UInt64) (ctx : σ) : AckState × σ :=
  let ack := { ack with lossTime := timeNever }
  let (kept, ack, ctx) :=
    detectLoop onLoss nowUs largestAcked (lossDelay ack) ack.sent ack ctx
  ({ ack with sent := kept }, ctx)

/-- Whether a further range of an acknowledgement covers a number, walking down from its first. -/
def rangesCover (pktNum : UInt64) : (curEnd : UInt64) → List AckRange → Bool
  | _, [] => false
  | curEnd, range :: rest =>
    if curEnd < range.gap + 2 then false
    else
      let last := curEnd - range.gap - 2
      let start := if last ≥ range.ackRange then last - range.ackRange else 0
      (pktNum ≥ start && pktNum ≤ last) || rangesCover pktNum start rest

/-- Whether an acknowledgement covers a number. -/
def ackCovers (frame : FrameAck) (pktNum : UInt64) : Bool :=
  let start := frame.largestAcked - frame.firstAckRange
  (pktNum ≥ start && pktNum ≤ frame.largestAcked) || rangesCover pktNum start frame.ranges

/-- Walk the sent packets, reporting the acknowledged ones and keeping the others in order. -/
def ackLoop (frame : FrameAck) (nowUs : UInt64) :
    List SentPkt → AckState → σ → Option UInt64 → List SentPkt × AckState × σ × Option UInt64
  | [], ack, ctx, sample => ([], ack, ctx, sample)
  | pkt :: rest, ack, ctx, sample =>
    if ackCovers frame pkt.pktNum then
      let sample :=
        if pkt.pktNum == frame.largestAcked && pkt.ackEliciting then some (nowUs - pkt.sentTime)
        else sample
      let ack := removeInFlight ack pkt
      let ctx := onAck ack pkt ctx
      ackLoop frame nowUs rest ack ctx sample
    else
      let (kept, ack, ctx, sample) := ackLoop frame nowUs rest ack ctx sample
      (pkt :: kept, ack, ctx, sample)

/-- Take an acknowledgement: report what it covers, sample the delay and look for losses. -/
def ackOnAckRecv (ack : AckState) (frame : FrameAck) (nowUs : UInt64) (ctx : σ) : AckState × σ :=
  let (kept, ack, ctx, sample) := ackLoop onAck frame nowUs ack.sent ack ctx none
  let ack := { ack with sent := kept }
  let ack := match sample with
    | none => ack
    | some rtt => updateRtt ack rtt frame.ackDelay
  detectLostPackets onLoss { ack with ptoCount := 0 } nowUs frame.largestAcked ctx

/-- The largest number still tracked. -/
def largestSent (sent : List SentPkt) : UInt64 :=
  sent.foldl (fun largest pkt => if pkt.pktNum > largest then pkt.pktNum else largest) 0

/-- The loss timer fired: report losses, or ask for a probe. -/
def ackOnLossTimeout (ack : AckState) (nowUs : UInt64) (ctx : σ) : AckState × σ :=
  if ack.lossTime ≠ timeNever ∧ nowUs ≥ ack.lossTime then
    detectLostPackets onLoss ack nowUs (largestSent ack.sent) ctx
  else ({ ack with ptoCount := ack.ptoCount + 1 }, ctx)

end Callbacks

/-- Further ranges of an acknowledgement, each told by its distance from the one before. -/
def buildRanges : (prevStart : UInt64) → List RecvPnRange → List AckRange
  | _, [] => []
  | prevStart, r :: rest =>
    if prevStart < r.last + 2 then []
    else ⟨prevStart - r.last - 2, r.last - r.start⟩ :: buildRanges r.start rest

/-- Acknowledge everything received, the delay being counted from the largest number. -/
def ackBuildFrame (ack : AckState) (nowUs : UInt64) : Option FrameAck :=
  match ack.recvRanges.ranges with
  | [] => none
  | first :: rest =>
    some { largestAcked := first.last
           ackDelay := if nowUs > ack.largestRecvTime then nowUs - ack.largestRecvTime else 0
           firstAckRange := first.last - first.start
           ranges := (buildRanges first.start rest).take ackMaxRanges
           bounded := by
             rw [List.length_take]
             exact Nat.min_le_left _ _
           hasEcn := false
           ect0Count := 0
           ect1Count := 0
           ecnCeCount := 0 }

/-- How long to wait for an acknowledgement before probing. -/
def computePto (ack : AckState) : UInt64 :=
  let rtt := if ack.hasRtt then ack.smoothedRtt else initialRttUs
  let var := if ack.hasRtt then ack.rttVar else initialRttUs / 2
  rtt + (if 4 * var > 1000 then 4 * var else 1000) + ackDelayUs

/-- When the loss timer fires next. -/
def ackLossTimeout (ack : AckState) : UInt64 :=
  if ack.lossTime ≠ timeNever then ack.lossTime
  else if ack.bytesInFlight == 0 then timeNever
  else ack.timeOfLastAckEliciting + computePto ack * ((1 : UInt64) <<< ack.ptoCount.toUInt64)

end Nxp
