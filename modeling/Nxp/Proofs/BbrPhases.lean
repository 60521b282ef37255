import Nxp.Core.ConnLaws
import Nxp.Lib.Word

/-! What holds of the controller, and what moves it from phase to phase, in every run of events. -/

namespace Nxp

/-- What the controller is told. -/
inductive BbrEvent where
  | sent (bytesInFlight : UInt64)
  | ack (info : CcAckInfo)
  | loss (lostBytes : UInt32) (bytesInFlight : UInt64)

/-- Let the controller take note of an event. -/
def bbrStep (bbr : Bbr) : BbrEvent → Bbr
  | .sent bytesInFlight => bbrOnSent bbr bytesInFlight
  | .ack info => bbrOnAck bbr info
  | .loss lostBytes bytesInFlight => bbrOnLoss bbr lostBytes bytesInFlight

/-- Window, burst, gains and cycle are within bounds, and the phase fits what is known of the pipe.
-/
structure Bbr.Sane (bbr : Bbr) : Prop where
  cwnd : 4800 ≤ bbr.cwnd
  quantum : 1200 ≤ bbr.sendQuantum ∧ bbr.sendQuantum ≤ 65536
  gains : bbr.pacingGain.den ≠ 0 ∧ bbr.cwndGain.den ≠ 0
  cycle : bbr.cycleIndex < 8
  startup : bbr.state = .startup → bbr.filledPipe = false
  filled : bbr.state = .drain ∨ bbr.state = .probeBw → bbr.filledPipe = true

theorem bbrInitState_sane : bbrInitState.Sane :=
  ⟨by decide, by decide, by decide, by decide, fun _ => rfl, by decide⟩

/-- What no part of the state machine takes back: the losses, a full pipe and the shortest delay. -/
structure Bbr.Follows (start bbr : Bbr) : Prop extends bbr.Sane where
  loss : bbr.lossInRound = start.lossInRound
  pipe : start.filledPipe = true → bbr.filledPipe = true
  rtProp : bbr.rtPropUs = start.rtPropUs ∧ bbr.rtPropStamp = start.rtPropStamp

/-- The same before the delay is probed, with what decides whether it will be. -/
structure Bbr.Nears (start bbr : Bbr) : Prop extends start.Follows bbr where
  expired : bbr.rtPropExpired = start.rtPropExpired ∧ bbr.appLimited = start.appLimited
  probing : bbr.state = .probeRtt ↔ start.state = .probeRtt

namespace Bbr

variable {start bbr : Bbr}

theorem hundred : (100 : UInt32) ≠ 0 := by decide

theorem Nears.startupDone (near : start.Nears bbr) :
    start.Nears (bbrCheckStartupDone bbr) := by
  unfold bbrCheckStartupDone
  split
  · exact near
  rename_i growing
  have starting : bbr.state = .startup := by
    by_contra other
    exact growing (.inl other)
  split
  · exact near
  split
  · exact { near with }
  simp only
  split
  · exact { near with
      gains := ⟨by simp [drainPacingGain], near.gains.2⟩
      startup := nofun
      filled := fun _ => rfl
      pipe := fun _ => rfl
      probing := ⟨nofun, fun was => by simp [near.probing.mpr was] at starting⟩ }
  · exact { near with }

theorem Nears.drainDone (near : start.Nears bbr) : start.Nears (bbrCheckDrainDone bbr) := by
  unfold bbrCheckDrainDone
  split
  · exact near
  rename_i draining
  rw [Decidable.not_not] at draining
  split
  · exact { near with
      gains := ⟨hundred, hundred⟩
      cycle := by simp
      startup := nofun
      filled := fun _ => near.filled (.inl draining)
      probing := ⟨nofun, fun was => by simp [near.probing.mpr was] at draining⟩ }
  · exact near

theorem gain_den (index : UInt8) : (probeBwGain index).den ≠ 0 := by
  unfold probeBwGain
  repeat' split
  all_goals exact hundred

theorem Nears.probeBw (near : start.Nears bbr) (nowUs : UInt64) :
    start.Nears (bbrUpdateProbeBw bbr nowUs) := by
  unfold bbrUpdateProbeBw
  simp only
  repeat' split
  case isFalse.isTrue =>
    have phase : (bbr.cycleIndex + 1) % 8 < 8 := by
      rw [UInt8.lt_iff_toNat_lt, UInt8.toNat_mod]
      exact Nat.mod_lt _ (by decide)
    exact { near with gains := ⟨gain_den _, near.gains.2⟩, cycle := phase }
  all_goals exact near

theorem Follows.enterProbeRtt (after : start.Follows bbr) :
    start.Follows (bbrEnterProbeRtt bbr) := by
  unfold bbrEnterProbeRtt
  split
  · exact { after with gains := ⟨hundred, after.gains.2⟩, startup := nofun, filled := by simp }
  · exact after

theorem Follows.leaveProbeRtt (after : start.Follows bbr) (nowUs : UInt64) :
    start.Follows (bbrLeaveProbeRtt bbr nowUs) := by
  have window : 4800 ≤ if bbr.priorCwnd > bbrMinCwnd then bbr.priorCwnd else bbrMinCwnd := by
    split
    · rename_i more
      exact UInt64.le_of_lt more
    · decide
  unfold bbrLeaveProbeRtt
  simp only
  split
  · rename_i full
    exact { after with
      cwnd := window, gains := ⟨gain_den 0, hundred⟩, cycle := by simp, startup := nofun
      filled := fun _ => full }
  · rename_i growing
    exact { after with
      cwnd := window, gains := ⟨hundred, hundred⟩, filled := by simp
      startup := fun _ => Bool.eq_false_iff.mpr growing }

theorem Follows.probeRtt (after : start.Follows bbr) (nowUs : UInt64) :
    start.Follows (bbrCheckProbeRtt bbr nowUs) := by
  unfold bbrCheckProbeRtt
  have entered := after.enterProbeRtt
  generalize bbrEnterProbeRtt bbr = probing at entered ⊢
  simp only
  -- What is left is to lower the window, to note when that was done and to leave.
  have lowered : start.Follows (if probing.cwnd > bbrProbeRttCwnd then
      { probing with cwnd := bbrProbeRttCwnd } else probing) := by
    split
    · exact { entered with cwnd := UInt64.le_refl _ }
    · exact entered
  generalize (if probing.cwnd > bbrProbeRttCwnd then { probing with cwnd := bbrProbeRttCwnd }
      else probing) = low at lowered ⊢
  have finish {done : Bbr} (noted : start.Follows done) :
      start.Follows (if nowUs - done.probeRttDoneStamp ≥ 200000 then bbrLeaveProbeRtt done nowUs
        else done) := by
    split
    · exact noted.leaveProbeRtt nowUs
    · exact noted
  split
  · exact entered
  split
  · split
    · apply finish
      exact { lowered with }
    · exact finish lowered
  · exact lowered

theorem Follows.control (after : start.Follows bbr) :
    start.Follows (bbrUpdateControl bbr) := by
  have floor (target : UInt64) : 4800 ≤ if target < bbrMinCwnd then bbrMinCwnd else target := by
    split
    · decide
    · rename_i enough
      exact UInt64.not_lt.mp enough
  have window {next : Bbr} (high : 4800 ≤ next.cwnd) (target : 4800 ≤ next.targetCwnd) :
      4800 ≤ bbrNextCwnd next := by
    unfold bbrNextCwnd
    simp only
    repeat' split
    all_goals assumption
  have burst (rate : UInt64) : 1200 ≤ bbrQuantum rate ∧ bbrQuantum rate ≤ 65536 := by
    unfold bbrQuantum
    simp only [UInt64.le_iff_toNat_le]
    repeat' split
    all_goals simp_all [UInt64.lt_iff_toNat_lt]
    all_goals omega
  exact { after with cwnd := window after.cwnd (floor _), quantum := burst _ }

end Bbr

/-- An acknowledgement as the state machine finds it, the model of the path being up to date. -/
def bbrTold (bbr : Bbr) (info : CcAckInfo) : Bbr :=
  bbrUpdateModel { bbr with bytesInFlight := info.bytesInFlight } info

-- The model of the path is not what the bounds are about.
theorem bbrTold_near {bbr : Bbr} (sane : bbr.Sane) (info : CcAckInfo) :
    (bbrTold bbr info).lossInRound = bbr.lossInRound ∧
    (bbrTold bbr info).filledPipe = bbr.filledPipe ∧
    (bbrTold bbr info).Nears (bbrUpdateProbeBw (bbrCheckDrainDone (bbrCheckStartupDone
      (bbrTold bbr info))) info.nowUs) := by
  have told : (bbrTold bbr info).Sane ∧ (bbrTold bbr info).lossInRound = bbr.lossInRound ∧
      (bbrTold bbr info).filledPipe = bbr.filledPipe := by
    unfold bbrTold bbrUpdateModel bbrUpdateRtProp bbrUpdateBw
    simp only
    repeat' split
    all_goals exact ⟨{ sane with }, rfl, rfl⟩
  have near : (bbrTold bbr info).Nears (bbrTold bbr info) :=
    { told.1 with loss := rfl, pipe := id, rtProp := ⟨rfl, rfl⟩, expired := ⟨rfl, rfl⟩, probing := .rfl }
  exact ⟨told.2.1, told.2.2, near.startupDone.drainDone.probeBw info.nowUs⟩

theorem bbrOnAck_follows {bbr : Bbr} (sane : bbr.Sane) (info : CcAckInfo) :
    (bbrTold bbr info).Follows (bbrOnAck bbr info) :=
  ((bbrTold_near sane info).2.2.toFollows.probeRtt info.nowUs).control

theorem bbrStep_sane {bbr : Bbr} (sane : bbr.Sane) (event : BbrEvent) :
    (bbrStep bbr event).Sane := by
  cases event with
  | sent bytesInFlight => exact { sane with }
  | ack info => exact (bbrOnAck_follows sane info).toSane
  | loss lostBytes bytesInFlight =>
    unfold bbrStep bbrOnLoss
    simp only
    split
    · exact { sane with
        gains := ⟨by simp [drainPacingGain], sane.gains.2⟩, startup := nofun, filled := fun _ => rfl }
    · exact { sane with }

/-- Whatever a fresh controller is told, its window, burst, gains and cycle stay within bounds, and
it is in startup only while the pipe is not full and drains or probes only when it is. -/
theorem bbr_sane (events : List BbrEvent) : (Machine.run bbrStep bbrInitState events).Sane :=
  Machine.run_preserves Bbr.Sane (fun _ event sane => bbrStep_sane sane event) events
    bbrInitState_sane

/-- A controller with the bytes reported lost since the last acknowledgement that started a round.
-/
structure LossTrace where
  bbr : Bbr
  since : Nat

/-- Take note of an event. -/
def lossStep (t : LossTrace) (event : BbrEvent) : LossTrace where
  bbr := bbrStep t.bbr event
  since := match event with
    | .sent _ => t.since
    | .ack info => if info.roundStart then 0 else t.since
    | .loss lostBytes _ => t.since + lostBytes.toNat

/-- A round starts only before the first loss or after the pipe was found full. -/
def BbrEvent.Clean (bbr : Bbr) : BbrEvent → Prop
  | .ack info => info.roundStart = true → bbr.lossInRound = 0 ∨ bbr.filledPipe = true
  | _ => True

/-- While the pipe is not full, no loss of an earlier round is counted. -/
structure LossTrace.Fair (t : LossTrace) : Prop where
  sane : t.bbr.Sane
  counted : t.bbr.filledPipe = true ∨ t.bbr.lossInRound.toNat ≤ t.since

theorem lossInRound_le {loss : UInt64} {since : Nat} (counted : loss.toNat ≤ since)
    (lostBytes : UInt32) :
    (loss + lostBytes.toUInt64).toNat ≤ since + lostBytes.toNat := by
  rw [UInt64.toNat_add, UInt32.toNat_toUInt64]
  exact Nat.le_trans (Nat.mod_le ..) (Nat.add_le_add_right counted _)

theorem lossStep_fair {t : LossTrace} (fair : t.Fair) {event : BbrEvent}
    (clean : event.Clean t.bbr) : (lossStep t event).Fair := by
  refine ⟨bbrStep_sane fair.sane event, ?_⟩
  cases event with
  | sent bytesInFlight => exact fair.counted
  | ack info =>
    have after := bbrOnAck_follows fair.sane info
    obtain ⟨loss, pipe, _⟩ := bbrTold_near fair.sane info
    have filled (full : t.bbr.filledPipe = true) : (bbrOnAck t.bbr info).filledPipe = true :=
      after.pipe (pipe.trans full)
    have same : (bbrOnAck t.bbr info).lossInRound = t.bbr.lossInRound := after.loss.trans loss
    unfold lossStep bbrStep
    simp only [same]
    split
    · rename_i starts
      -- A round that starts forgets nothing, as there is nothing to forget.
      rcases clean starts with none | full
      · exact .inr (by simp [none])
      · exact .inl (filled full)
    · exact fair.counted.imp_left filled
  | loss lostBytes bytesInFlight =>
    rcases fair.counted with full | counted
    · left
      unfold lossStep bbrStep bbrOnLoss
      simp only
      split
      · rfl
      · exact full
    · right
      have sum := lossInRound_le counted lostBytes
      unfold lossStep bbrStep bbrOnLoss
      simp only
      split <;> exact sum

/-- In every run in which rounds start only before the first loss or after the pipe was found full,
a loss moves the controller from startup to drain only if the bytes lost since the last start of a
round exceed a fifth of those in flight. -/
theorem startup_left_for_loss (events : List BbrEvent)
    (clean : Machine.Along lossStep (fun t event => event.Clean t.bbr) ⟨bbrInitState, 0⟩ events)
    (past rest : List BbrEvent) (lostBytes : UInt32) (bytesInFlight : UInt64)
    (parts : events = past ++ .loss lostBytes bytesInFlight :: rest) :
    let t := Machine.run lossStep ⟨bbrInitState, 0⟩ past
    t.bbr.state = .startup → (bbrOnLoss t.bbr lostBytes bytesInFlight).state = .drain →
      bytesInFlight.toNat < 5 * (t.since + lostBytes.toNat) := by
  rw [parts, Machine.along_append] at clean
  have init : LossTrace.Fair ⟨bbrInitState, 0⟩ := ⟨bbrInitState_sane, .inr (Nat.le_refl 0)⟩
  intro t starting moved
  have fair : t.Fair :=
    @Machine.run_invariant _ _ _ _ LossTrace.Fair (fun _ _ fair => lossStep_fair fair) _ _ init clean.1
  have growing := fair.sane.startup starting
  have counted := fair.counted.resolve_left (by simp [growing])
  have sum := lossInRound_le counted lostBytes
  unfold bbrOnLoss at moved
  simp only at moved
  split at moved
  · rename_i heavy
    have more := heavy.2.2.2
    rw [gt_iff_lt, UInt64.lt_iff_toNat_lt, UInt64.toNat_div] at more
    change bytesInFlight.toNat / 5 < _ at more
    omega
  · rw [starting] at moved
    cases moved

/-- An acknowledgement that starts a round and tells nothing else. -/
def roundAck : CcAckInfo := ⟨0, 0, 0, 0, 0, 0, 1000, 0, 1, false, true⟩

/-- Losses of a tenth and of more than another one in the round that an acknowledgement started end
the startup phase. -/
theorem startup_left_once :
    let events : List BbrEvent := [.ack roundAck, .loss 100 1000, .loss 101 1000]
    Machine.Along lossStep (fun t event => event.Clean t.bbr) ⟨bbrInitState, 0⟩ events ∧
    (Machine.run lossStep ⟨bbrInitState, 0⟩ events).bbr.state = .drain ∧
    1000 < 5 * ((Machine.run lossStep ⟨bbrInitState, 0⟩ [.ack roundAck, .loss 100 1000]).since +
      101) := by
  have clean : Machine.Along lossStep (fun t event => event.Clean t.bbr) ⟨bbrInitState, 0⟩
      [.ack roundAck, .loss 100 1000, .loss 101 1000] := by
    exact ⟨fun _ => .inl rfl, trivial, trivial, trivial⟩
  refine ⟨clean, by decide +kernel, ?_⟩
  exact startup_left_for_loss _ clean [.ack roundAck, .loss 100 1000] [] 101 1000 rfl
    (by decide +kernel) (by decide +kernel)

/-- The startup phase ends when a tenth is lost before a round starts and a tenth after it. -/
theorem startup_left_late :
    let t := Machine.run lossStep ⟨bbrInitState, 0⟩ [.loss 100 1000, .ack roundAck]
    t.bbr.state = .startup ∧ (bbrOnLoss t.bbr 101 1000).state = .drain ∧ t.since + 101 = 101 := by
  decide +kernel

/-- Whether an acknowledgement sets the shortest delay. -/
def setsRtProp (bbr : Bbr) (info : CcAckInfo) : Bool :=
  info.rttUs > 0 && (info.rttUs ≤ bbr.rtPropUs || bbr.rtPropUs == 0 ||
    info.nowUs - bbr.rtPropStamp > 10000000)

/-- A controller with the time that was told when its shortest delay was last set. -/
structure RttTrace where
  bbr : Bbr
  setAt : Option UInt64

/-- Take note of an event. -/
def rttStep (t : RttTrace) (event : BbrEvent) : RttTrace where
  bbr := bbrStep t.bbr event
  setAt := match event with
    | .ack info => if setsRtProp t.bbr info then some info.nowUs else t.setAt
    | _ => t.setAt

/-- The shortest delay was set, and that was more than ten seconds ago. -/
def RttTrace.Stale (t : RttTrace) (nowUs : UInt64) : Prop :=
  ∃ set ∈ t.setAt, set.toNat + 10000000 < nowUs.toNat

/-- Unless the delay is probed already or the sender is limited, a positive delay comes with a time
that is not far from the last stamp as the code counts, or else at a known delay and not before its
stamp, and no delay comes only while none has expired or at one that is known to be old. -/
def CcAckInfo.Timely (info : CcAckInfo) (bbr : Bbr) : Prop :=
  bbr.state = .probeRtt ∨ info.isAppLimited = true ∨
    if info.rttUs > 0 then
      info.nowUs - bbr.rtPropStamp ≤ 10000000 ∨ bbr.rtPropUs ≠ 0 ∧ bbr.rtPropStamp ≤ info.nowUs
    else
      bbr.rtPropExpired = false ∨
        bbr.rtPropUs ≠ 0 ∧ bbr.rtPropStamp.toNat + 10000000 < info.nowUs.toNat

/-- The stamp is the time at which the shortest delay was last set. -/
structure RttTrace.Stamped (t : RttTrace) : Prop where
  sane : t.bbr.Sane
  unset : t.setAt = none → t.bbr.rtPropUs = 0
  set : ∀ set ∈ t.setAt, t.bbr.rtPropUs ≠ 0 ∧ t.bbr.rtPropStamp = set

theorem bbrUpdateBw_only (bbr : Bbr) (info : CcAckInfo) :
    ∃ filter bw, bbrUpdateBw bbr info = { bbr with bwFilter := filter, btlBw := bw } := by
  unfold bbrUpdateBw
  split
  · exact ⟨_, _, rfl⟩
  · exact ⟨_, _, rfl⟩

theorem bbrTold_rtt (bbr : Bbr) (info : CcAckInfo) :
    (bbrTold bbr info).rtPropUs = (if setsRtProp bbr info then info.rttUs else bbr.rtPropUs) ∧
    (bbrTold bbr info).rtPropStamp =
      (if setsRtProp bbr info then info.nowUs else bbr.rtPropStamp) ∧
    (bbrTold bbr info).rtPropExpired = (if info.rttUs > 0 then
      decide (info.nowUs - bbr.rtPropStamp > 10000000) else bbr.rtPropExpired) ∧
    (bbrTold bbr info).state = bbr.state ∧ (bbrTold bbr info).appLimited = info.isAppLimited := by
  obtain ⟨filter, bw, only⟩ := bbrUpdateBw_only
    { bbr with
      bytesInFlight := info.bytesInFlight, roundCount := info.roundCount
      roundStart := info.roundStart, appLimited := info.isAppLimited } info
  unfold bbrTold bbrUpdateModel
  simp only [only]
  unfold bbrUpdateRtProp setsRtProp
  by_cases told : info.rttUs > 0
  · simp only [told, if_true, decide_true, Bool.true_and]
    split <;> simp
  · simp [told]

/-- The delay begins to be probed exactly when its sample counts as expired and the sender is not
limited. -/
theorem bbrCheckProbeRtt_enters {bbr : Bbr} (out : bbr.state ≠ .probeRtt) (nowUs : UInt64) :
    (bbrCheckProbeRtt bbr nowUs).state = .probeRtt ↔
      bbr.rtPropExpired = true ∧ bbr.appLimited = false := by
  by_cases enters : bbr.rtPropExpired = true ∧ bbr.appLimited = false
  · refine iff_of_true ?_ enters
    unfold bbrCheckProbeRtt bbrEnterProbeRtt
    -- The time at the small window starts now, so that it is not over.
    simp [out, enters]
    repeat' split
    all_goals simp_all
  · refine iff_of_false ?_ enters
    have stays : bbrEnterProbeRtt bbr = bbr := by simp_all [bbrEnterProbeRtt]
    simp [bbrCheckProbeRtt, stays, out]

theorem bbrOnAck_enters {bbr : Bbr} (sane : bbr.Sane) (info : CcAckInfo)
    (out : bbr.state ≠ .probeRtt) :
    (bbrOnAck bbr info).state = .probeRtt ↔
      (if info.rttUs > 0 then decide (info.nowUs - bbr.rtPropStamp > 10000000)
        else bbr.rtPropExpired) = true ∧ info.isAppLimited = false := by
  obtain ⟨_, _, near⟩ := bbrTold_near sane info
  obtain ⟨_, _, expired, state, limited⟩ := bbrTold_rtt bbr info
  have shape : bbrOnAck bbr info = bbrUpdateControl (bbrCheckProbeRtt (bbrUpdateProbeBw
      (bbrCheckDrainDone (bbrCheckStartupDone (bbrTold bbr info))) info.nowUs) info.nowUs) := rfl
  have kept (now : Bbr) : (bbrUpdateControl now).state = now.state := rfl
  rw [shape, kept, ← expired, ← limited, ← near.expired.1, ← near.expired.2]
  refine bbrCheckProbeRtt_enters (fun probing => out ?_) info.nowUs
  exact state.symm.trans (near.probing.mp probing)

theorem rttStep_stamped {t : RttTrace} (stamped : t.Stamped) (event : BbrEvent) :
    (rttStep t event).Stamped := by
  have sane := bbrStep_sane stamped.sane event
  cases event with
  | sent bytesInFlight => exact ⟨sane, stamped.unset, stamped.set⟩
  | ack info =>
    have after := (bbrOnAck_follows stamped.sane info).rtProp
    obtain ⟨delay, stamp, _⟩ := bbrTold_rtt t.bbr info
    rw [delay, stamp] at after
    refine ⟨sane, ?_, ?_⟩ <;> simp only [rttStep, bbrStep, after] <;> split
    · nofun
    · exact stamped.unset
    · rintro _ ⟨⟩
      rename_i sets
      simp only [setsRtProp, Bool.and_eq_true, decide_eq_true_eq] at sets
      exact ⟨fun zero => absurd sets.1 (by simp [zero]), rfl⟩
    · exact stamped.set
  | loss lostBytes bytesInFlight =>
    have same : (bbrOnLoss t.bbr lostBytes bytesInFlight).rtPropUs = t.bbr.rtPropUs ∧
        (bbrOnLoss t.bbr lostBytes bytesInFlight).rtPropStamp = t.bbr.rtPropStamp := by
      unfold bbrOnLoss
      simp only
      split <;> exact ⟨rfl, rfl⟩
    refine ⟨sane, ?_, ?_⟩ <;> simp only [rttStep, bbrStep, same]
    · exact stamped.unset
    · exact stamped.set

/-- After every run of events, an acknowledgement makes the controller probe the delay only if that
was set more than ten seconds ago, exactly when the acknowledgement is timely. -/
theorem probeRtt_stale_iff (events : List BbrEvent) (info : CcAckInfo) :
    let t := Machine.run rttStep ⟨bbrInitState, none⟩ events
    (t.bbr.state ≠ .probeRtt → (bbrOnAck t.bbr info).state = .probeRtt → t.Stale info.nowUs) ↔
      info.Timely t.bbr := by
  intro t
  have stamped : t.Stamped := Machine.run_preserves RttTrace.Stamped
    (fun _ event stamped => rttStep_stamped stamped event) events
    ⟨bbrInitState_sane, fun _ => rfl, nofun⟩
  -- Whether the delay is stale can be read off the controller.
  have stale : t.Stale info.nowUs ↔
      t.bbr.rtPropUs ≠ 0 ∧ t.bbr.rtPropStamp.toNat + 10000000 < info.nowUs.toNat := by
    unfold RttTrace.Stale
    cases known : t.setAt with
    | none => simp [stamped.unset known]
    | some set =>
      obtain ⟨positive, rfl⟩ := stamped.set set known
      simp [positive]
  by_cases probing : t.bbr.state = .probeRtt
  · exact iff_of_true (fun out => absurd probing out) (.inl probing)
  rw [bbrOnAck_enters stamped.sane info probing, stale]
  unfold CcAckInfo.Timely
  simp only [probing, false_or, ne_eq, not_false_eq_true, true_imp_iff]
  cases info.isAppLimited with
  | true => simp
  | false =>
    simp only [and_true, Bool.false_eq_true, false_or]
    split
    · -- Only a stamp in the future makes the difference wrap around.
      rw [decide_eq_true_eq, ← UInt64.not_lt, gt_iff_lt]
      by_cases order : t.bbr.rtPropStamp ≤ info.nowUs
      · have age : 10000000 < info.nowUs - t.bbr.rtPropStamp ↔ _ := Word.lt_sub_iff order
        tauto
      · have early : ¬ t.bbr.rtPropStamp.toNat + 10000000 < info.nowUs.toNat := by
          rw [UInt64.le_iff_toNat_le] at order
          omega
        tauto
    · cases t.bbr.rtPropExpired <;> simp

/-- A client that is established by hand sends two packets at twenty seconds, with more to send, and
hears that the first of them arrived. -/
def firstHeard : List (Env × ConnOp) :=
  [(plainEnv, .setEstablished ConnId.empty), (plainEnv, .openStream .reliable false),
    (plainEnv, .streamSend 0 (List.replicate 60 7) false), (plainEnv, .send 45 20000000),
    (plainEnv, .send 45 20000000), (plainEnv, .recv [0x40, 0, 0x02, 0, 0, 0, 0] 20040000)]

/-- The acknowledgement of the second packet brings the first delay, and the controller begins to
probe it. -/
theorem probeRtt_first_sample :
    ∃ before after, Machine.attempt (connStep plainEvp) (connCreate plainConfig false true)
        firstHeard = some before ∧
      connStep plainEvp before (plainEnv, .recv [0x40, 1, 0x02, 1, 0, 0, 0] 20040000) =
        some after ∧
      before.cc.map (fun bbr => (bbr.state, bbr.rtPropUs)) = some (.startup, 0) ∧
      after.cc.map (fun bbr => (bbr.state, bbr.rtPropUs)) = some (.probeRtt, 40000) := by
  obtain ⟨before, reached, facts⟩ : ∃ before,
      Machine.attempt (connStep plainEvp) (connCreate plainConfig false true) firstHeard =
        some before ∧ before.cc.map (fun bbr => (bbr.state, bbr.rtPropUs)) = some (.startup, 0) ∧
      (connRecv plainEvp plainEnv before [0x40, 1, 0x02, 1, 0, 0, 0] 20040000).2.cc.map
        (fun bbr => (bbr.state, bbr.rtPropUs)) = some (.probeRtt, 40000) := by
    decide +kernel
  exact ⟨before, _, reached, rfl, facts⟩

end Nxp
