import Nxp.Congestion.PacerLaws
import Nxp.Core.ConnOps
import Nxp.Lib.Machine

/-! What a token bucket lets through, when it wakes a sender, and what polling it often costs. -/

namespace Nxp

/-- A stream's limiter has the fields of a pacer. -/
def StreamRate.toPacer (r : StreamRate) : Pacer :=
  ⟨r.rateBps, r.tokens, r.lastUpdate, r.maxBurst, r.enabled, r.timeInitialized⟩

/-- A stream's limiter is refilled as a pacer is. -/
theorem streamRateUpdate_toPacer (r : StreamRate) (nowUs : UInt64) :
    (streamRateUpdate r nowUs).toPacer = pacerUpdate r.toPacer nowUs := by
  unfold streamRateUpdate pacerUpdate StreamRate.toPacer
  simp only
  split
  · rfl
  · split
    · rfl
    · split <;> rfl

theorem run_toPacer (r : StreamRate) (times : List UInt64) :
    (Machine.run streamRateUpdate r times).toPacer = Machine.run pacerUpdate r.toPacer times := by
  induction times generalizing r with
  | nil => rfl
  | cons nowUs rest ih => rw [Machine.run_cons, Machine.run_cons, ih, streamRateUpdate_toPacer]

/-- The spans of time between polls, each from the time before it. -/
def spans : UInt64 → List UInt64 → List UInt64
  | _, [] => []
  | last, nowUs :: rest => (nowUs - last) :: spans nowUs rest

namespace Pacer

/-- A thousand times the tokens of each span, of which nothing is rounded off yet. -/
def shares (p : Pacer) (times : List UInt64) : List Nat :=
  (spans p.lastUpdate times).map fun span => p.rateBps.toNat * span.toNat

/-- Tokens that the code adds for the spans one by one. -/
def polledTokens (p : Pacer) (times : List UInt64) : Nat :=
  ((spans p.lastUpdate times).map (freshTokens p.rateBps)).sum

/-- Tokens of the whole time up to the last of some polls. -/
def wholeTokens (p : Pacer) (times : List UInt64) : Nat :=
  p.rateBps.toNat * ((times.getLastD p.lastUpdate).toNat - p.lastUpdate.toNat) / 1000

/-- A bucket that is limited, has a rate and sees time go by. -/
def Works (p : Pacer) (times : List UInt64) : Prop :=
  p.enabled = true ∧ p.rateBps ≠ 0 ∧ p.lastUpdate < times.getLastD p.lastUpdate

/-- Polls at given times lose nothing: no product leaves its word, what is rounded off at all of
them is less than a token, and the bucket has room for all tokens; where no poll does anything,
nothing is to be added and the bucket is not overfull. -/
def LosesNothing (p : Pacer) (times : List UInt64) : Prop :=
  (p.Works times ∧ (∀ share ∈ p.shares times, share * 1000 < 2 ^ 64) ∧
      ((p.shares times).map (· % 1000)).sum < 1000 ∧
      p.tokens.toNat + p.wholeTokens times ≤ p.cap % 2 ^ 64) ∨
    ¬ p.Works times ∧ p.wholeTokens times = 0 ∧ p.tokens.toNat ≤ p.cap

/-- A bucket holds what it would after a single refill for the whole time. -/
def FilledAtOnce (p after : Pacer) (times : List UInt64) : Prop :=
  after.tokens.toNat = min p.cap (p.tokens.toNat + p.wholeTokens times)

/-- When polls leave a bucket with what a single refill would: they lose nothing, or it is full as
it should be, which a bucket at work with room in its words is once its tokens reach that far. -/
structure Refills (p after : Pacer) (times : List UInt64) : Prop where
  once : p.FilledAtOnce after times ↔ p.LosesNothing times ∨
    p.cap ≤ p.tokens.toNat + p.wholeTokens times ∧ after.tokens.toNat = p.cap
  full : p.Works times → max p.cap p.tokens.toNat + 2 ^ 64 / 1000000 < 2 ^ 64 →
    (after.tokens.toNat = p.cap ↔ p.cap ≤ p.tokens.toNat + p.polledTokens times)

end Pacer

/-- Rounding down one by one loses nothing exactly if no product leaves its word and less than one
is rounded off in all. -/
theorem sum_rounded_iff (shares : List Nat) :
    (shares.map fun share => share * 1000 % 2 ^ 64 / 1000000).sum ≤ shares.sum / 1000 ∧
      ((shares.map fun share => share * 1000 % 2 ^ 64 / 1000000).sum = shares.sum / 1000 ↔
        (∀ share ∈ shares, share * 1000 < 2 ^ 64) ∧ (shares.map (· % 1000)).sum < 1000) := by
  -- The words lose tokens of single spans, and rounding those of all of them.
  have words : (shares.map fun share => share * 1000 % 2 ^ 64 / 1000000).sum ≤
        (shares.map (· / 1000)).sum ∧
      ((shares.map fun share => share * 1000 % 2 ^ 64 / 1000000).sum = (shares.map (· / 1000)).sum ↔
        ∀ share ∈ shares, share * 1000 < 2 ^ 64) ∧
      shares.sum = 1000 * (shares.map (· / 1000)).sum + (shares.map (· % 1000)).sum := by
    induction shares with
    | nil => simp
    | cons share rest ih =>
      obtain ⟨most, same, parts⟩ := ih
      have here : share * 1000 % 2 ^ 64 / 1000000 ≤ share / 1000 ∧
          (share * 1000 % 2 ^ 64 / 1000000 = share / 1000 ↔ share * 1000 < 2 ^ 64) := by omega
      simp only [List.map_cons, List.sum_cons, List.forall_mem_cons, ← same, ← here.2]
      omega
  obtain ⟨most, same, parts⟩ := words
  rw [← same]
  omega

section Polls

variable {p : Pacer} {times : List UInt64}

/-- Times that do not go back add up to the whole time. -/
theorem sum_shares (forward : (p.lastUpdate :: times).Pairwise (· ≤ ·)) :
    (p.shares times).sum / 1000 = p.wholeTokens times ∧
      p.lastUpdate ≤ times.getLastD p.lastUpdate := by
  unfold Pacer.shares Pacer.wholeTokens
  generalize p.lastUpdate = last at *
  have whole : (((spans last times).map fun span => p.rateBps.toNat * span.toNat).sum =
      p.rateBps.toNat * ((times.getLastD last).toNat - last.toNat)) ∧
      last ≤ times.getLastD last := by
    induction times generalizing last with
    | nil => simp [spans]
    | cons nowUs rest ih =>
      obtain ⟨ahead, onward⟩ := List.pairwise_cons.mp forward
      have first := ahead nowUs List.mem_cons_self
      obtain ⟨sum, order⟩ := ih nowUs onward
      rw [spans, List.map_cons, List.sum_cons, sum, List.getLastD_cons,
        UInt64.toNat_sub_of_le _ _ first, ← Nat.mul_add]
      refine ⟨congrArg (p.rateBps.toNat * ·) ?_, UInt64.le_trans first order⟩
      rw [UInt64.le_iff_toNat_le] at first order
      omega
  rw [whole.1]
  exact ⟨rfl, whole.2⟩

/-- Tokens that are rounded off one by one are no more than those of the whole time. -/
theorem polledTokens_le (forward : (p.lastUpdate :: times).Pairwise (· ≤ ·)) :
    p.polledTokens times ≤ p.wholeTokens times ∧
      (p.polledTokens times = p.wholeTokens times ↔
        (∀ share ∈ p.shares times, share * 1000 < 2 ^ 64) ∧
          ((p.shares times).map (· % 1000)).sum < 1000) := by
  have rounded := sum_rounded_iff (p.shares times)
  have polled : (p.shares times).map (fun share => share * 1000 % 2 ^ 64 / 1000000) =
      (spans p.lastUpdate times).map (freshTokens p.rateBps) := by
    unfold Pacer.shares
    rw [List.map_map]
    rfl
  rw [polled, (sum_shares forward).1] at rounded
  exact rounded

/-- What polls make of the tokens of a bucket that is limited and has a rate. -/
private structure Pacer.Polled (p : Pacer) (times : List UInt64) (after : Nat) : Prop where
  least : after ≤ p.tokens.toNat + p.polledTokens times
  whole : p.tokens.toNat + p.polledTokens times ≤ p.cap % 2 ^ 64 →
    after = p.tokens.toNat + p.polledTokens times
  still : ¬ p.lastUpdate < times.getLastD p.lastUpdate → after = p.tokens.toNat
  capped : p.lastUpdate < times.getLastD p.lastUpdate → after ≤ p.cap % 2 ^ 64
  roomy : p.lastUpdate < times.getLastD p.lastUpdate →
    max p.cap p.tokens.toNat + 2 ^ 64 / 1000000 < 2 ^ 64 →
      after = min p.cap (p.tokens.toNat + p.polledTokens times)

/-- A poll comes before others. -/
theorem Pacer.Polled.cons {nowUs tokens : UInt64} {rest : List UInt64} {after : Nat}
    (onward : (nowUs :: rest).Pairwise (· ≤ ·))
    (moved : nowUs = p.lastUpdate ∧ tokens = p.tokens ∨ p.lastUpdate < nowUs ∧
      tokens.toNat = min (p.cap % 2 ^ 64)
        ((p.tokens.toNat + freshTokens p.rateBps (nowUs - p.lastUpdate)) % 2 ^ 64))
    (rests : Pacer.Polled { p with lastUpdate := nowUs, tokens := tokens } rest after) :
    p.Polled (nowUs :: rest) after := by
  have later := (@sum_shares { p with lastUpdate := nowUs, tokens := tokens } rest onward).2
  have most := (@polledTokens_le { p with lastUpdate := nowUs, tokens := tokens } rest onward).1
  have fresh := freshTokens_lt p.rateBps (nowUs - p.lastUpdate)
  have polled : p.polledTokens (nowUs :: rest) = freshTokens p.rateBps (nowUs - p.lastUpdate) +
      Pacer.polledTokens { p with lastUpdate := nowUs, tokens := tokens } rest := rfl
  obtain ⟨least, whole, still, capped, roomy⟩ := rests
  simp only [Pacer.cap] at *
  rcases moved with ⟨rfl, rfl⟩ | ⟨passed, count⟩
  · -- A poll without a span of time changes nothing.
    rw [UInt64.sub_self, freshTokens_zero, Nat.zero_add] at polled
    constructor <;> simp only [polled, List.getLastD_cons, Pacer.cap] <;> assumption
  · have ahead := UInt64.lt_of_lt_of_le passed later
    by_cases onwards : nowUs < rest.getLastD nowUs
    · have few := capped onwards
      constructor <;> simp only [polled, List.getLastD_cons, Pacer.cap]
      · omega
      · omega
      · exact fun never => absurd ahead never
      · exact fun _ => few
      · intro _ room
        have fits : p.maxBurst.toNat * 1000 % 2 ^ 64 = p.maxBurst.toNat * 1000 :=
          Nat.mod_eq_of_lt (by omega)
        rw [roomy onwards (by omega)]
        omega
    · -- No time goes by after this poll, so no token is added.
      have stays : rest.getLastD nowUs = nowUs :=
        UInt64.le_antisymm (UInt64.not_lt.mp onwards) later
      simp only [Pacer.wholeTokens, stays, Nat.sub_self, Nat.mul_zero, Nat.zero_div] at most
      have ended := still onwards
      constructor <;> simp only [polled, List.getLastD_cons, Pacer.cap]
      · omega
      · omega
      · exact fun never => absurd ahead never
      · omega
      · omega

theorem run_polled (limited : p.enabled = true) (rated : p.rateBps ≠ 0)
    (running : p.timeInitialized = true) (forward : (p.lastUpdate :: times).Pairwise (· ≤ ·)) :
    p.Polled times (Machine.run pacerUpdate p times).tokens.toNat := by
  -- The induction is on the polls, the bucket moving along.
  induction times generalizing p with
  | nil => constructor <;> simp [Pacer.polledTokens, spans]
  | cons nowUs rest ih =>
    obtain ⟨ahead, onward⟩ := List.pairwise_cons.mp forward
    obtain ⟨tokens, updated, moved⟩ :=
      pacerUpdate_works limited rated running (ahead nowUs List.mem_cons_self)
    rw [Machine.run_cons, updated]
    exact Pacer.Polled.cons onward moved
      (@ih { p with lastUpdate := nowUs, tokens := tokens } limited rated running onward)

/-- A bucket without a limit or a rate stays as it is. -/
theorem run_pacerUpdate_off (off : ¬ (p.enabled = true ∧ p.rateBps ≠ 0))
    (times : List UInt64) : Machine.run pacerUpdate p times = p := by
  have idle (nowUs : UInt64) : pacerUpdate p nowUs = p := by
    unfold pacerUpdate
    rw [if_pos]
    simp only [Bool.or_eq_true, Bool.not_eq_true', beq_iff_eq]
    by_contra works
    rw [not_or, Bool.not_eq_false] at works
    exact off works
  induction times with
  | nil => rfl
  | cons nowUs rest ih => rw [Machine.run_cons, idle, ih]

/-- Over a run the pacer refills by its rate. -/
theorem pacer_refills (running : p.timeInitialized = true)
    (forward : (p.lastUpdate :: times).Pairwise (· ≤ ·)) :
    p.Refills (Machine.run pacerUpdate p times) times := by
  obtain ⟨most, exactly⟩ := polledTokens_le forward
  have wrapped := Nat.mod_le p.cap (2 ^ 64)
  by_cases works : p.Works times
  · obtain ⟨least, whole, -, capped, roomy⟩ := run_polled works.1 works.2.1 running forward
    have few := capped works.2.2
    constructor
    · unfold Pacer.FilledAtOnce Pacer.LosesNothing
      simp only [works, true_and, not_true, false_and, or_false, ← and_assoc, ← exactly]
      omega
    · intro _ room
      rw [roomy works.2.2 room]
      omega
  · -- The tokens stay as they are.
    have same : (Machine.run pacerUpdate p times).tokens.toNat = p.tokens.toNat := by
      by_cases limited : p.enabled = true ∧ p.rateBps ≠ 0
      · exact (run_polled limited.1 limited.2 running forward).still fun later =>
          works ⟨limited.1, limited.2, later⟩
      · rw [run_pacerUpdate_off limited]
    refine ⟨?_, fun working => absurd working works⟩
    unfold Pacer.FilledAtOnce Pacer.LosesNothing
    simp only [works, false_and, false_or, not_false_eq_true, true_and]
    rw [same]
    omega

end Polls

section Conformance

/-- A pacer with the packet it was last asked about and let go, the octets sent, and when it was
first updated. -/
structure Paced where
  pacer : Pacer
  cleared : Option UInt32
  sent : Nat
  since : Option UInt64

/-- A pacer of a rate that nothing has happened to. -/
def Paced.start (rateBps : UInt64) : Paced := ⟨pacerSetRate pacerInit rateBps, none, 0, none⟩

/-- Calls of a sender that keeps to the pacer. -/
inductive PacedOp where
  | update (nowUs : UInt64)
  | canSend (bytes : UInt32)
  | onSend

/-- Update the pacer at a time that does not go back, ask about a packet, or send the one that was
let go. -/
def pacedStep (s : Paced) : PacedOp → Option Paced
  | .update nowUs =>
    if s.since.isSome ∧ nowUs < s.pacer.lastUpdate then none
    else some { s with
      pacer := pacerUpdate s.pacer nowUs, since := some (s.since.getD nowUs) }
  | .canSend bytes =>
    some { s with cleared := if pacerCanSend s.pacer bytes then some bytes else none }
  | .onSend => s.cleared.map fun bytes =>
    { s with pacer := pacerOnSend s.pacer bytes, cleared := none, sent := s.sent + bytes.toNat }

/-- Time from the first update to the latest. -/
def Paced.elapsed (s : Paced) : Nat :=
  s.since.elim 0 fun first => s.pacer.lastUpdate.toNat - first.toNat

/-- What is sent and what may still be sent never exceed a burst and the rate's share. -/
private structure Paced.Conforms (rateBps : UInt64) (s : Paced) : Prop where
  sound : s.pacer.Sound
  rate : s.pacer.rateBps = rateBps
  burst : s.pacer.maxBurst = pacerMaxBurst
  clock : s.pacer.timeInitialized = s.since.isSome
  order : ∀ first ∈ s.since, first ≤ s.pacer.lastUpdate
  paid : ∀ bytes ∈ s.cleared, bytes.toNat * 1000 ≤ s.pacer.tokens.toNat
  spent : 1000 * (s.pacer.tokens.toNat + 1000 * s.sent) ≤
    1000 * s.pacer.cap + rateBps.toNat * s.elapsed

variable {rateBps : UInt64} {s next : Paced}

theorem Paced.Conforms.update (rated : rateBps ≠ 0) (conforms : s.Conforms rateBps)
    {nowUs : UInt64} (stepped : pacedStep s (.update nowUs) = some next) :
    next.Conforms rateBps := by
  unfold pacedStep at stepped
  simp only at stepped
  split at stepped
  · cases stepped
  · rename_i forward
    have rated' : s.pacer.rateBps ≠ 0 := conforms.rate ▸ rated
    cases stepped
    cases since : s.since with
    | none =>
      have clock := conforms.clock
      have spent := conforms.spent
      rw [since] at clock
      simp only [Paced.elapsed, since, Option.elim_none] at spent
      have first := pacerUpdate_first conforms.sound rated' clock nowUs
      rw [first]
      refine ⟨⟨conforms.sound.limited, conforms.sound.within, conforms.sound.fits⟩, conforms.rate,
        conforms.burst, rfl, ?_, conforms.paid, ?_⟩
      · rintro _ ⟨⟩
        exact UInt64.le_refl _
      · simp only [Paced.elapsed, Option.getD_none, Option.elim_some, Nat.sub_self]
        exact spent
    | some first =>
      have clock := conforms.clock
      have order := conforms.order first since
      have spent := conforms.spent
      rw [since] at clock
      simp only [since, Option.isSome_some, true_and, UInt64.not_lt] at forward
      obtain ⟨tokens, updated, count⟩ := pacerUpdate_running conforms.sound rated' clock forward
      have fresh := freshTokens_le s.pacer.rateBps (nowUs - s.pacer.lastUpdate)
      have within := conforms.sound.within
      have bounded : tokens.toNat ≤ s.pacer.cap := count ▸ Nat.min_le_left ..
      have grown : s.pacer.tokens.toNat ≤ tokens.toNat := by omega
      rw [updated]
      refine ⟨⟨conforms.sound.limited, bounded, conforms.sound.fits⟩, conforms.rate,
        conforms.burst, clock, ?_, fun bytes cleared => (conforms.paid bytes cleared).trans grown, ?_⟩
      · rintro _ ⟨⟩
        exact UInt64.le_trans order forward
      · -- The span since the latest update comes on top of the one before it.
        simp only [Paced.elapsed, since, Option.elim_some] at spent
        simp only [Paced.elapsed, Option.getD_some, Option.elim_some]
        rw [UInt64.toNat_sub_of_le _ _ forward, conforms.rate] at fresh
        rw [UInt64.le_iff_toNat_le] at order forward
        have parts : nowUs.toNat - first.toNat = (s.pacer.lastUpdate.toNat - first.toNat) +
            (nowUs.toNat - s.pacer.lastUpdate.toNat) := by omega
        have share := congrArg (rateBps.toNat * ·) parts
        simp only [Nat.mul_add] at share
        rw [conforms.rate] at count
        simp only [Pacer.cap] at spent count ⊢
        omega

theorem Paced.Conforms.step (rated : rateBps ≠ 0) {op : PacedOp}
    (conforms : s.Conforms rateBps) (stepped : pacedStep s op = some next) :
    next.Conforms rateBps := by
  have limited : s.pacer.enabled = true := conforms.sound.limited.mpr (conforms.rate ▸ rated)
  cases op with
  | update nowUs => exact conforms.update rated stepped
  | canSend bytes =>
    cases stepped
    refine { conforms with paid := ?_ }
    intro asked cleared
    simp only [Option.mem_def, Option.ite_none_right_eq_some, Option.some.injEq] at cleared
    obtain ⟨allowed, rfl⟩ := cleared
    exact (pacerCanSend_iff limited bytes).mp allowed
  | onSend =>
    obtain ⟨bytes, cleared, made⟩ := Option.map_eq_some_iff.mp stepped
    have paid := conforms.paid bytes cleared
    obtain ⟨tokens, sent, count⟩ := pacerOnSend_paid limited paid
    have within := conforms.sound.within
    have spent := conforms.spent
    rw [sent] at made
    cases made
    have bounded : tokens.toNat ≤ s.pacer.cap := by omega
    refine ⟨⟨conforms.sound.limited, bounded, conforms.sound.fits⟩, conforms.rate, conforms.burst,
      conforms.clock, conforms.order, nofun, ?_⟩
    -- What the packet costs moves from the tokens to what is sent.
    simp only [Paced.elapsed, Pacer.cap] at spent ⊢
    omega

/-- At every constant rate, what a sender that keeps to the pacer has sent is at most one burst and
what the rate allows since the first update, and the bucket is never overfull. -/
theorem pacer_conforms (rateBps : UInt64) (rated : 0 < rateBps) (ops : List PacedOp) (s : Paced)
    (reached : Machine.attempt pacedStep (Paced.start rateBps) ops = some s) :
    s.sent ≤ s.pacer.maxBurst.toNat + rateBps.toNat * s.elapsed / 1000000 ∧
      s.pacer.tokens.toNat ≤ s.pacer.maxBurst.toNat * 1000 := by
  have conforms : s.Conforms rateBps := by
    refine Machine.attempt_preserves (Paced.Conforms rateBps)
      (fun _ _ _ before stepped => before.step (UInt64.pos_iff_ne_zero.mp rated) stepped) ?_ reached
    exact ⟨Pacer.Sound.create rateBps, rfl, rfl, rfl, nofun, nofun,
      by simp [Paced.start, Pacer.cap, pacerSetRate, pacerInit, pacerMaxBurst, tokenScale]⟩
  have spent := conforms.spent
  refine ⟨?_, conforms.sound.within⟩
  unfold Pacer.cap at spent
  omega

/-- A sender at a million octets a second sends a burst at once and another packet later. -/
theorem pacer_conforms_twice : ∃ s, Machine.attempt pacedStep (Paced.start 1000000)
      [.update 5, .canSend 12000, .onSend, .update 2005, .canSend 1200, .onSend] = some s ∧
    s.sent = 13200 ∧ s.sent ≤ s.pacer.maxBurst.toNat + 1000000 * s.elapsed / 1000000 := by
  obtain ⟨s, reached, sent⟩ : ∃ s, Machine.attempt pacedStep (Paced.start 1000000)
      [.update 5, .canSend 12000, .onSend, .update 2005, .canSend 1200, .onSend] = some s ∧
      s.sent = 13200 := ⟨_, rfl, rfl⟩
  exact ⟨s, reached, sent, (pacer_conforms 1000000 (by decide) _ s reached).1⟩

end Conformance

section WakeUp

variable {p : Pacer} {bytes : UInt32}

/-- The pacer's clock runs and does not wrap, the packet fits in the bucket, and the time until it
is paid for is a whole number of microseconds, the rate being taken as its scaled word holds it. -/
def Pacer.WakesInTime (p : Pacer) (bytes : UInt32) : Prop :=
  p.timeInitialized = true ∧
    p.lastUpdate.toNat + (bytes.toNat * 1000 - p.tokens.toNat) * 1000000 /
      (p.rateBps.toNat * 1000 % 2 ^ 64) < 2 ^ 64 ∧
    bytes.toNat * 1000 ≤ p.cap % 2 ^ 64 ∧
    p.rateBps.toNat * 1000 % 2 ^ 64 ∣ (bytes.toNat * 1000 - p.tokens.toNat) * 1000000

/-- How long a pacer that cannot pay for a packet waits. -/
theorem pacerNextSendTime_toNat (limited : p.enabled = true) (rated : p.rateBps ≠ 0)
    (poor : p.tokens.toNat < bytes.toNat * 1000) : (pacerNextSendTime p bytes).toNat =
      (bytes.toNat * 1000 - p.tokens.toNat) * 1000000 / (p.rateBps.toNat * 1000 % 2 ^ 64) := by
  have blocked : ¬ bytes.toUInt64 * tokenScale ≤ p.tokens := by
    rw [UInt64.le_iff_toNat_le, cost_toNat]
    omega
  have order : p.tokens ≤ bytes.toUInt64 * tokenScale := by
    rw [UInt64.le_iff_toNat_le, cost_toNat]
    omega
  have waits : pacerNextSendTime p bytes =
      (bytes.toUInt64 * tokenScale - p.tokens) * 1000000 / (p.rateBps * tokenScale) := by
    simp [pacerNextSendTime, limited, rated, blocked]
  have small := bytes.toNat_lt
  rw [waits, UInt64.toNat_div, UInt64.toNat_mul, UInt64.toNat_sub_of_le _ _ order, cost_toNat,
    UInt64.toNat_mul]
  have fits : (bytes.toNat * 1000 - p.tokens.toNat) * 1000000 < 2 ^ 64 := by omega
  exact congrArg (· / _) (Nat.mod_eq_of_lt fits)

/-- Waiting so long brings the tokens of the whole steps that the wait is made of. -/
theorem freshTokens_wait {deficit : Nat} {rateBps wait : UInt64}
    (small : deficit * 1000000 < 2 ^ 64)
    (waited : wait.toNat = deficit * 1000000 / (rateBps.toNat * 1000 % 2 ^ 64)) :
    freshTokens rateBps wait = rateBps.toNat * 1000 % 2 ^ 64 * wait.toNat / 1000000 := by
  have most := Nat.div_mul_le_self (deficit * 1000000) (rateBps.toNat * 1000 % 2 ^ 64)
  rw [← waited, Nat.mul_comm] at most
  unfold freshTokens
  rw [Nat.mul_right_comm, Nat.mul_mod, Nat.mod_eq_of_lt wait.toNat_lt, Nat.mod_eq_of_lt (by omega)]

/-- A whole number of steps makes up a deficit exactly when a step divides it. -/
theorem step_covers_iff {deficit step : Nat} :
    deficit ≤ step * (deficit * 1000000 / step) / 1000000 ↔ step ∣ deficit * 1000000 := by
  have most := Nat.mul_div_le (deficit * 1000000) step
  rw [Nat.le_div_iff_mul_le (by decide), Nat.dvd_iff_mod_eq_zero]
  have parts := Nat.div_add_mod (deficit * 1000000) step
  omega

/-- When a pacer whose clock runs can pay for a packet at the time it asked for. -/
theorem pacerCanSend_woken_iff (limited : p.enabled = true) (rated : p.rateBps ≠ 0)
    (poor : p.tokens.toNat < bytes.toNat * 1000) (running : p.timeInitialized = true)
    (positive : 0 < pacerNextSendTime p bytes)
    (forward : p.lastUpdate.toNat + (pacerNextSendTime p bytes).toNat < 2 ^ 64) :
    pacerCanSend (pacerUpdate p (p.lastUpdate + pacerNextSendTime p bytes)) bytes = true ↔
      bytes.toNat * 1000 ≤ p.cap % 2 ^ 64 ∧
        p.rateBps.toNat * 1000 % 2 ^ 64 ∣ (bytes.toNat * 1000 - p.tokens.toNat) * 1000000 := by
  have waited := pacerNextSendTime_toNat limited rated poor
  generalize pacerNextSendTime p bytes = wait at *
  have small := bytes.toNat_lt
  have later : p.lastUpdate < p.lastUpdate + wait := by
    rw [UInt64.lt_iff_toNat_lt] at positive ⊢
    rw [UInt64.toNat_add, Nat.mod_eq_of_lt forward]
    simp only [UInt64.toNat_zero] at positive
    omega
  have span : p.lastUpdate + wait - p.lastUpdate = wait := by
    rw [UInt64.add_comm, UInt64.add_sub_cancel]
  obtain ⟨tokens, updated, count⟩ := pacerUpdate_later limited rated running later
  have few := freshTokens_lt p.rateBps wait
  have fresh := freshTokens_wait (by omega) waited
  have fits : p.tokens.toNat + freshTokens p.rateBps wait < 2 ^ 64 := by omega
  rw [span, Nat.mod_eq_of_lt fits] at count
  rw [updated, pacerCanSend_iff (by exact limited), ← step_covers_iff, ← waited, ← fresh]
  simp only [count]
  omega

theorem earlier_le_left (a b : UInt64) : earlier a b ≤ a := by
  unfold earlier
  split
  · exact UInt64.le_of_lt ‹_›
  · exact UInt64.le_refl a

theorem earlier_le_right (a b : UInt64) : earlier a b ≤ b := by
  unfold earlier
  split
  · exact UInt64.le_refl b
  · exact UInt64.not_lt.mp ‹_›

/-- A pacer that blocks a packet asks to be woken after a positive time at which it lets the packet
go exactly when it wakes in time; and then the connection does not sleep past it. -/
theorem wakes_in_time_iff (p : Pacer) (bytes : UInt32) (limited : p.enabled = true)
    (rated : 0 < p.rateBps) (size : bytes.toNat ≤ p.maxBurst.toNat)
    (blocked : pacerCanSend p bytes = false) :
    let wait := pacerNextSendTime p bytes
    (0 < wait ∧ pacerCanSend (pacerUpdate p (p.lastUpdate + wait)) bytes = true ↔
      p.WakesInTime bytes) ∧
    (p.WakesInTime bytes → ∀ (conn : Conn) (nowUs : UInt64), conn.pacer = p →
      bytes = bbrMaxDatagramSize → conn.state ≠ .closed → connTimeout conn nowUs ≤ nowUs + wait) := by
  intro wait
  have rated' : p.rateBps ≠ 0 := UInt64.pos_iff_ne_zero.mp rated
  have poor : p.tokens.toNat < bytes.toNat * 1000 := by
    by_contra rich
    rw [(pacerCanSend_iff limited bytes).mpr (Nat.le_of_not_lt rich)] at blocked
    cases blocked
  have waited := pacerNextSendTime_toNat limited rated' poor
  have small : (bytes.toNat * 1000 - p.tokens.toNat) * 1000000 < 2 ^ 64 := by
    have := bytes.toNat_lt
    omega
  have positive (wakes : p.WakesInTime bytes) : 0 < wait := by
    obtain ⟨times, made⟩ := wakes.2.2.2
    rw [UInt64.pos_iff_ne_zero, ne_eq, ← UInt64.toNat_inj, waited, made]
    have step : 0 < p.rateBps.toNat * 1000 % 2 ^ 64 := by
      by_contra none
      rw [Nat.eq_zero_of_not_pos none] at made
      omega
    rw [Nat.mul_div_cancel_left _ step]
    rintro rfl
    simp only [UInt64.toNat_zero, Nat.mul_zero] at made
    omega
  refine ⟨⟨?_, ?_⟩, ?_⟩
  · rintro ⟨some, sends⟩
    -- A clock that does not run, or that goes back, adds no token.
    have idle (same : (pacerUpdate p (p.lastUpdate + wait)).tokens = p.tokens ∧
        (pacerUpdate p (p.lastUpdate + wait)).enabled = true) : False := by
      have paid := (pacerCanSend_iff same.2 bytes).mp sends
      rw [same.1] at paid
      omega
    have running : p.timeInitialized = true := by
      by_contra stopped
      exact idle (by simp [pacerUpdate, limited, rated', stopped])
    have forward : p.lastUpdate.toNat + wait.toNat < 2 ^ 64 := by
      by_contra wrapped
      have back : p.lastUpdate + wait ≤ p.lastUpdate := by
        have := p.lastUpdate.toNat_lt
        have := wait.toNat_lt
        rw [UInt64.le_iff_toNat_le, UInt64.toNat_add]
        omega
      exact idle (by simp [pacerUpdate, limited, rated', running, back])
    exact ⟨running, waited ▸ forward,
      (pacerCanSend_woken_iff limited rated' poor running some forward).mp sends⟩
  · intro wakes
    exact ⟨positive wakes, (pacerCanSend_woken_iff limited rated' poor wakes.1 (positive wakes)
      (by rw [waited]; exact wakes.2.1)).mpr wakes.2.2⟩
  · rintro wakes conn nowUs rfl rfl live
    have armed : 0 < pacerNextSendTime conn.pacer bbrMaxDatagramSize := positive wakes
    unfold connTimeout
    simp only [if_neg live, limited, armed, gt_iff_lt, and_self, if_true]
    exact UInt64.le_trans (earlier_le_left ..) (earlier_le_right ..)

/-- A pacer at a million octets a second wakes in time for a datagram. -/
theorem wakes_in_time_million :
    let p : Pacer := ⟨1000000, 0, 7, 12000, true, true⟩
    0 < pacerNextSendTime p 1200 ∧
      pacerCanSend (pacerUpdate p (7 + pacerNextSendTime p 1200)) 1200 = true :=
  (wakes_in_time_iff ⟨1000000, 0, 7, 12000, true, true⟩ 1200 rfl (by decide) (by decide)
    (by decide)).1.mpr ⟨rfl, by decide, by simp [Pacer.cap], by decide⟩

/-- At seven million octets a second the wait for a datagram is rounded down to 171 microseconds,
after which the datagram is still three octets short. -/
theorem wakes_too_early :
    let p : Pacer := ⟨7000000, 0, 0, 12000, true, true⟩
    pacerCanSend p 1200 = false ∧ pacerNextSendTime p 1200 = 171 ∧
      (pacerUpdate p 171).tokens = 1197000 ∧ pacerCanSend (pacerUpdate p 171) 1200 = false := by
  decide

end WakeUp

end Nxp
