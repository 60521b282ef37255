import Nxp.Congestion.Pacing

/-! What the pacer's operations do to its tokens, in plain numbers. -/

namespace Nxp

variable (rateBps : UInt64) {nowUs : UInt64}

variable {p : Pacer}

/-- Tokens that the code adds for a span of time, as far as its product fits in a word. -/
def freshTokens (rateBps elapsed : UInt64) : Nat :=
  rateBps.toNat * elapsed.toNat * 1000 % 2 ^ 64 / 1000000

/-- A thousand tokens never stand for more than a thousandth of a rate times its span. -/
theorem freshTokens_le (elapsed : UInt64) :
    1000 * freshTokens rateBps elapsed ≤ rateBps.toNat * elapsed.toNat := by
  have wrapped := Nat.mod_le (rateBps.toNat * elapsed.toNat * 1000) (2 ^ 64)
  unfold freshTokens
  omega

/-- Few tokens are added at a time, compared with what a word holds. -/
theorem freshTokens_lt (elapsed : UInt64) :
    freshTokens rateBps elapsed < 2 ^ 64 / 1000000 + 1 := by
  have wrapped := Nat.mod_lt (rateBps.toNat * elapsed.toNat * 1000) (Nat.two_pow_pos 64)
  unfold freshTokens
  omega

/-- No token comes of no time. -/
@[simp] theorem freshTokens_zero : freshTokens rateBps 0 = 0 := by
  simp [freshTokens]

/-- Tokens of a full bucket. -/
def Pacer.cap (p : Pacer) : Nat := p.maxBurst.toNat * 1000

/-- A bucket that is limited exactly when it has a rate, is not overfull, and has room in its words
for what is added to a full one. -/
structure Pacer.Sound (p : Pacer) : Prop where
  limited : p.enabled = true ↔ p.rateBps ≠ 0
  within : p.tokens.toNat ≤ p.cap
  fits : p.cap + 2 ^ 64 / 1000000 < 2 ^ 64

/-- The pacer of a new connection is sound at every rate. -/
theorem Pacer.Sound.create : (pacerSetRate pacerInit rateBps).Sound where
  limited := by simp [pacerSetRate, UInt64.pos_iff_ne_zero]
  within := by simp [Pacer.cap, pacerSetRate, pacerInit, pacerMaxBurst, tokenScale]
  fits := by simp [Pacer.cap, pacerSetRate, pacerInit, pacerMaxBurst]

/-- What an update does when time has gone by: the tokens of the span are added, and what overflows
is lost. -/
theorem pacerUpdate_later (limited : p.enabled = true) (rated : p.rateBps ≠ 0)
    (running : p.timeInitialized = true) (later : p.lastUpdate < nowUs) :
    ∃ tokens : UInt64, pacerUpdate p nowUs = { p with lastUpdate := nowUs, tokens := tokens } ∧
      tokens.toNat = min (p.cap % 2 ^ 64)
        ((p.tokens.toNat + freshTokens p.rateBps (nowUs - p.lastUpdate)) % 2 ^ 64) := by
  have moved : ¬ nowUs ≤ p.lastUpdate := UInt64.not_le.mpr later
  refine ⟨_, by simp [pacerUpdate, limited, rated, running, moved]; rfl, ?_⟩
  unfold freshTokens Pacer.cap
  rw [apply_ite UInt64.toNat]
  simp only [UInt64.lt_iff_toNat_lt, UInt64.toNat_add, UInt64.toNat_mul, UInt64.toNat_div,
    tokenScale, Nat.mod_mul_mod, UInt64.reduceToNat]
  split <;> omega

/-- What an update does to a bucket at work: without a span of time nothing, and otherwise it adds.
-/
theorem pacerUpdate_works (limited : p.enabled = true) (rated : p.rateBps ≠ 0)
    (running : p.timeInitialized = true) (forward : p.lastUpdate ≤ nowUs) :
    ∃ tokens : UInt64, pacerUpdate p nowUs = { p with lastUpdate := nowUs, tokens := tokens } ∧
      (nowUs = p.lastUpdate ∧ tokens = p.tokens ∨ p.lastUpdate < nowUs ∧
        tokens.toNat = min (p.cap % 2 ^ 64)
          ((p.tokens.toNat + freshTokens p.rateBps (nowUs - p.lastUpdate)) % 2 ^ 64)) := by
  by_cases still : nowUs ≤ p.lastUpdate
  · have same : nowUs = p.lastUpdate := UInt64.le_antisymm still forward
    subst same
    have idle : pacerUpdate p p.lastUpdate = p := by simp [pacerUpdate, running]
    exact ⟨p.tokens, idle, .inl ⟨rfl, rfl⟩⟩
  · have later := UInt64.not_le.mp still
    obtain ⟨tokens, updated, count⟩ := pacerUpdate_later limited rated running later
    exact ⟨tokens, updated, .inr ⟨later, count⟩⟩

/-- In a sound bucket whose clock runs, nothing leaves the words it is computed in. -/
theorem pacerUpdate_running (sound : p.Sound) (rated : p.rateBps ≠ 0)
    (running : p.timeInitialized = true) (forward : p.lastUpdate ≤ nowUs) :
    ∃ tokens : UInt64, pacerUpdate p nowUs = { p with lastUpdate := nowUs, tokens := tokens } ∧
      tokens.toNat = min p.cap (p.tokens.toNat + freshTokens p.rateBps (nowUs - p.lastUpdate)) := by
  have within := sound.within
  have fits := sound.fits
  have fresh := freshTokens_lt p.rateBps (nowUs - p.lastUpdate)
  obtain ⟨tokens, updated, ⟨same, kept⟩ | ⟨-, count⟩⟩ :=
    pacerUpdate_works (sound.limited.mpr rated) rated running forward
  · refine ⟨tokens, updated, ?_⟩
    rw [same, kept, UInt64.sub_self, freshTokens_zero]
    omega
  · refine ⟨tokens, updated, ?_⟩
    rw [count, Nat.mod_eq_of_lt (by omega), Nat.mod_eq_of_lt (by omega)]

/-- A first update only starts the clock. -/
theorem pacerUpdate_first (sound : p.Sound) (rated : p.rateBps ≠ 0)
    (stopped : p.timeInitialized = false) (nowUs : UInt64) :
    pacerUpdate p nowUs = { p with lastUpdate := nowUs, timeInitialized := true } := by
  simp [pacerUpdate, sound.limited.mpr rated, rated, stopped]

/-- What a packet costs. -/
theorem cost_toNat (bytes : UInt32) :
    (bytes.toUInt64 * tokenScale).toNat = bytes.toNat * 1000 := by
  have small := bytes.toNat_lt
  rw [UInt64.toNat_mul, UInt32.toNat_toUInt64]
  exact Nat.mod_eq_of_lt (by simp only [tokenScale, UInt64.reduceToNat]; omega)

/-- A limited pacer lets a packet go when it can pay for it. -/
theorem pacerCanSend_iff (limited : p.enabled = true) (bytes : UInt32) :
    pacerCanSend p bytes = true ↔ bytes.toNat * 1000 ≤ p.tokens.toNat := by
  simp only [pacerCanSend, limited, Bool.not_true, Bool.false_or, ge_iff_le, decide_eq_true_eq,
    UInt64.le_iff_toNat_le, cost_toNat]

/-- A packet that was let go is paid for. -/
theorem pacerOnSend_paid (limited : p.enabled = true) {bytes : UInt32}
    (paid : bytes.toNat * 1000 ≤ p.tokens.toNat) :
    ∃ tokens : UInt64, pacerOnSend p bytes = { p with tokens := tokens } ∧
      tokens.toNat = p.tokens.toNat - bytes.toNat * 1000 := by
  have enough : bytes.toUInt64 * tokenScale ≤ p.tokens := by
    rw [UInt64.le_iff_toNat_le, cost_toNat]
    exact paid
  refine ⟨p.tokens - bytes.toUInt64 * tokenScale, by simp [pacerOnSend, limited, enough], ?_⟩
  rw [UInt64.toNat_sub_of_le _ _ enough, cost_toNat]

end Nxp
