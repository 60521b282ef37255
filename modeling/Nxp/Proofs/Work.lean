import Nxp.Crypto.KeyLaws
import Nxp.Crypto.ProofOfWork

/-! The puzzle's answer is the smallest good nonce, and the server takes it until it expires. -/

namespace Nxp

/-- A bit of a hash, counted from the most significant bit of its first octet. -/
def hashBit (hash : Key) (i : Nat) : Bool :=
  (hash.getD (i / 8) 0).toBitVec.getMsbD (i % 8)

/-- The first bits of a hash are all zero. -/
def LeadingZeros (hash : Key) (count : Nat) : Prop :=
  ∀ i < count, hashBit hash i = false

/-- A nonce whose hash has the zeros the challenge asks for. -/
def PowChallenge.Solved (evp : Evp) (challenge : PowChallenge) (nonce : UInt64) : Prop :=
  ∃ hash, powHash evp challenge.challenge (nonceBytes nonce) = some hash ∧
    LeadingZeros hash challenge.difficulty.toNat

/-- A nonce whose hash lacks one of them. -/
def PowChallenge.Missed (evp : Evp) (challenge : PowChallenge) (nonce : UInt64) : Prop :=
  ∃ hash, powHash evp challenge.challenge (nonceBytes nonce) = some hash ∧
    ¬LeadingZeros hash challenge.difficulty.toNat

/-- What solving and verifying promise about one challenge. -/
structure PowRight (evp : Evp) (challenge : PowChallenge) : Prop where
  /-- Success comes with the smallest nonce that solves the challenge. -/
  smallest : ∀ maxIterations turns solution,
    powSolve evp challenge maxIterations turns = some (.ok solution) →
      ∃ nonce, solution = ⟨challenge.challenge, nonceBytes nonce⟩ ∧
        challenge.Solved evp nonce ∧ ∀ earlier < nonce, challenge.Missed evp earlier
  /-- Such a nonce within the limit is found. -/
  found : ∀ maxIterations nonce, challenge.Solved evp nonce →
    (∀ earlier < nonce, challenge.Missed evp earlier) →
      (maxIterations = 0 ∨ nonce < maxIterations) → ∀ turns > nonce.toNat,
        powSolve evp challenge maxIterations turns =
          some (.ok ⟨challenge.challenge, nonceBytes nonce⟩)
  /-- The search gives up in the turn that makes the last allowed nonce fail. -/
  gives_up : ∀ maxIterations turns,
    powSolve evp challenge maxIterations turns = some (.error .wouldBlock) ↔
      0 < maxIterations ∧ maxIterations.toNat ≤ turns ∧
        ∀ nonce < maxIterations, challenge.Missed evp nonce
  /-- A solution returned is accepted until the challenge expires. -/
  verified : ∀ maxIterations turns solution,
    powSolve evp challenge maxIterations turns = some (.ok solution) →
      ∀ nowUs, powVerify evp challenge solution nowUs =
        if nowUs ≤ challenge.expiryUs then .ok else .tokenInvalid
  /-- The test of a hash reads its first bits. -/
  checked : ∀ hash, powCheckHash hash challenge.difficulty = true ↔
    LeadingZeros hash challenge.difficulty.toNat

/-- Masking an octet's low bits away leaves zero when the bits above them are zero. -/
theorem masked_eq_zero (octet : UInt8) (bits : Nat) (any : 0 < bits) (few : bits ≤ 8) :
    octet &&& ((0xFF : UInt8) <<< (8 - UInt8.ofNat bits)) = 0 ↔
      ∀ i < bits, octet.toBitVec.getMsbD i = false := by
  have masks : ∀ bits : Fin 9, 0 < bits.val → ∀ i : Fin 8,
      ((0xFF : UInt8) <<< (8 - UInt8.ofNat bits)).toBitVec.getMsbD i = decide (i.val < bits) := by
    decide
  have mask : ∀ i < 8, ((0xFF : UInt8) <<< (8 - UInt8.ofNat bits)).toBitVec.getMsbD i =
      decide (i < bits) := by
    intro i inside
    exact masks ⟨bits, by omega⟩ any ⟨i, inside⟩
  rw [← UInt8.toBitVec_inj, UInt8.toBitVec_and]
  constructor
  · intro zero i inside
    have bit := congrArg (BitVec.getMsbD · i) zero
    rw [BitVec.getMsbD_and, mask i (by omega)] at bit
    simpa [inside] using bit
  · intro zeros
    apply BitVec.eq_of_getMsbD_eq
    intro i inside
    rw [BitVec.getMsbD_and, mask i inside]
    by_cases above : i < bits
    · simp [zeros i above]
    · simp [above]

theorem octet_eq_zero (octet : UInt8) :
    octet = 0 ↔ ∀ i < 8, octet.toBitVec.getMsbD i = false := by
  have whole : octet &&& 0xFF = octet :=
    UInt8.toNat_inj.mp (Nat.and_two_pow_sub_one_of_lt_two_pow (n := 8) octet.toNat_lt)
  rw [← masked_eq_zero octet 8 (by decide) (by decide)]
  exact iff_of_eq (congrArg (· = 0) whole.symm)

/-- Zero bits up to a place are zero octets before it and zero bits in the octet it lies in. -/
theorem leadingZeros_iff (hash : Key) (count : Nat) :
    LeadingZeros hash count ↔
      (∀ i < count / 8, hash.getD i 0 = 0) ∧
        ∀ i < count % 8, (hash.getD (count / 8) 0).toBitVec.getMsbD i = false := by
  constructor
  · intro zeros
    constructor
    · intro octet before
      rw [octet_eq_zero]
      intro i inside
      have bit := zeros (8 * octet + i) (by omega)
      rwa [hashBit, show (8 * octet + i) / 8 = octet by omega,
        show (8 * octet + i) % 8 = i by omega] at bit
    · intro i inside
      have bit := zeros (8 * (count / 8) + i) (by omega)
      rwa [hashBit, show (8 * (count / 8) + i) / 8 = count / 8 by omega,
        show (8 * (count / 8) + i) % 8 = i by omega] at bit
  · rintro ⟨octets, bits⟩ i inside
    rw [hashBit]
    by_cases before : i / 8 < count / 8
    · exact (octet_eq_zero _).mp (octets _ before) _ (by omega)
    · rw [show i / 8 = count / 8 by omega]
      exact bits _ (by omega)

theorem all_zero_iff (hash : Key) (count : Nat) (inside : count ≤ 32) :
    (hash.toList.take count).any (· ≠ 0) = false ↔ ∀ i < count, hash.getD i 0 = 0 := by
  rw [List.any_eq_false]
  constructor
  · intro zeros i before
    have within : i < 32 := by omega
    have here : hash[i] ∈ hash.toList.take count :=
      List.mem_take_iff_getElem.mpr ⟨i, by simp; omega, by simp⟩
    simpa [Vector.getD, within] using zeros _ here
  · intro zeros octet listed
    obtain ⟨i, before, same⟩ := List.mem_take_iff_getElem.mp listed
    have within : i < 32 := by simp at before; omega
    have zero := zeros i (by omega)
    simp_all [Vector.getD]

/-- The test by octets and a mask reads the first bits of a hash. -/
theorem powCheckHash_iff (hash : Key) (difficulty : UInt8) (bounded : difficulty ≤ 32) :
    powCheckHash hash difficulty = true ↔ LeadingZeros hash difficulty.toNat := by
  have few : difficulty.toNat ≤ 32 := UInt8.le_iff_toNat_le.mp bounded
  have full : (difficulty / 8).toNat = difficulty.toNat / 8 := by simp
  have rest : difficulty % 8 = UInt8.ofNat (difficulty.toNat % 8) := by
    apply UInt8.toNat_inj.mp
    simp
    omega
  have left : difficulty % 8 > 0 ↔ 0 < difficulty.toNat % 8 := by
    rw [gt_iff_lt, UInt8.lt_iff_toNat_lt]
    simp
  rw [leadingZeros_iff, ← all_zero_iff hash _ (by omega)]
  unfold powCheckHash
  by_cases zero : difficulty = 0
  · simp [zero]
  · rw [if_neg zero, if_neg (by simpa [powMaxDifficulty] using bounded)]
    simp only [full, left]
    cases octets : (hash.toList.take (difficulty.toNat / 8)).any (· ≠ 0) with
    | true => simp
    | false =>
      by_cases cut : 0 < difficulty.toNat % 8
      · have inside : difficulty.toNat / 8 < 32 := by omega
        simp only [cut, inside, rest, true_and, if_true]
        simpa using masked_eq_zero _ _ cut (by omega)
      · simp [show difficulty.toNat % 8 = 0 by omega]

section Search

variable {evp : Evp} {challenge : PowChallenge} (bounded : challenge.difficulty ≤ 32)
  {maxIterations nonce iterations : UInt64} {turns : Nat}

include bounded

/-- A nonce that solves the challenge ends the search. -/
theorem powSearch_solved (solved : challenge.Solved evp nonce) :
    powSearch evp challenge maxIterations (turns + 1) nonce iterations =
      some (.ok ⟨challenge.challenge, nonceBytes nonce⟩) := by
  obtain ⟨hash, hashed, zeros⟩ := solved
  simp [powSearch, hashed, (powCheckHash_iff hash _ bounded).mpr zeros]

/-- A nonce that misses uses up one iteration. -/
theorem powSearch_missed (missed : challenge.Missed evp nonce) :
    powSearch evp challenge maxIterations (turns + 1) nonce iterations =
      if maxIterations > 0 ∧ iterations + 1 ≥ maxIterations then some (.error .wouldBlock)
      else powSearch evp challenge maxIterations turns (nonce + 1) (iterations + 1) := by
  obtain ⟨hash, hashed, short⟩ := missed
  simp [powSearch, hashed, mt (powCheckHash_iff hash _ bounded).mp short]

omit bounded in
/-- A nonce that cannot be hashed, or else solves the challenge or misses. -/
theorem nonce_cases (evp : Evp) (challenge : PowChallenge) (nonce : UInt64) :
    powHash evp challenge.challenge (nonceBytes nonce) = none ∨
      challenge.Solved evp nonce ∨ challenge.Missed evp nonce := by
  cases hashed : powHash evp challenge.challenge (nonceBytes nonce) with
  | none => exact .inl rfl
  | some hash =>
    by_cases zeros : LeadingZeros hash challenge.difficulty.toNat
    · exact .inr (.inl ⟨hash, hashed, zeros⟩)
    · exact .inr (.inr ⟨hash, hashed, zeros⟩)

omit bounded in
/-- After one more miss every nonce below the next one has missed. -/
theorem missed_next (tried : ∀ earlier < nonce, challenge.Missed evp earlier)
    (missed : challenge.Missed evp nonce) :
    ∀ earlier < nonce + 1, challenge.Missed evp earlier := by
  intro earlier below
  have reached := UInt64.lt_iff_toNat_lt.mp below
  rcases Nat.lt_or_ge earlier.toNat nonce.toNat with before | after
  · exact tried earlier (UInt64.lt_iff_toNat_lt.mpr before)
  · -- A nonce that wrapped has nothing below it.
    have same : earlier = nonce := by
      apply UInt64.toNat_inj.mp
      simp only [UInt64.toNat_add, UInt64.reduceToNat] at reached
      omega
    exact same ▸ missed

/-- The search succeeds with nothing but the smallest nonce. -/
theorem powSearch_ok {solution : PowSolution}
    (tried : ∀ earlier < nonce, challenge.Missed evp earlier)
    (ended : powSearch evp challenge maxIterations turns nonce iterations =
      some (.ok solution)) :
    ∃ nonce, solution = ⟨challenge.challenge, nonceBytes nonce⟩ ∧
      challenge.Solved evp nonce ∧ ∀ earlier < nonce, challenge.Missed evp earlier := by
  -- The invariant of the loop is that all smaller nonces have missed.
  induction turns generalizing nonce iterations with
  | zero => simp [powSearch] at ended
  | succ turns ih =>
    rcases nonce_cases evp challenge nonce with unhashed | solved | missed
    · simp [powSearch, unhashed] at ended
    · rw [powSearch_solved bounded solved] at ended
      refine ⟨nonce, ?_, solved, tried⟩
      injection ended with answer
      injection answer with answer
      exact answer.symm
    · rw [powSearch_missed bounded missed] at ended
      split at ended
      · simp at ended
      · exact ih (missed_next tried missed) ended

/-- The search reaches the smallest nonce when the limit lies above it. -/
theorem powSearch_finds {target : UInt64} (solved : challenge.Solved evp target)
    (missed : ∀ earlier < target, challenge.Missed evp earlier)
    (within : maxIterations = 0 ∨ target < maxIterations) (start : nonce ≤ target)
    (enough : target.toNat < nonce.toNat + turns) :
    powSearch evp challenge maxIterations turns nonce nonce =
      some (.ok ⟨challenge.challenge, nonceBytes target⟩) := by
  have start := UInt64.le_iff_toNat_le.mp start
  induction turns generalizing nonce with
  | zero => omega
  | succ turns ih =>
    by_cases here : nonce = target
    · rw [here, powSearch_solved bounded solved]
    · have before : nonce.toNat < target.toNat := by
        have apart := mt UInt64.toNat_inj.mp here
        omega
      have next : (nonce + 1).toNat = nonce.toNat + 1 := by
        have := target.toNat_lt
        simp only [UInt64.toNat_add, UInt64.reduceToNat]
        omega
      have going : ¬(maxIterations > 0 ∧ nonce + 1 ≥ maxIterations) := by
        rintro ⟨limited, spent⟩
        have spent := UInt64.le_iff_toNat_le.mp spent
        rcases within with unlimited | within
        · exact absurd limited (by simp [unlimited])
        · have := UInt64.lt_iff_toNat_lt.mp within
          omega
      rw [powSearch_missed bounded (missed nonce (UInt64.lt_iff_toNat_lt.mpr before)),
        if_neg going]
      exact ih (UInt64.le_iff_toNat_le.mpr (by omega)) (by omega) (by omega)

omit bounded in
theorem not_missed_of_solved (solved : challenge.Solved evp nonce) :
    ¬challenge.Missed evp nonce := by
  rintro ⟨other, again, short⟩
  obtain ⟨hash, hashed, zeros⟩ := solved
  rw [hashed] at again
  injection again with same
  exact short (same ▸ zeros)

/-- The search gives up exactly when it has run through all nonces of the limit. -/
theorem powSearch_wouldBlock (within : maxIterations = 0 ∨ nonce < maxIterations)
    (tried : ∀ earlier < nonce, challenge.Missed evp earlier) :
    powSearch evp challenge maxIterations turns nonce nonce = some (.error .wouldBlock) ↔
      0 < maxIterations ∧ maxIterations.toNat ≤ nonce.toNat + turns ∧
        ∀ earlier < maxIterations, challenge.Missed evp earlier := by
  have reached : 0 < maxIterations → nonce.toNat < maxIterations.toNat := by
    intro limited
    rcases within with unlimited | within
    · exact absurd limited (by simp [unlimited])
    · exact UInt64.lt_iff_toNat_lt.mp within
  induction turns generalizing nonce with
  | zero =>
    constructor
    · intro ended
      simp [powSearch] at ended
    · rintro ⟨limited, spent, -⟩
      have := reached limited
      omega
  | succ turns ih =>
    rcases nonce_cases evp challenge nonce with unhashed | solved | missed
    · constructor
      · intro ended
        simp [powSearch, unhashed] at ended
      · rintro ⟨limited, -, all⟩
        obtain ⟨hash, hashed, -⟩ := all nonce (UInt64.lt_iff_toNat_lt.mpr (reached limited))
        simp [unhashed] at hashed
    · rw [powSearch_solved bounded solved]
      constructor
      · intro ended
        simp at ended
      · rintro ⟨limited, -, all⟩
        exact absurd (all nonce (UInt64.lt_iff_toNat_lt.mpr (reached limited)))
          (not_missed_of_solved solved)
    · have more := missed_next tried missed
      have bound := maxIterations.toNat_lt
      have step : 0 < maxIterations → (nonce + 1).toNat = nonce.toNat + 1 := by
        intro limited
        have := reached limited
        simp only [UInt64.toNat_add, UInt64.reduceToNat]
        omega
      rw [powSearch_missed bounded missed]
      split
      case isTrue stopped =>
        -- The nonce was the last one below the limit.
        have spent := UInt64.le_iff_toNat_le.mp stopped.2
        have := step stopped.1
        have last : maxIterations = nonce + 1 := by
          apply UInt64.toNat_inj.mp
          have := reached stopped.1
          omega
        exact iff_of_true rfl ⟨stopped.1, by omega, last ▸ more⟩
      case isFalse going =>
        have before : 0 < maxIterations → (nonce + 1).toNat < maxIterations.toNat := by
          intro limited
          exact UInt64.lt_iff_toNat_lt.mp (UInt64.not_le.mp fun spent => going ⟨limited, spent⟩)
        have still : maxIterations = 0 ∨ nonce + 1 < maxIterations := by
          by_cases limited : 0 < maxIterations
          · exact .inr (UInt64.lt_iff_toNat_lt.mpr (before limited))
          · exact .inl (UInt64.le_zero_iff.mp (UInt64.not_lt.mp limited))
        refine (ih still more before).trans (and_congr_right ?_)
        intro limited
        rw [step limited, Nat.add_right_comm, Nat.add_assoc]

end Search

/-- Solving and verifying are right for every challenge of an allowed difficulty. -/
theorem pow_right (evp : Evp) (challenge : PowChallenge)
    (bounded : challenge.difficulty ≤ powMaxDifficulty) : PowRight evp challenge := by
  have none_before : ∀ earlier < (0 : UInt64), challenge.Missed evp earlier := by
    intro earlier below
    exact absurd below (UInt64.not_lt_zero)
  refine ⟨?_, ?_, ?_, ?_, ?_⟩
  · intro maxIterations turns solution ended
    exact powSearch_ok bounded none_before ended
  · intro maxIterations nonce solved missed within turns enough
    exact powSearch_finds bounded solved missed within (UInt64.zero_le) (by simpa using enough)
  · intro maxIterations turns
    have start : maxIterations = 0 ∨ 0 < maxIterations := by
      by_cases unlimited : maxIterations = 0
      · exact .inl unlimited
      · exact .inr (UInt64.pos_iff_ne_zero.mpr unlimited)
    refine (powSearch_wouldBlock bounded start none_before).trans ?_
    rw [UInt64.toNat_zero, Nat.zero_add]
  · intro maxIterations turns solution ended nowUs
    obtain ⟨nonce, rfl, ⟨hash, hashed, zeros⟩, -⟩ := powSearch_ok bounded none_before ended
    have passes := (powCheckHash_iff hash _ bounded).mpr zeros
    by_cases valid : nowUs ≤ challenge.expiryUs
    · simp [powVerify, valid, UInt64.not_lt.mpr valid, hashed, passes]
    · simp [powVerify, valid, UInt64.not_le.mp valid]
  · intro hash
    exact powCheckHash_iff hash _ bounded

/-- Hashes that count down to zero as the nonce goes up. -/
private def countdownEvp : Evp :=
  { plainEvp with sha256 := fun data => some (Vector.replicate 32 (3 - data.getD 16 0)) }

/-- A challenge whose first three nonces miss. -/
theorem pow_right_countdown :
    powSolve countdownEvp ⟨Vector.replicate 16 7, 20, 900⟩ 0 4 =
        some (.ok ⟨Vector.replicate 16 7, nonceBytes 3⟩) ∧
      PowRight countdownEvp ⟨Vector.replicate 16 7, 20, 900⟩ :=
  ⟨by rfl, pow_right _ _ (by decide)⟩

end Nxp
