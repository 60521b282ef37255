import Nxp.Crypto.StrikeRegister

/-! Which ticket nonces the strike register protects against replay. -/

namespace Nxp

variable {nonces : Set Bytes}

/-- In a sequence of uses no nonce is accepted twice within a lifetime, and none is refused before
it was presented. -/
structure Protected (calls : List StrikeCall) : Prop where
  once : ∀ before first between second after,
    calls = before ++ first :: (between ++ second :: after) →
      first.ticketNonce = second.ticketNonce →
      second.nowUs.toNat ≤ first.nowUs.toNat + ticketMaxAgeUs →
      ¬ ((strikeRegisterAfter before).accepts first = true ∧
        (strikeRegisterAfter (before ++ first :: between)).accepts second = true)
  fresh : ∀ before call after, calls = before ++ call :: after →
    (∀ earlier ∈ before, earlier.ticketNonce ≠ call.ticketNonce) →
      (strikeRegisterAfter before).accepts call = true

/-- Uses of some nonces, in the order of their times. -/
structure UsesOf (nonces : Set Bytes) (calls : List StrikeCall) : Prop where
  drawn : ∀ call ∈ calls, call.ticketNonce ∈ nonces
  ordered : calls.Pairwise fun first second => first.nowUs ≤ second.nowUs

/-- Without collisions a nonce is accepted exactly when it is new. -/
theorem accepts_iff_new (apart : Set.InjOn strikeSlot nonces) {before after : List StrikeCall}
    {call : StrikeCall} (drawn : ∀ used ∈ before ++ call :: after, used.ticketNonce ∈ nonces) :
    (strikeRegisterAfter before).accepts call = true ↔
      ∀ earlier ∈ before, earlier.ticketNonce ≠ call.ticketNonce := by
  have earlierDrawn : ∀ nonce ∈ before.map StrikeCall.ticketNonce, nonce ∈ nonces := by
    intro nonce member
    obtain ⟨used, earlier, rfl⟩ := List.mem_map.mp member
    exact drawn used (List.mem_append_left _ earlier)
  rw [StrikeRegister.accepts_table, strikeRegisterAfter_table,
    (SlotTable.remembers_run apart _ earlierDrawn).admits_iff apart earlierDrawn
      (drawn call (by simp))]
  constructor
  · intro unseen earlier member same
    exact unseen (List.mem_map.mpr ⟨earlier, member, same⟩)
  · intro new seen
    obtain ⟨earlier, member, same⟩ := List.mem_map.mp seen
    exact new earlier member same

theorem protected_of_apart (apart : Set.InjOn strikeSlot nonces)
    {calls : List StrikeCall} (uses : UsesOf nonces calls) : Protected calls := by
  constructor
  · rintro before first between second after rfl same - ⟨-, again⟩
    -- The second use would have to be of a new nonce.
    have drawn : ∀ used ∈ (before ++ first :: between) ++ second :: after,
        used.ticketNonce ∈ nonces := fun used member => uses.drawn used (by simpa using member)
    exact (accepts_iff_new apart drawn).mp again first (by simp) same
  · rintro before call after rfl new
    exact (accepts_iff_new apart uses.drawn).mpr new

/-- The first of two nonces, then the second, then the first again, all at one time. -/
def interleaved (first second : Bytes) : List StrikeCall :=
  [⟨first, 0⟩, ⟨second, 0⟩, ⟨first, 0⟩]

/-- Two nonces that share a slot are not protected when used in turn. -/
theorem interleaved_unprotected {first second : Bytes} (distinct : first ≠ second)
    (shared : strikeSlot first = strikeSlot second) : ¬ Protected (interleaved first second) := by
  intro guarded
  have opened : (strikeRegisterAfter []).accepts ⟨first, 0⟩ = true :=
    guarded.fresh [] ⟨first, 0⟩ [⟨second, 0⟩, ⟨first, 0⟩] rfl (by simp)
  -- Either the second is refused though it is new, or the first is accepted again.
  have undone := SlotTable.shared_slot
    (show strikeIndex (hashTicket first) = strikeIndex (hashTicket second) from shared)
    (strikeRegisterAfter []).table
  rcases undone with refused | again
  · have new := guarded.fresh [⟨first, 0⟩] ⟨second, 0⟩ [⟨first, 0⟩] rfl (by simpa using distinct)
    have taken : (strikeRegisterAfter [⟨first, 0⟩]).table =
        SlotTable.record hashTicket strikeIndex (strikeRegisterAfter []).table first :=
      StrikeRegister.table_after _ _
    rw [StrikeRegister.accepts_table, taken, refused] at new
    exact Bool.false_ne_true new
  · have taken : (strikeRegisterAfter [⟨first, 0⟩, ⟨second, 0⟩]).table =
        SlotTable.record hashTicket strikeIndex
          (SlotTable.record hashTicket strikeIndex (strikeRegisterAfter []).table first) second := by
      rw [← StrikeRegister.table_after _ ⟨first, 0⟩, ← StrikeRegister.table_after _ ⟨second, 0⟩]
      rfl
    have repeated : (strikeRegisterAfter [⟨first, 0⟩, ⟨second, 0⟩]).accepts ⟨first, 0⟩ = true := by
      rw [StrikeRegister.accepts_table, taken]
      exact again
    exact guarded.once [] ⟨first, 0⟩ [⟨second, 0⟩] ⟨first, 0⟩ [] rfl rfl (Nat.le_add_right _ _)
      ⟨opened, repeated⟩

/-- All uses of some nonces are protected exactly when no two of them share a slot. -/
theorem nonces_protected (nonces : Set Bytes) :
    (∀ calls, UsesOf nonces calls → Protected calls) ↔ Set.InjOn strikeSlot nonces := by
  constructor
  · intro all first firstMember second secondMember shared
    by_contra distinct
    refine interleaved_unprotected distinct shared (all _ ⟨?_, ?_⟩)
    · intro call member
      simp only [interleaved, List.mem_cons, List.not_mem_nil, or_false] at member
      rcases member with rfl | rfl | rfl
      · exact firstMember
      · exact secondMember
      · exact firstMember
    · simp [interleaved]
  · exact fun apart calls uses => protected_of_apart apart uses

/-- A nonce of zeros. -/
def zeroNonce : Bytes := List.replicate 12 0

/-- A nonce with the slot of the one of zeros. -/
def slotMate : Bytes := List.replicate 10 0 ++ [11, 229]

/-- A nonce is accepted, then one that shares its slot, and then the first once more. -/
theorem nonce_accepted_twice :
    (strikeRegisterAfter []).accepts ⟨zeroNonce, 0⟩ = true ∧
      (strikeRegisterAfter [⟨zeroNonce, 0⟩, ⟨slotMate, 0⟩]).accepts ⟨zeroNonce, 0⟩ = true := by
  decide +kernel

end Nxp
