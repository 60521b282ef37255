import Nxp.Core.Migration
import Nxp.Lib.Machine

/-! The pool of peer identifiers stays in order whatever the peer offers. -/

namespace Nxp

variable {pool : CidPool} {slot : Nat} {after entry : CidEntry} {ms : MigrationState}
  {seqNum : UInt64}

/-- What happens to the pool: the peer offers an identifier, or the connection turns to one that is
not used yet. -/
inductive PoolEvent where
  | offered (cid : ConnId) (seqNum retirePriorTo : UInt64) (token : Vector UInt8 16)
  | rotated

/-- Turn to the first unused identifier, if there is one. -/
def rotateDcid (ms : MigrationState) : MigrationState :=
  match migrationGetUnusedCid ms with
  | none => ms
  | some entry => migrationUseCid ms entry.seqNum

/-- What such an event does. -/
def poolStep (ms : MigrationState) : PoolEvent → MigrationState
  | .offered cid seqNum retirePriorTo token =>
    migrationOnNewConnectionId ms cid seqNum retirePriorTo token
  | .rotated => rotateDcid ms

/-- What an entry was inserted with. -/
def CidEntry.issue (entry : CidEntry) : ConnId × UInt64 × Vector UInt8 16 :=
  (entry.cid, entry.seqNum, entry.statelessResetToken)

/-- Entries have numbers of their own, at most one is in use, and that one is not retired. -/
structure CidPool.Sound (pool : CidPool) : Prop where
  distinct : ∀ {i j : Nat} {one two : CidEntry}, pool.entries[i]? = some one →
    pool.entries[j]? = some two → one.seqNum = two.seqNum → i = j
  single : ∀ {i j : Nat} {one two : CidEntry}, pool.entries[i]? = some one →
    pool.entries[j]? = some two → one.inUse = true → two.inUse = true → i = j
  live : ∀ {i : Nat} {entry : CidEntry}, pool.entries[i]? = some entry →
    entry.inUse = true → entry.retired = false

/-- Since it was offered, an identifier stands in a slot that was free or retired by then. -/
def HeldSince (events : List PoolEvent) (slot : Nat)
    (issue : ConnId × UInt64 × Vector UInt8 16) : Prop :=
  ∃ past retirePriorTo since,
    events = past ++ .offered issue.1 issue.2.1 retirePriorTo issue.2.2 :: since ∧
    (∀ entry, (Machine.run poolStep migrationInit past).peerCidPool.entries[slot]? = some entry →
      (retireEntry retirePriorTo entry).retired = true) ∧
    ∀ first rest, since = first ++ rest →
      ∃ held, (Machine.run poolStep migrationInit
          (past ++ .offered issue.1 issue.2.1 retirePriorTo issue.2.2 :: first)).peerCidPool.entries[
            slot]? = some held ∧ held.issue = issue

theorem retireEntry_issue (retirePriorTo : UInt64) (entry : CidEntry) :
    (retireEntry retirePriorTo entry).issue = entry.issue := by
  unfold retireEntry
  split <;> rfl

theorem retireEntry_inUse {retirePriorTo : UInt64}
    (used : (retireEntry retirePriorTo entry).inUse = true) :
    retireEntry retirePriorTo entry = entry := by
  unfold retireEntry at used ⊢
  split at used
  · cases used
  · rename_i spared
    rw [if_neg spared]

theorem CidPool.map_slot {f : CidEntry → CidEntry}
    (here : (pool.map f).entries[slot]? = some after) :
    ∃ entry, pool.entries[slot]? = some entry ∧ after = f entry := by
  have mapped : (pool.entries.map f)[slot]? = some after := here
  rw [List.getElem?_map, Option.map_eq_some_iff] at mapped
  obtain ⟨entry, there, same⟩ := mapped
  exact ⟨entry, there, same.symm⟩

/-- Putting an entry into the pool fills one slot, which was free or retired, or none. -/
theorem CidPool.add_slots (pool : CidPool) (fresh : CidEntry) :
    (pool.add fresh).entries = pool.entries ∨
      ∃ filled, (∀ entry : CidEntry, pool.entries[filled]? = some entry → entry.retired = true) ∧
        ∀ (slot : Nat) (after : CidEntry), (pool.add fresh).entries[slot]? = some after →
          slot = filled ∧ after = fresh ∨ slot ≠ filled ∧ pool.entries[slot]? = some after := by
  unfold CidPool.add
  split
  · -- The slot behind the last entry is free.
    refine .inr ⟨pool.entries.length, ?_, ?_⟩
    · intro entry there
      rw [List.getElem?_eq_none (Nat.le_refl _)] at there
      cases there
    · intro slot after here
      rcases Nat.lt_or_ge slot pool.entries.length with inside | beyond
      · rw [List.getElem?_append_left inside] at here
        exact .inr ⟨Nat.ne_of_lt inside, here⟩
      · rw [List.getElem?_append_right beyond, List.getElem?_singleton] at here
        split at here
        · cases here
          exact .inl ⟨by omega, rfl⟩
        · cases here
  · cases found : pool.entries.findIdx? fun e => e.retired && !e.inUse with
    | none => exact .inl rfl
    | some reused =>
      obtain ⟨inside, spent, -⟩ := List.findIdx?_eq_some_iff_getElem.mp found
      rw [Bool.and_eq_true] at spent
      refine .inr ⟨reused, ?_, ?_⟩
      · intro entry there
        rw [List.getElem?_eq_getElem inside] at there
        cases there
        exact spent.1
      · intro slot after here
        by_cases same : slot = reused
        · subst same
          rw [List.getElem?_set_self inside] at here
          cases here
          exact .inl ⟨rfl, rfl⟩
        · rw [List.getElem?_set_ne (Ne.symm same)] at here
          exact .inr ⟨same, here⟩

theorem markInUse_slot {entries : List CidEntry}
    (here : (markInUse seqNum entries)[slot]? = some after) :
    ∃ entry, entries[slot]? = some entry ∧ after.issue = entry.issue ∧
      after.retired = entry.retired ∧ (after.inUse = true → entry.inUse = true ∨
        entry.seqNum = seqNum) := by
  -- The induction follows the search for the number.
  induction entries generalizing slot with
  | nil => cases here
  | cons first rest ih =>
    unfold markInUse at here
    split at here
    · rename_i named
      cases slot with
      | zero =>
        cases here
        exact ⟨first, rfl, rfl, rfl, fun _ => .inr named⟩
      | succ slot => exact ⟨after, here, rfl, rfl, fun used => .inl used⟩
    · cases slot with
      | zero =>
        cases here
        exact ⟨_, rfl, rfl, rfl, fun used => .inl used⟩
      | succ slot => exact ih here

theorem migrationUseCid_slot
    (here : (migrationUseCid ms seqNum).peerCidPool.entries[slot]? = some after) :
    ∃ entry, ms.peerCidPool.entries[slot]? = some entry ∧ after.issue = entry.issue ∧
      after.retired = entry.retired ∧ (after.inUse = true → entry.seqNum = seqNum) := by
  have marked : (markInUse seqNum
      (ms.peerCidPool.map fun e => { e with inUse := false }).entries)[slot]? = some after := by
    unfold migrationUseCid at here
    dsimp only at here
    split at here <;> exact here
  obtain ⟨cleared, there, issue, retired, used⟩ := markInUse_slot marked
  obtain ⟨entry, stood, rfl⟩ := CidPool.map_slot there
  exact ⟨entry, stood, issue, retired, fun now => (used now).resolve_left Bool.false_ne_true⟩

namespace CidPool.Sound

/-- Retiring entries keeps the pool in order. -/
theorem retire (sound : pool.Sound) (retirePriorTo : UInt64) :
    (pool.map (retireEntry retirePriorTo)).Sound := by
  constructor
  case distinct =>
    intro i j one two first second same
    obtain ⟨before, there, rfl⟩ := CidPool.map_slot first
    obtain ⟨other, elsewhere, rfl⟩ := CidPool.map_slot second
    refine sound.distinct there elsewhere ?_
    have left := congrArg (·.2.1) (retireEntry_issue retirePriorTo before)
    have right := congrArg (·.2.1) (retireEntry_issue retirePriorTo other)
    exact left.symm.trans (same.trans right)
  case single =>
    intro i j one two first second used alsoUsed
    obtain ⟨before, there, rfl⟩ := CidPool.map_slot first
    obtain ⟨other, elsewhere, rfl⟩ := CidPool.map_slot second
    have kept := retireEntry_inUse used
    have alsoKept := retireEntry_inUse alsoUsed
    rw [kept] at used
    rw [alsoKept] at alsoUsed
    exact sound.single there elsewhere used alsoUsed
  case live =>
    intro i entry here used
    obtain ⟨before, there, rfl⟩ := CidPool.map_slot here
    have kept := retireEntry_inUse used
    rw [kept] at used ⊢
    exact sound.live there used

/-- An unused entry with a new number may be put into the pool. -/
theorem add (sound : pool.Sound) {fresh : CidEntry}
    (unknown : ∀ entry ∈ pool.entries, entry.seqNum ≠ fresh.seqNum) (unused : fresh.inUse = false) :
    (pool.add fresh).Sound := by
  rcases pool.add_slots fresh with same | ⟨filled, -, slots⟩
  · constructor
    case distinct => rw [same]; exact sound.distinct
    case single => rw [same]; exact sound.single
    case live => rw [same]; exact sound.live
  · have old {entry : CidEntry} {slot : Nat} (there : pool.entries[slot]? = some entry) :
        entry.seqNum ≠ fresh.seqNum := unknown entry (List.mem_of_getElem? there)
    constructor
    case distinct =>
      intro i j one two first second same
      rcases slots i one first with ⟨rfl, rfl⟩ | ⟨-, there⟩
      · rcases slots j two second with ⟨rfl, -⟩ | ⟨-, elsewhere⟩
        · rfl
        · exact absurd same.symm (old elsewhere)
      · rcases slots j two second with ⟨rfl, rfl⟩ | ⟨-, elsewhere⟩
        · exact absurd same (old there)
        · exact sound.distinct there elsewhere same
    case single =>
      intro i j one two first second used alsoUsed
      rcases slots i one first with ⟨-, rfl⟩ | ⟨-, there⟩
      · rw [unused] at used
        cases used
      · rcases slots j two second with ⟨-, rfl⟩ | ⟨-, elsewhere⟩
        · rw [unused] at alsoUsed
          cases alsoUsed
        · exact sound.single there elsewhere used alsoUsed
    case live =>
      intro i entry here used
      rcases slots i entry here with ⟨-, rfl⟩ | ⟨-, there⟩
      · rw [unused] at used
        cases used
      · exact sound.live there used

/-- Turning to an unused identifier keeps the pool in order. -/
theorem rotate (sound : ms.peerCidPool.Sound) :
    (rotateDcid ms).peerCidPool.Sound := by
  unfold rotateDcid
  split
  · exact sound
  · rename_i chosen found
    -- The chosen entry stands in the pool, and no other has its number.
    have fits := List.find?_some found
    simp only [Bool.and_eq_true, Bool.not_eq_true'] at fits
    obtain ⟨place, stands⟩ := List.getElem?_of_mem (List.mem_of_find?_eq_some found)
    constructor
    case distinct =>
      intro i j one two first second same
      obtain ⟨before, there, issue, -⟩ := migrationUseCid_slot first
      obtain ⟨other, elsewhere, otherIssue, -⟩ := migrationUseCid_slot second
      refine sound.distinct there elsewhere ?_
      have left := congrArg (·.2.1) issue
      have right := congrArg (·.2.1) otherIssue
      exact left.symm.trans (same.trans right)
    case single =>
      intro i j one two first second used alsoUsed
      obtain ⟨before, there, -, -, named⟩ := migrationUseCid_slot first
      obtain ⟨other, elsewhere, -, -, otherNamed⟩ := migrationUseCid_slot second
      exact sound.distinct there elsewhere ((named used).trans (otherNamed alsoUsed).symm)
    case live =>
      intro i entry here used
      obtain ⟨before, there, -, retired, named⟩ := migrationUseCid_slot here
      obtain rfl := sound.distinct there stands (named used)
      rw [stands] at there
      cases there
      rw [retired]
      exact fits.2

end CidPool.Sound

theorem poolStep_sound (ms : MigrationState) (event : PoolEvent) (sound : ms.peerCidPool.Sound) :
    (poolStep ms event).peerCidPool.Sound := by
  cases event with
  | rotated => exact sound.rotate
  | offered cid seqNum retirePriorTo token =>
    unfold poolStep migrationOnNewConnectionId
    dsimp only
    split
    · exact sound.retire retirePriorTo
    · rename_i unknown
      refine (sound.retire retirePriorTo).add ?_ rfl
      intro entry member same
      exact unknown (List.any_eq_true.mpr ⟨entry, member, beq_iff_eq.mpr same⟩)

/-- After an event a slot holds what it held before, or what was offered if it was free or retired.
-/
theorem poolStep_slot {event : PoolEvent}
    (here : (poolStep ms event).peerCidPool.entries[slot]? = some after) :
    (∃ entry, ms.peerCidPool.entries[slot]? = some entry ∧ after.issue = entry.issue) ∨
      ∃ retirePriorTo,
        event = .offered after.cid after.seqNum retirePriorTo after.statelessResetToken ∧
        ∀ entry, ms.peerCidPool.entries[slot]? = some entry →
          (retireEntry retirePriorTo entry).retired = true := by
  cases event with
  | rotated =>
    have turned : (rotateDcid ms).peerCidPool.entries[slot]? = some after := here
    unfold rotateDcid at turned
    split at turned
    · exact .inl ⟨after, turned, rfl⟩
    · obtain ⟨entry, there, issue, -⟩ := migrationUseCid_slot turned
      exact .inl ⟨entry, there, issue⟩
  | offered cid seqNum retirePriorTo token =>
    have kept {held : CidEntry}
        (there : (ms.peerCidPool.map (retireEntry retirePriorTo)).entries[slot]? = some held) :
        ∃ entry, ms.peerCidPool.entries[slot]? = some entry ∧ held.issue = entry.issue := by
      obtain ⟨entry, stood, rfl⟩ := CidPool.map_slot there
      exact ⟨entry, stood, retireEntry_issue retirePriorTo entry⟩
    unfold poolStep migrationOnNewConnectionId at here
    dsimp only at here
    split at here
    · exact .inl (kept here)
    · rcases CidPool.add_slots (ms.peerCidPool.map (retireEntry retirePriorTo))
        ⟨cid, seqNum, token, false, false⟩ with same | ⟨filled, spent, slots⟩
      · rw [same] at here
        exact .inl (kept here)
      · rcases slots slot after here with ⟨rfl, rfl⟩ | ⟨-, there⟩
        · refine .inr ⟨retirePriorTo, rfl, fun entry stood => spent _ ?_⟩
          show (ms.peerCidPool.entries.map _)[slot]? = _
          rw [List.getElem?_map, stood]
          rfl
        · exact .inl (kept there)

theorem heldSince_run (events : List PoolEvent)
    (here : (Machine.run poolStep migrationInit events).peerCidPool.entries[slot]? = some entry) :
    HeldSince events slot entry.issue := by
  -- The induction is on the run, the last event coming on top.
  induction events using List.reverseRecOn generalizing entry with
  | nil => cases here
  | append_singleton events event ih =>
    have last := here
    rw [Machine.run_append, Machine.run_cons, Machine.run_nil] at last
    rcases poolStep_slot last with ⟨before, there, issue⟩ | ⟨retirePriorTo, rfl, spent⟩
    · obtain ⟨past, retirePriorTo, since, rfl, spent, held⟩ := ih there
      rw [issue]
      refine ⟨past, retirePriorTo, since ++ [event], by simp, spent, ?_⟩
      intro first rest split
      rcases List.append_eq_append_iff.mp split with ⟨more, rfl, ended⟩ | ⟨more, rfl, -⟩
      · rcases List.append_eq_singleton_iff.mp ended.symm with ⟨rfl, -⟩ | ⟨rfl, -⟩
        · rw [List.append_nil]
          exact held since [] (List.append_nil since).symm
        · rw [List.append_assoc, List.cons_append] at here
          exact ⟨entry, here, issue⟩
      · exact held first more rfl
    · exact ⟨events, retirePriorTo, [], rfl, spent, fun first rest split => by
        obtain ⟨rfl, rfl⟩ := List.append_eq_nil_iff.mp split.symm
        exact ⟨entry, here, rfl⟩⟩

/-- The pool never overflows and stays in order, and an entry keeps what it was inserted with until
its slot is filled again, which only happens to a retired one. -/
theorem cidPool_inOrder (events : List PoolEvent) :
    (Machine.run poolStep migrationInit events).peerCidPool.entries.length ≤ 8 ∧
      (Machine.run poolStep migrationInit events).peerCidPool.Sound ∧
      ∀ slot entry,
        (Machine.run poolStep migrationInit events).peerCidPool.entries[slot]? = some entry →
          HeldSince events slot entry.issue := by
  refine ⟨CidPool.bounded _, ?_, fun slot entry here => heldSince_run events here⟩
  refine Machine.run_preserves (fun ms : MigrationState => ms.peerCidPool.Sound) poolStep_sound events ?_
  constructor
  case distinct => rintro i j one two ⟨⟩
  case single => rintro i j one two ⟨⟩
  case live => rintro i entry ⟨⟩

end Nxp
