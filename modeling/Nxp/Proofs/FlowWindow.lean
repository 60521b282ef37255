import Nxp.Core.FlowControl
import Nxp.Lib.Machine

/-! How far the limit a receiver advertises runs ahead of what it has received. -/

namespace Nxp

variable {fc next : FlowCtrl} {window : UInt64} {op : FlowOp}

/-- What can happen to the receiving side of a flow controller. -/
inductive FlowOp where
  | onRecv (len : UInt64)
  | onConsume (len : UInt64)
  | getUpdate

/-- What an operation does to the accounting; the length that is read does not matter. -/
def flowStep (fc : FlowCtrl) : FlowOp → FlowCtrl
  | .onRecv len => flowOnRecv fc len
  | .onConsume _ => flowOnConsume fc
  | .getUpdate => (flowGetUpdate fc).2

/-- An operation moves no counter to the upper half of the numbers. -/
def FlowOp.Counts (fc : FlowCtrl) : FlowOp → Prop
  | .onRecv len => fc.dataRecv.toNat + len.toNat < 2 ^ 63
  | op => (flowStep fc op).maxDataNext.toNat < 2 ^ 63

instance (fc : FlowCtrl) (op : FlowOp) : Decidable (op.Counts fc) :=
  match op with
  | .onRecv _ => inferInstanceAs (Decidable (_ < _))
  | .onConsume _ => inferInstanceAs (Decidable (_ < _))
  | .getUpdate => inferInstanceAs (Decidable (_ < _))

/-- The operations for as long as no counter gets that far. -/
def flowCounted (fc : FlowCtrl) (op : FlowOp) : Option FlowCtrl :=
  if op.Counts fc then some (flowStep fc op) else none

/-- Neither limit is further ahead of what was received than the window is wide. -/
def FlowCtrl.Within (window : UInt64) (fc : FlowCtrl) : Prop :=
  fc.localMaxData.toNat ≤ fc.dataRecv.toNat + window.toNat ∧
    fc.maxDataNext.toNat ≤ fc.dataRecv.toNat + window.toNat

instance (window : UInt64) (fc : FlowCtrl) : Decidable (fc.Within window) :=
  inferInstanceAs (Decidable (_ ∧ _))

/-- The application reads under the first limit, or before half of the present one has arrived. -/
def FlowOp.Timely (window : UInt64) (fc : FlowCtrl) : FlowOp → Prop
  | .onConsume _ => fc.localMaxData = window ∨ fc.dataRecv ≤ fc.localMaxData / 2
  | _ => True

instance (window : UInt64) (fc : FlowCtrl) (op : FlowOp) : Decidable (op.Timely window fc) :=
  match op with
  | .onConsume _ => inferInstanceAs (Decidable (_ ∨ _))
  | .onRecv _ => inferInstanceAs (Decidable True)
  | .getUpdate => inferInstanceAs (Decidable True)

/-- The limits lie between the window and the window ahead of what was received. -/
structure FlowCtrl.Leads (window : UInt64) (fc : FlowCtrl) : Prop where
  within : fc.Within window
  least : window ≤ fc.localMaxData
  ordered : fc.localMaxData ≤ fc.maxDataNext
  received : fc.dataRecv.toNat < 2 ^ 63
  counted : fc.maxDataNext.toNat < 2 ^ 63

theorem flowInit_leads (counted : window.toNat < 2 ^ 63) (peerMax : UInt64) :
    FlowCtrl.Leads window (flowInit window peerMax) where
  within := ⟨Nat.le_add_left .., Nat.le_add_left ..⟩
  least := UInt64.le_refl _
  ordered := UInt64.le_refl _
  received := show (0 : UInt64).toNat < 2 ^ 63 by decide
  counted := counted

theorem FlowCtrl.Leads.sum (leads : fc.Leads window) :
    (fc.dataRecv + fc.localMaxData).toNat = fc.dataRecv.toNat + fc.localMaxData.toNat := by
  have received := leads.received
  have counted := leads.counted
  have ordered := UInt64.le_iff_toNat_le.mp leads.ordered
  rw [UInt64.toNat_add]
  omega

/-- A timely read keeps the limits a window ahead at most. -/
theorem FlowCtrl.Leads.consume (leads : fc.Leads window)
    (timely : fc.localMaxData = window ∨ fc.dataRecv ≤ fc.localMaxData / 2)
    (counts : (flowOnConsume fc).maxDataNext.toNat < 2 ^ 63) :
    FlowCtrl.Leads window (flowOnConsume fc) := by
  have sum := leads.sum
  unfold flowOnConsume at counts ⊢
  dsimp only at counts ⊢
  split
  · rename_i late
    -- More than half has arrived, so the read is timely only under the first limit.
    have first : fc.localMaxData = window := by
      rcases timely with first | early
      · exact first
      · exact absurd late (UInt64.not_lt.mpr early)
    split
    · rename_i larger
      rw [if_pos late, if_pos larger] at counts
      refine ⟨⟨leads.within.1, ?_⟩, leads.least, ?_, leads.received, counts⟩
      · rw [← first]
        exact Nat.le_of_eq sum
      · exact UInt64.le_trans leads.ordered (UInt64.le_of_lt larger)
    · exact leads
  · exact leads

/-- A late read raises the limit beyond the window. -/
theorem FlowCtrl.Leads.overtakes (leads : fc.Leads window)
    (moved : fc.localMaxData ≠ window) (late : fc.dataRecv > fc.localMaxData / 2) :
    ¬ (flowOnConsume fc).Within window := by
  have sum := leads.sum
  have least := UInt64.lt_iff_toNat_lt.mp (UInt64.lt_of_le_of_ne leads.least moved.symm)
  have within := leads.within.2
  have larger : fc.dataRecv + fc.localMaxData > fc.maxDataNext := by
    rw [gt_iff_lt, UInt64.lt_iff_toNat_lt]
    omega
  intro kept
  have next := kept.2
  simp only [flowOnConsume, late, larger, if_true] at next
  omega

/-- A timely step keeps the limits in bounds. -/
theorem flowCounted_leads (leads : fc.Leads window) (timely : op.Timely window fc)
    (stepped : flowCounted fc op = some next) : next.Leads window := by
  unfold flowCounted at stepped
  split at stepped
  · rename_i counts
    cases stepped
    cases op with
    | onRecv len =>
      -- What arrives brings the limits closer.
      have counts : fc.dataRecv.toNat + len.toNat < 2 ^ 63 := counts
      have arrived : (fc.dataRecv + len).toNat = fc.dataRecv.toNat + len.toNat := by
        rw [UInt64.toNat_add]
        omega
      have within := leads.within
      unfold FlowCtrl.Within at within
      refine ⟨⟨?_, ?_⟩, leads.least, leads.ordered, ?_, leads.counted⟩ <;>
        simp only [flowStep, flowOnRecv, arrived] <;> omega
    | onConsume len => exact leads.consume timely counts
    | getUpdate =>
      exact ⟨⟨leads.within.2, leads.within.2⟩, UInt64.le_trans leads.least leads.ordered,
        UInt64.le_refl _, leads.received, leads.counted⟩
  · cases stepped

/-- An untimely one leads out of them. -/
theorem flowCounted_overtakes (leads : fc.Leads window) (untimely : ¬ op.Timely window fc)
    (stepped : flowCounted fc op = some next) : ¬ next.Within window := by
  unfold flowCounted at stepped
  split at stepped
  · cases stepped
    cases op with
    | onConsume len =>
      simp only [FlowOp.Timely, not_or] at untimely
      exact leads.overtakes untimely.1 (UInt64.not_le.mp untimely.2)
    | onRecv len => exact absurd trivial untimely
    | getUpdate => exact absurd trivial untimely
  · cases stepped

/-- In every run of a flow controller in which the counters stay small, the limits are never further
ahead of what was received than the first window exactly when every read comes under the first limit
or before half of the limit in force has arrived. -/
theorem window_kept_iff {peerMax : UInt64} (counted : window.toNat < 2 ^ 63) {ops : List FlowOp}
    (reached : Machine.attempt flowCounted (flowInit window peerMax) ops = some fc) :
    (∀ past rest, ops = past ++ rest → ∀ middle,
      Machine.attempt flowCounted (flowInit window peerMax) past = some middle →
        middle.Within window) ↔
    Machine.Throughout flowCounted (fun fc op => op.Timely window fc) (flowInit window peerMax) ops :=
  Machine.everywhere_iff _ (FlowCtrl.Leads window) (FlowCtrl.Within window) (fun _ leads => leads.within)
    (fun _ _ _ leads timely stepped => flowCounted_leads leads timely stepped)
    (fun _ _ _ leads untimely stepped => flowCounted_overtakes leads untimely stepped)
    (flowInit_leads counted peerMax) reached

/-- More than half of the first window arrives and is read, and the new limit is taken. -/
def oneUpdate : List FlowOp := [.onRecv 600, .onConsume 600, .getUpdate, .onRecv 100, .onConsume 100]

/-- After one update the limits are where they belong. -/
theorem window_kept_once :
    ∃ fc, Machine.attempt flowCounted (flowInit 1000 500) oneUpdate = some fc ∧ fc.Within 1000 := by
  have run : (Machine.attempt flowCounted (flowInit 1000 500) oneUpdate).isSome = true := by decide
  obtain ⟨fc, reached⟩ := Option.isSome_iff_exists.mp run
  have everywhere := (window_kept_iff (by decide) reached).mpr (by decide)
  exact ⟨fc, reached, everywhere oneUpdate [] (List.append_nil _).symm fc reached⟩

/-- Once 900 octets have arrived under a limit of 1600, the limit is to become 2500, which is 600
more than what was received and the window of 1000. -/
theorem window_overtaken :
    ∃ fc, Machine.attempt flowCounted (flowInit 1000 500)
        [.onRecv 600, .onConsume 600, .getUpdate, .onRecv 300, .onConsume 300, .getUpdate] =
          some fc ∧
      fc.dataRecv = 900 ∧ fc.localMaxData = 2500 ∧ ¬ fc.Within 1000 :=
  ⟨_, rfl, by decide⟩

end Nxp
