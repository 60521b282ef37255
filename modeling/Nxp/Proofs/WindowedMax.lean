import Nxp.Congestion.Bbr
import Nxp.Lib.Machine
import Nxp.Lib.Word

/-! What the filter of the best samples reports about its window. -/

namespace Nxp

/-- Take a sample into the window. -/
def wfTake (f : WindowedFilter) (s : WfSample) : WindowedFilter := wfUpdate f s.value s.time

/-- The samples stand in order, the reported one was taken within the window that ends now, and it
is at least as good as the newest. -/
structure WindowedFilter.Right (f : WindowedFilter) (taken : List WfSample) (newest : WfSample) :
    Prop where
  first : wfIsBetter f f.best.value f.second.value = true
  last : wfIsBetter f f.second.value f.third.value = true
  recent : ∃ s ∈ taken, s.value = wfGet f ∧ s.time ≤ newest.time ∧
    newest.time.toNat ≤ s.time.toNat + f.window.toNat
  newest : wfIsBetter f (wfGet f) newest.value = true

/-- A sample does not come at an expired best sample, unless it is better than that one, the third
sample has expired as well, or the third sample is at least as good as the new one. -/
def WfSample.Suits (s : WfSample) (f : WindowedFilter) : Prop :=
  f.initialized = true → wfExpired f s.time = true →
    wfIsBetter f s.value f.best.value = true ∨ s.time - f.third.time > f.window ∨
      wfIsBetter f f.third.value s.value = true

/-- The samples of a filter were taken one after the other, the better ones first. -/
structure WindowedFilter.Sorted (f : WindowedFilter) (taken : List WfSample) : Prop where
  held : f.initialized = true → f.best ∈ taken ∧ f.second ∈ taken ∧ f.third ∈ taken
  early : f.best.time ≤ f.second.time
  late : f.second.time ≤ f.third.time
  first : wfIsBetter f f.best.value f.second.value = true
  last : wfIsBetter f f.second.value f.third.value = true

theorem wfIsBetter_refl (f : WindowedFilter) (a : UInt64) : wfIsBetter f a a = true := by
  simp [wfIsBetter]

theorem wfIsBetter_trans {f : WindowedFilter} {a b c : UInt64}
    (left : wfIsBetter f a b = true) (right : wfIsBetter f b c = true) :
    wfIsBetter f a c = true := by
  unfold wfIsBetter at *
  split at left <;> simp_all only [if_true, decide_eq_true_eq, Bool.false_eq_true, if_false]
  · exact UInt64.le_trans right left
  · exact UInt64.le_trans left right

theorem wfIsBetter_flip {f : WindowedFilter} {a b : UInt64} (worse : ¬ wfIsBetter f a b = true) :
    wfIsBetter f b a = true := by
  unfold wfIsBetter at *
  split at worse <;> simp_all only [if_true, decide_eq_true_eq, Bool.false_eq_true, if_false,
    UInt64.not_le, ge_iff_le]
  · exact UInt64.le_of_lt worse
  · exact UInt64.le_of_lt worse

namespace WindowedFilter.Sorted

variable {f : WindowedFilter} {taken : List WfSample} {s : WfSample}

theorem reset (f : WindowedFilter) (taken : List WfSample) (s : WfSample) :
    (wfReset f s).Sorted (taken ++ [s]) ∧ (wfReset f s).Right (taken ++ [s]) s := by
  have same := wfIsBetter_refl (wfReset f s) s.value
  have member : s ∈ taken ++ [s] := by simp
  exact ⟨⟨fun _ => ⟨member, member, member⟩, UInt64.le_refl _, UInt64.le_refl _, same, same⟩,
    ⟨same, same, ⟨s, member, rfl, UInt64.le_refl _, Nat.le_add_right ..⟩, same⟩⟩

/-- What an update has to establish, from the samples it keeps. -/
theorem settle {g : WindowedFilter} (forward : ∀ p ∈ taken ++ [s], p.time ≤ s.time)
    (held : g.best ∈ taken ++ [s] ∧ g.second ∈ taken ++ [s] ∧ g.third ∈ taken ++ [s])
    (early : g.best.time ≤ g.second.time) (late : g.second.time ≤ g.third.time)
    (first : wfIsBetter g g.best.value g.second.value = true)
    (last : wfIsBetter g g.second.value g.third.value = true)
    (newest : wfIsBetter g g.third.value s.value = true) (live : ¬ wfExpired g s.time = true) :
    g.Sorted (taken ++ [s]) ∧ g.Right (taken ++ [s]) s := by
  refine ⟨⟨fun _ => held, early, late, first, last⟩, first, last, ⟨g.best, held.1, rfl, ?_⟩,
    wfIsBetter_trans first (wfIsBetter_trans last newest)⟩
  have past := forward _ held.1
  refine ⟨past, ?_⟩
  unfold wfExpired at live
  rw [decide_eq_true_eq, gt_iff_lt, Word.lt_sub_iff past] at live
  omega

theorem rotate_all {f : WindowedFilter} {s : WfSample}
    (second : s.time - f.second.time > f.window) (third : s.time - f.third.time > f.window) :
    wfRotate f s = { f with best := s, second := s, third := s } := by
  simp [wfRotate, wfExpired, second, third]

theorem rotate_live {f : WindowedFilter} {s : WfSample}
    (third : ¬ s.time - f.third.time > f.window) :
    wfRotate f s =
      if s.time - f.second.time > f.window then { f with best := f.third, second := s, third := s }
      else { f with best := f.second, second := f.third, third := s } := by
  by_cases second : s.time - f.second.time > f.window <;> simp [wfRotate, wfExpired, second, third]

/-- A sample that suits a filter leaves it in order. -/
theorem take (sorted : f.Sorted taken) (forward : ∀ p ∈ taken ++ [s], p.time ≤ s.time)
    (suits : s.Suits f) :
    (wfTake f s).Sorted (taken ++ [s]) ∧ (wfTake f s).Right (taken ++ [s]) s := by
  by_cases started : f.initialized = true
  swap
  · simpa [wfTake, wfUpdate, started] using reset f taken s
  by_cases beaten : wfIsBetter f s.value f.best.value = true
  · simpa [wfTake, wfUpdate, started, beaten] using reset f taken s
  have member : s ∈ taken ++ [s] := by simp
  have kept (p : WfSample) (held : p ∈ taken) : p ∈ taken ++ [s] := List.mem_append_left _ held
  obtain ⟨best, second, third⟩ := sorted.held started
  have same := wfIsBetter_refl f s.value
  by_cases old : wfExpired f s.time = true
  · -- The best sample goes, and those that have expired as well.
    have rotated : wfTake f s = wfRotate f s := by simp [wfTake, wfUpdate, started, beaten, old]
    rw [rotated]
    by_cases gone : s.time - f.third.time > f.window
    · have gone' : s.time - f.second.time > f.window := by
        have after := UInt64.le_iff_toNat_le.mp sorted.late
        rw [gt_iff_lt, Word.lt_sub_iff (forward _ (kept _ third))] at gone
        rw [gt_iff_lt, Word.lt_sub_iff (forward _ (kept _ second))]
        omega
      rw [rotate_all gone' gone]
      obtain ⟨order, report⟩ := reset f taken s
      exact ⟨⟨fun _ => order.held rfl, order.early, order.late, order.first, order.last⟩,
        report.first, report.last, report.recent, report.newest⟩
    · have good : wfIsBetter f f.third.value s.value = true :=
        ((suits started old).resolve_left beaten).resolve_left gone
      rw [rotate_live gone]
      split
      · exact settle forward ⟨kept _ third, member, member⟩ (forward _ (kept _ third))
          (UInt64.le_refl _) good same same (by simpa [wfExpired] using gone)
      · rename_i live
        exact settle forward ⟨kept _ second, kept _ third, member⟩ sorted.late
          (forward _ (kept _ third)) sorted.last good same (by simpa [wfExpired] using live)
  · -- The best sample stays, and is better than the new one.
    have worse := wfIsBetter_flip beaten
    unfold wfTake wfUpdate
    simp only [started, beaten, old, Bool.not_true, Bool.false_eq_true, if_false]
    split
    · exact settle forward ⟨kept _ best, member, member⟩ (forward _ (kept _ best))
        (UInt64.le_refl _) worse same same old
    rename_i high
    simp only [Bool.or_eq_true, not_or] at high
    split
    · exact settle forward ⟨kept _ best, kept _ second, member⟩ sorted.early
        (forward _ (kept _ second)) sorted.first (wfIsBetter_flip high.1) same old
    · rename_i low
      simp only [Bool.or_eq_true, not_or] at low
      exact settle forward ⟨kept _ best, kept _ second, kept _ third⟩ sorted.early sorted.late
        sorted.first sorted.last (wfIsBetter_flip low.1) old

/-- Any other sample puts the filter out of order or makes it report too little. -/
theorem spoil (harm : ¬ s.Suits f) : ¬ (wfTake f s).Right (taken ++ [s]) s := by
  intro right
  simp only [WfSample.Suits, Classical.not_imp, not_or] at harm
  obtain ⟨started, old, beaten, live, worse⟩ := harm
  have rotated : wfTake f s = wfRotate f s := by simp [wfTake, wfUpdate, started, beaten, old]
  rw [rotated, rotate_live live] at right
  split at right
  · exact worse right.newest
  · exact worse right.last

end WindowedFilter.Sorted

theorem last_newest {taken : List WfSample} {s : WfSample}
    (forward : (taken ++ [s]).Pairwise fun a b => a.time ≤ b.time) :
    ∀ p ∈ taken ++ [s], p.time ≤ s.time := by
  intro p member
  rcases List.mem_append.mp member with earlier | here
  · exact (List.pairwise_append.mp forward).2.2 p earlier s (List.mem_singleton_self _)
  · rw [List.mem_singleton.mp here]
    exact UInt64.le_refl _

/-- As long as every sample suits the filter that it finds, the filter stays in order. -/
theorem wfTake_sorted (window : UInt64) (isMax : Bool) {samples : List WfSample}
    (forward : samples.Pairwise fun a b => a.time ≤ b.time)
    (suited : Machine.Along wfTake (fun f s => s.Suits f) (wfInit window isMax) samples) :
    (Machine.run wfTake (wfInit window isMax) samples).Sorted samples := by
  -- The samples that were taken grow at their end, so the induction does as well.
  induction samples using List.reverseRecOn with
  | nil => exact ⟨nofun, UInt64.le_refl _, UInt64.le_refl _, wfIsBetter_refl .., wfIsBetter_refl ..⟩
  | append_singleton taken s ih =>
    rw [Machine.along_append] at suited
    have before := ih (List.pairwise_append.mp forward).1 suited.1
    rw [Machine.run_append]
    exact (before.take (last_newest forward) suited.2.1).1

/-- After each of a list of samples whose times never go back, the filter is in order and reports a
sample of the window that is at least as good as the newest, exactly when every sample suits the
filter that it finds. -/
theorem wfUpdate_right_iff (window : UInt64) (isMax : Bool) (samples : List WfSample)
    (forward : samples.Pairwise fun a b => a.time ≤ b.time) :
    (∀ past newest rest, samples = past ++ newest :: rest →
      (Machine.run wfTake (wfInit window isMax) (past ++ [newest])).Right (past ++ [newest])
        newest) ↔
    Machine.Along wfTake (fun f s => s.Suits f) (wfInit window isMax) samples := by
  constructor
  · intro right
    induction samples using List.reverseRecOn with
    | nil => trivial
    | append_singleton taken s ih =>
      have before := ih (List.pairwise_append.mp forward).1 fun past newest rest parts =>
        right past newest (rest ++ [s]) (by rw [parts, List.append_assoc, List.cons_append])
      rw [Machine.along_append]
      refine ⟨before, ?_, trivial⟩
      -- A sample that does not suit would show in the state after it.
      by_contra harm
      have shown := right taken s [] rfl
      rw [Machine.run_append] at shown
      exact WindowedFilter.Sorted.spoil harm shown
  · rintro suited past newest rest rfl
    rw [Machine.along_append] at suited
    have sorted := wfTake_sorted window isMax (List.pairwise_append.mp forward).1 suited.1
    have upTo : (past ++ [newest]).Pairwise fun a b : WfSample => a.time ≤ b.time :=
      List.Pairwise.sublist (List.Sublist.append_left (by simp) past) forward
    rw [Machine.run_append]
    exact (sorted.take (last_newest upTo) suited.2.1).2

/-- Two samples in order leave a filter in order. -/
theorem wfUpdate_right_two :
    (Machine.run wfTake (wfInit 10 true) [⟨100, 0⟩, ⟨10, 3⟩]).Right [⟨100, 0⟩, ⟨10, 3⟩] ⟨10, 3⟩ :=
  (wfUpdate_right_iff 10 true [⟨100, 0⟩, ⟨10, 3⟩] (by decide)).mpr
    ⟨nofun, fun _ old => absurd old (by decide), trivial⟩ [⟨100, 0⟩] ⟨10, 3⟩ [] rfl

/-- Of the samples 100, 10 and 50 the first has left a window of 10 when the third comes, and then
the second is reported. -/
theorem wfUpdate_below_newest :
    let samples : List WfSample := [⟨100, 0⟩, ⟨10, 3⟩, ⟨50, 11⟩]
    samples.Pairwise (fun a b => a.time ≤ b.time) ∧
    wfGet (Machine.run wfTake (wfInit 10 true) samples) = 10 := by
  decide

end Nxp
