import Mathlib.Data.List.Basic

/-! Counting in windows that begin anew, and how many may pass in any interval as long as one. -/

namespace FixedWindow

/-- How many have passed since a window began. -/
structure Window where
  count : Nat
  start : Nat

/-- The window something falls into: a new one once the old one is over. -/
def renew (length : Nat) (window : Option Window) (now : Nat) : Window :=
  match window with
  | none => ⟨0, now⟩
  | some window => if length ≤ now - window.start then ⟨0, now⟩ else window

/-- Let one pass unless as many as may have passed in its window. -/
def hit (limit length : Nat) (window : Option Window) (now : Nat) : Bool × Window :=
  let window := renew length window now
  if limit ≤ window.count then (false, window)
  else (true, { window with count := window.count + 1 })

/-- How many of some times lie in the interval of a length that begins at one. -/
def within (length onset : Nat) (times : List Nat) : Nat :=
  times.countP fun time => onset ≤ time ∧ time ≤ onset + length

/-- A window that is over has been over for as long as it lasted. -/
def RenewsLate (length : Nat) (window : Option Window) (now : Nat) : Prop :=
  ∀ old ∈ window, length ≤ now - old.start → 2 * length ≤ now - old.start

/-- A window counts what has passed since it began, and all else passed a length before. -/
def Counts (length : Nat) (window : Window) (times : List Nat) : Prop :=
  window.count = times.countP (window.start ≤ ·) ∧
    ∀ time ∈ times, time + length < window.start ∨
      window.start ≤ time ∧ time < window.start + length

/-- What holds of a window and the times at which something has passed. -/
structure Kept (limit length : Nat) (window : Option Window) (times : List Nat) : Prop where
  bounded : ∀ onset, within length onset times ≤ limit
  unused : window = none → times = []
  counts : ∀ current ∈ window, Counts length current times

section

variable {limit length : Nat} {window : Option Window} {times : List Nat} {now : Nat}

/-- Before anything has passed there is nothing to count. -/
theorem Kept.none : Kept limit length none [] :=
  ⟨fun _ => Nat.zero_le _, fun _ => rfl, nofun⟩

/-- A window that is renewed late enough counts what has passed since. -/
theorem Kept.renew (kept : Kept limit length window times)
    (later : ∀ old ∈ window, old.start ≤ now) (late : RenewsLate length window now) :
    Counts length (renew length window now) times := by
  cases window with
  | none =>
    rw [kept.unused rfl]
    exact ⟨rfl, nofun⟩
  | some old =>
    obtain ⟨count, apart⟩ := kept.counts old rfl
    have order := later old rfl
    unfold FixedWindow.renew
    by_cases past : length ≤ now - old.start
    · -- All that passed did so within a length of the old start, hence a length before now.
      have twice := late old rfl past
      have before : ∀ time ∈ times, time + length < now := fun time member => by
        have := apart time member
        omega
      simp only [past, if_true]
      refine ⟨(List.countP_eq_zero.mpr fun time member => ?_).symm,
        fun time member => .inl (before time member)⟩
      have := before time member
      simp only [decide_eq_true_eq]
      omega
    · simp only [past, if_false]
      exact ⟨count, apart⟩

/-- The window something falls into has begun and is not over. -/
theorem renew_current (later : ∀ old ∈ window, old.start ≤ now) (positive : 0 < length) :
    (renew length window now).start ≤ now ∧ now < (renew length window now).start + length := by
  cases window with
  | none => exact ⟨Nat.le_refl _, by simp only [renew]; omega⟩
  | some old =>
    have order := later old rfl
    simp only [renew]
    split
    · exact ⟨Nat.le_refl _, by dsimp only; omega⟩
    · exact ⟨order, by omega⟩

/-- Nothing of an interval that reaches into a window passed before the window. -/
theorem Counts.within_le {current : Window} (counts : Counts length current times) {onset : Nat}
    (reaches : current.start ≤ onset + length) : within length onset times ≤ current.count := by
  rw [counts.1]
  refine List.countP_mono_left fun time member inside => ?_
  have := counts.2 time member
  simp only [decide_eq_true_eq] at inside ⊢
  omega

/-- One more that passes adds at most one to an interval, and nothing to one it is not in. -/
theorem within_append (onset : Nat) : within length onset (times ++ [now]) =
    within length onset times + if onset ≤ now ∧ now ≤ onset + length then 1 else 0 := by
  simp [within, List.countP_append, List.countP_cons]

/-- No more pass in any interval than may pass in a window, if windows are renewed late. -/
theorem Kept.hit (kept : Kept limit length window times) (later : ∀ old ∈ window, old.start ≤ now)
    (late : RenewsLate length window now) (positive : 0 < length) :
    Kept limit length (some (hit limit length window now).2)
      (if (hit limit length window now).1 then times ++ [now] else times) := by
  have counts := kept.renew later late
  have current := @renew_current length window now later positive
  unfold FixedWindow.hit
  by_cases full : limit ≤ (FixedWindow.renew length window now).count
  · simp only [full, if_true]
    refine ⟨kept.bounded, nofun, ?_⟩
    rintro _ ⟨⟩
    exact counts
  · simp only [full, if_false, if_true]
    refine ⟨fun onset => ?_, nofun, ?_⟩
    · rw [within_append]
      split
      · -- An interval that now lies in reaches into the window, which has room for one more.
        have := counts.within_le (show _ ≤ onset + length by omega)
        omega
      · exact kept.bounded onset
    · rintro _ ⟨⟩
      refine ⟨?_, fun time member => ?_⟩
      · simp [List.countP_append, counts.1, current.1]
      · rcases List.mem_append.mp member with past | new
        · exact counts.2 time past
        · rw [List.mem_singleton.mp new]
          exact .inr current

end

end FixedWindow
