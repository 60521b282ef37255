import Mathlib.Algebra.Order.Ring.Nat
import Mathlib.Data.List.Basic
import Mathlib.Data.List.Induction

/-! Runs of a machine over a list of inputs, and the invariant rules that govern them. -/

namespace Machine

section Total

variable {σ ι : Type*} (step : σ → ι → σ)

/-- The state after a list of inputs. -/
def run (s : σ) (inputs : List ι) : σ := inputs.foldl step s

/-- Every input of a run meets a condition on the state it is given in. -/
def Along (condition : σ → ι → Prop) : σ → List ι → Prop
  | _, [] => True
  | s, input :: rest => condition s input ∧ Along condition (step s input) rest

instance decidableAlong (condition : σ → ι → Prop)
    [decide : ∀ s input, Decidable (condition s input)] :
    ∀ s inputs, Decidable (Along step condition s inputs)
  | _, [] => inferInstanceAs (Decidable True)
  | s, input :: rest =>
    have := decidableAlong condition (step s input) rest
    inferInstanceAs (Decidable (condition s input ∧ Along step condition (step s input) rest))

/-- A run over no input stays where it is. -/
@[simp] theorem run_nil (s : σ) : run step s [] = s := rfl

/-- A run takes the first input first. -/
@[simp] theorem run_cons (s : σ) (input : ι) (rest : List ι) :
    run step s (input :: rest) = run step (step s input) rest := rfl

/-- A run over a concatenation continues from where its first part ended. -/
theorem run_append (s : σ) (first second : List ι) :
    run step s (first ++ second) = run step (run step s first) second :=
  List.foldl_append

variable {step}

/-- What every conditioned step preserves, every conditioned run preserves. -/
theorem run_invariant (condition : σ → ι → Prop) {invariant : σ → Prop}
    (preserved : ∀ s input, invariant s → condition s input → invariant (step s input))
    {inputs : List ι} {s : σ} (start : invariant s) (along : Along step condition s inputs) :
    invariant (run step s inputs) := by
  -- The induction follows the inputs, moving the start along with them.
  induction inputs generalizing s with
  | nil => exact start
  | cons input rest ih => exact ih (preserved s input start along.1) along.2

/-- What every step preserves, every run preserves. -/
theorem run_preserves (invariant : σ → Prop)
    (preserved : ∀ s input, invariant s → invariant (step s input))
    (inputs : List ι) {s : σ} (start : invariant s) : invariant (run step s inputs) := by
  induction inputs generalizing s with
  | nil => exact start
  | cons input rest ih => exact ih (preserved s input start)

/-- An invariant that speaks of the inputs so far as well as of the state they led to. -/
theorem run_history (invariant : List ι → σ → Prop) {s : σ} (start : invariant [] s)
    (grows : ∀ past input, invariant past (run step s past) →
      invariant (past ++ [input]) (step (run step s past) input))
    (inputs : List ι) : invariant inputs (run step s inputs) := by
  -- The last input comes on top of all those before it.
  induction inputs using List.reverseRecOn with
  | nil => exact start
  | append_singleton past input ih =>
    rw [run_append, run_cons, run_nil]
    exact grows past input ih

variable {inputs : List ι} {s : σ}

/-- A condition that ignores the state holds along a run when it holds of every input. -/
theorem along_of_forall {condition : σ → ι → Prop}
    (all : ∀ input ∈ inputs, ∀ s, condition s input) : Along step condition s inputs := by
  -- The state reached after the first input is irrelevant to the condition.
  induction inputs generalizing s with
  | nil => trivial
  | cons input rest ih =>
    exact ⟨all input (by simp) s, ih fun later member => all later (by simp [member])⟩

/-- Two conditions that each hold along a run hold along it together. -/
theorem along_and {first second : σ → ι → Prop}
    (left : Along step first s inputs) (right : Along step second s inputs) :
    Along step (fun s input => first s input ∧ second s input) s inputs := by
  induction inputs generalizing s with
  | nil => trivial
  | cons input rest ih => exact ⟨⟨left.1, right.1⟩, ih left.2 right.2⟩

/-- A condition holds along a concatenation when it holds along both parts in turn. -/
theorem along_append {condition : σ → ι → Prop} {first second : List ι} :
    Along step condition s (first ++ second) ↔
      Along step condition s first ∧ Along step condition (run step s first) second := by
  induction first generalizing s with
  | nil => simp [Along]
  | cons input rest ih => simp only [List.cons_append, Along, run_cons, ih, and_assoc]

end Total

section Partial

variable {σ ι : Type*} (step : σ → ι → Option σ)

/-- The state after a list of inputs, if every one of them is answered. -/
def attempt (s : σ) (inputs : List ι) : Option σ := inputs.foldlM step s

/-- Every input of a run meets a condition on the state it is given in, as far as the run goes. -/
def Throughout (condition : σ → ι → Prop) : σ → List ι → Prop
  | _, [] => True
  | s, input :: rest =>
    condition s input ∧ ∀ next, step s input = some next → Throughout condition next rest

instance decidableThroughout (condition : σ → ι → Prop)
    [decide : ∀ s input, Decidable (condition s input)] :
    ∀ s inputs, Decidable (Throughout step condition s inputs)
  | _, [] => inferInstanceAs (Decidable True)
  | s, input :: rest =>
    match stepped : step s input with
    | none => decidable_of_iff (condition s input)
        ⟨fun here => ⟨here, fun _ same => nomatch stepped.symm.trans same⟩, And.left⟩
    | some next =>
      have := decidableThroughout condition next rest
      decidable_of_iff (condition s input ∧ Throughout step condition next rest)
        ⟨fun both => ⟨both.1, fun _ same => Option.some.inj (stepped.symm.trans same) ▸ both.2⟩,
          fun all => ⟨all.1, all.2 next stepped⟩⟩

/-- A run over no input stays where it is. -/
@[simp] theorem attempt_nil (s : σ) : attempt step s [] = some s := rfl

/-- A run takes the first input first. -/
theorem attempt_cons (s : σ) (input : ι) (rest : List ι) :
    attempt step s (input :: rest) = (step s input).bind fun next => attempt step next rest := rfl

/-- A run over a concatenation continues from where its first part ended. -/
theorem attempt_append (s : σ) (first second : List ι) :
    attempt step s (first ++ second) =
      (attempt step s first).bind fun middle => attempt step middle second :=
  List.foldlM_append

variable {step} {inputs : List ι} {s final : σ}

/-- A run gets past its first input where that is answered. -/
theorem attempt_cons_some {input : ι} {rest : List ι} :
    attempt step s (input :: rest) = some final ↔
      ∃ next, step s input = some next ∧ attempt step next rest = some final :=
  Option.bind_eq_some_iff

/-- The last input is given in the state that those before it led to. -/
theorem attempt_concat_some {past : List ι} {input : ι} :
    attempt step s (past ++ [input]) = some final ↔
      ∃ middle, attempt step s past = some middle ∧ step middle input = some final := by
  rw [attempt_append, Option.bind_eq_some_iff]
  exact exists_congr fun _ => and_congr_right' (by rw [attempt_cons, Option.bind_eq_some_iff]; simp)

/-- A run that meets a condition meets every other that follows from it in states of an invariant.
-/
theorem Throughout.mono_of {strong weak : σ → ι → Prop} (invariant : σ → Prop)
    (preserved : ∀ s input next, invariant s → step s input = some next → invariant next)
    (weaker : ∀ s input, invariant s → strong s input → weak s input)
    (start : invariant s) (conditioned : Throughout step strong s inputs) :
    Throughout step weak s inputs := by
  induction inputs generalizing s with
  | nil => trivial
  | cons input rest ih =>
    refine ⟨weaker s input start conditioned.1, fun next stepped => ?_⟩
    exact ih (preserved s input next start stepped) (conditioned.2 next stepped)

/-- A run that meets a condition meets every weaker one. -/
theorem Throughout.mono {strong weak : σ → ι → Prop}
    (weaker : ∀ s input, strong s input → weak s input)
    (conditioned : Throughout step strong s inputs) : Throughout step weak s inputs :=
  conditioned.mono_of (fun _ => True) (fun _ _ _ _ _ => trivial)
    (fun s input _ => weaker s input) trivial

/-- What every conditioned step preserves, every conditioned run preserves. -/
theorem attempt_invariant (condition : σ → ι → Prop) (invariant : σ → Prop)
    (preserved : ∀ s input next, invariant s → condition s input → step s input = some next →
      invariant next) (start : invariant s) (conditioned : Throughout step condition s inputs)
    (reached : attempt step s inputs = some final) : invariant final := by
  -- The induction follows the inputs, moving the start along with them.
  induction inputs generalizing s with
  | nil =>
    cases reached
    exact start
  | cons input rest ih =>
    obtain ⟨next, stepped, reached⟩ := attempt_cons_some.mp reached
    exact ih (preserved s input next start conditioned.1 stepped)
      (conditioned.2 next stepped) reached

/-- What every step preserves, every run preserves. -/
theorem attempt_preserves (invariant : σ → Prop)
    (preserved : ∀ s input next, invariant s → step s input = some next → invariant next)
    (start : invariant s) (reached : attempt step s inputs = some final) : invariant final := by
  induction inputs generalizing s with
  | nil =>
    cases reached
    exact start
  | cons input rest ih =>
    obtain ⟨next, stepped, reached⟩ := attempt_cons_some.mp reached
    exact ih (preserved s input next start stepped) reached

/-- A property that exactly one kind of step spoils, and that stays spoilt, holds at the end of a
run exactly when no step of the run was of that kind. -/
theorem attempt_iff (bad : σ → ι → Prop) (always good : σ → Prop)
    (steady : ∀ s input next, always s → step s input = some next → always next)
    (kept : ∀ s input next, always s → good s → ¬ bad s input → step s input = some next → good next)
    (spoilt : ∀ s input next, always s → bad s input → step s input = some next → ¬ good next)
    (stays : ∀ s input next, always s → ¬ good s → step s input = some next → ¬ good next)
    (certain : always s) (start : good s) (reached : attempt step s inputs = some final) :
    good final ↔ Throughout step (fun s input => ¬ bad s input) s inputs := by
  -- Once spoilt, a run ends spoilt.
  have ends {rest : List ι} {s : σ} (certain : always s) (rotten : ¬ good s)
      (reached : attempt step s rest = some final) : ¬ good final :=
    (attempt_preserves (fun s => always s ∧ ¬ good s) (fun s input next both stepped =>
      ⟨steady s input next both.1 stepped, stays s input next both.1 both.2 stepped⟩)
      ⟨certain, rotten⟩ reached).2
  induction inputs generalizing s with
  | nil =>
    cases reached
    exact ⟨fun _ => trivial, fun _ => start⟩
  | cons input rest ih =>
    obtain ⟨next, stepped, reached⟩ := attempt_cons_some.mp reached
    have certain' := steady s input next certain stepped
    by_cases harm : bad s input
    · -- The first step spoils the property, so both sides are false.
      have rotten := ends certain' (spoilt s input next certain harm stepped) reached
      exact ⟨fun fine => absurd fine rotten, fun all => absurd harm all.1⟩
    · refine (ih certain' (kept s input next certain start harm stepped) reached).trans ?_
      constructor
      · intro all
        refine ⟨harm, fun other same => ?_⟩
        rw [stepped] at same
        cases same
        exact all
      · exact fun all => all.2 next stepped

/-- A property that safe steps keep and every other step breaks holds in all states of a run exactly
when all its steps are safe. -/
theorem everywhere_iff (safe : σ → ι → Prop) (good sound : σ → Prop)
    (enough : ∀ s, good s → sound s)
    (kept : ∀ s input next, good s → safe s input → step s input = some next → good next)
    (broken : ∀ s input next, good s → ¬ safe s input → step s input = some next → ¬ sound next)
    (start : good s) (reached : attempt step s inputs = some final) :
    (∀ past rest, inputs = past ++ rest → ∀ middle, attempt step s past = some middle →
      sound middle) ↔ Throughout step safe s inputs := by
  induction inputs generalizing s with
  | nil =>
    refine ⟨fun _ => trivial, ?_⟩
    intro _ past rest parts middle there
    obtain ⟨rfl, rfl⟩ := List.append_eq_nil_iff.mp parts.symm
    cases there
    exact enough s start
  | cons input rest ih =>
    obtain ⟨next, stepped, reached⟩ := attempt_cons_some.mp reached
    constructor
    · intro all
      have held : safe s input := by
        by_contra harm
        refine broken s input next start harm stepped (all [input] rest rfl next ?_)
        rw [attempt_cons, stepped]
        rfl
      refine ⟨held, fun other same => ?_⟩
      rw [stepped] at same
      cases same
      refine (ih (kept s input next start held stepped) reached).mp ?_
      intro past later parts middle there
      refine all (input :: past) later (by rw [parts, List.cons_append]) middle ?_
      rw [attempt_cons, stepped]
      exact there
    · rintro ⟨held, onward⟩ past later parts middle there
      cases past with
      | nil =>
        cases there
        exact enough s start
      | cons first past =>
        rw [List.cons_append] at parts
        obtain ⟨rfl, rfl⟩ := List.cons.inj parts
        rw [attempt_cons, stepped] at there
        exact (ih (kept s input next start held stepped) reached).mpr (onward next stepped)
          past later rfl middle there

/-- The same of a machine that answers every input. -/
theorem run_everywhere_iff {step : σ → ι → σ} (safe : σ → ι → Prop) (good sound : σ → Prop)
    (enough : ∀ s, good s → sound s) (kept : ∀ s input, good s → safe s input → good (step s input))
    (broken : ∀ s input, good s → ¬ safe s input → ¬ sound (step s input)) (start : good s) :
    (∀ past rest, inputs = past ++ rest → sound (run step s past)) ↔ Along step safe s inputs := by
  have ran (s : σ) (inputs : List ι) :
      attempt (fun s input => some (step s input)) s inputs = some (run step s inputs) := by
    induction inputs generalizing s with
    | nil => rfl
    | cons input rest ih => exact ih (step s input)
  have along (s : σ) (inputs : List ι) :
      Throughout (fun s input => some (step s input)) safe s inputs ↔ Along step safe s inputs := by
    induction inputs generalizing s with
    | nil => exact Iff.rfl
    | cons input rest ih => simp [Throughout, Along, ih]
  rw [← along, ← everywhere_iff safe good sound enough
    (fun s input _ fine held stepped => Option.some.inj stepped ▸ kept s input fine held)
    (fun s input _ fine harm stepped => Option.some.inj stepped ▸ broken s input fine harm)
    start (ran s inputs)]
  simp only [ran, Option.some.injEq, forall_eq']

/-- An invariant indexed by what a run has spent of its inputs so far. -/
theorem attempt_counted (cost : ι → Nat) (invariant : Nat → σ → Prop) {bound : Nat}
    (preserved : ∀ spent s input next, spent + cost input < bound → invariant spent s →
      step s input = some next → invariant (spent + cost input) next) {spent : Nat}
    (start : invariant spent s) (afford : spent + (inputs.map cost).sum < bound)
    (reached : attempt step s inputs = some final) :
    invariant (spent + (inputs.map cost).sum) final := by
  induction inputs generalizing s spent with
  | nil =>
    cases reached
    simpa using start
  | cons input rest ih =>
    obtain ⟨next, stepped, reached⟩ := attempt_cons_some.mp reached
    rw [List.map_cons, List.sum_cons, ← Nat.add_assoc] at afford ⊢
    -- The cost of the first input is spent before the rest of the run is taken.
    exact ih (preserved spent s input next (by omega) start stepped) afford reached

end Partial

end Machine
