import Mathlib.Data.List.Basic

namespace Stepping

structure Machine (σ ι ο : Type*) where
  step : σ → ι → ο × σ

variable {σ τ ι κ ο ω : Type*}

def Machine.run (m : Machine σ ι ο) : σ → List ι → List ο × σ
  | s,[] => ([],s)
  | s,i :: rest =>
    let first := m.step s i
    let later := m.run first.2 rest
    (first.1 :: later.1,later.2)

-- A guard is asked at the state in which its step is taken, so it may speak of
-- the run so far, not only of the list of inputs.
def Machine.Admits (m : Machine σ ι ο) (guard : σ → ι → Prop) : σ → List ι → Prop
  | _,[] => True
  | s,i :: rest => guard s i ∧ m.Admits guard (m.step s i).2 rest

def Machine.Throughout (m : Machine σ ι ο) (property : σ → Prop) : σ → List ι → Prop
  | s,[] => property s
  | s,i :: rest => property s ∧ m.Throughout property (m.step s i).2 rest

@[simp] theorem run_nil (m : Machine σ ι ο) (s : σ) : m.run s [] = ([],s) := rfl
@[simp] theorem run_cons (m : Machine σ ι ο) (s : σ) (i : ι) (rest : List ι) :
    m.run s (i :: rest) =
      ((m.step s i).1 :: (m.run (m.step s i).2 rest).1,(m.run (m.step s i).2 rest).2) := rfl
@[simp] theorem admits_nil (m : Machine σ ι ο) (guard : σ → ι → Prop) (s : σ) : m.Admits guard s [] := trivial
@[simp] theorem admits_cons (m : Machine σ ι ο) (guard : σ → ι → Prop) (s : σ) (i : ι) (rest : List ι) :
    m.Admits guard s (i :: rest) ↔ guard s i ∧ m.Admits guard (m.step s i).2 rest := Iff.rfl

instance decidableAdmits (m : Machine σ ι ο) (guard : σ → ι → Prop) [∀ s i, Decidable (guard s i)] :
    (s : σ) → (inputs : List ι) → Decidable (m.Admits guard s inputs)
  | _,[] => isTrue trivial
  | s,i :: rest =>
    have := decidableAdmits m guard (m.step s i).2 rest
    inferInstanceAs (Decidable (guard s i ∧ m.Admits guard (m.step s i).2 rest))

theorem run_append (m : Machine σ ι ο) (s : σ) (earlier later : List ι) :
    m.run s (earlier ++ later) =
      ((m.run s earlier).1 ++ (m.run (m.run s earlier).2 later).1,(m.run (m.run s earlier).2 later).2) := by
  induction earlier generalizing s with
  | nil => rfl
  | cons i rest ih => simp only [List.cons_append,run_cons,ih]

theorem admits_append (m : Machine σ ι ο) (guard : σ → ι → Prop) (s : σ) (earlier later : List ι) :
    m.Admits guard s (earlier ++ later) ↔
      m.Admits guard s earlier ∧ m.Admits guard (m.run s earlier).2 later := by
  induction earlier generalizing s with
  | nil => simp
  | cons i rest ih => simp only [List.cons_append,admits_cons,run_cons,ih,and_assoc]

theorem admits_and {m : Machine σ ι ο} {first second : σ → ι → Prop} {s : σ} {inputs : List ι} :
    m.Admits (fun s i => first s i ∧ second s i) s inputs ↔ m.Admits first s inputs ∧ m.Admits second s inputs := by
  induction inputs generalizing s with
  | nil => simp
  | cons i rest ih => simp only [admits_cons,ih,and_and_and_comm]

theorem run_preserves {m : Machine σ ι ο} {guard : σ → ι → Prop} {invariant : σ → Prop}
    (preserved : ∀ s i, invariant s → guard s i → invariant (m.step s i).2)
    {s : σ} {inputs : List ι} (start : invariant s) (admitted : m.Admits guard s inputs) :
    invariant (m.run s inputs).2 := by
  induction inputs generalizing s with
  | nil => exact start
  | cons i rest ih => exact ih (preserved _ _ start admitted.1) admitted.2

theorem admits_each {m : Machine σ ι ο} {guard : σ → ι → Prop} {invariant : σ → Prop}
    {fact : σ → ι → Prop} (preserved : ∀ s i, invariant s → guard s i → invariant (m.step s i).2)
    (each : ∀ s i, invariant s → guard s i → fact s i)
    {s : σ} {inputs : List ι} (start : invariant s) (admitted : m.Admits guard s inputs) : m.Admits fact s inputs := by
  induction inputs generalizing s with
  | nil => trivial
  | cons i rest ih =>
    exact ⟨each _ _ start admitted.1,ih (preserved _ _ start admitted.1) admitted.2⟩

theorem admits_always {m : Machine σ ι ο} {invariant : σ → Prop} {guard : σ → ι → Prop}
    (step : ∀ s i, invariant s → invariant (m.step s i).2 ∧ guard s i) {s : σ} (start : invariant s)
    (inputs : List ι) : m.Admits guard s inputs := by
  induction inputs generalizing s with
  | nil => trivial
  | cons i rest ih => exact ⟨(step s i start).2,ih (step s i start).1⟩

theorem admits_congr {m : Machine σ ι ο} {invariant : σ → Prop} {first second : σ → ι → Prop}
    (preserved : ∀ s i, invariant s → invariant (m.step s i).2)
    (same : ∀ s i, invariant s → (first s i ↔ second s i)) {s : σ} {inputs : List ι} (start : invariant s) :
    m.Admits first s inputs ↔ m.Admits second s inputs := by
  induction inputs generalizing s with
  | nil => exact Iff.rfl
  | cons i rest ih => exact and_congr (same s i start) (ih (preserved s i start))

theorem throughout_admits {m : Machine σ ι ο} {property : σ → Prop} {guard : σ → ι → Prop}
    (exactly : ∀ s i, property s → (property (m.step s i).2 ↔ guard s i)) {s : σ} {inputs : List ι}
    (start : property s) : m.Throughout property s inputs ↔ m.Admits guard s inputs := by
  induction inputs generalizing s with
  | nil => exact iff_of_true start trivial
  | cons i rest ih =>
    constructor
    · intro always
      have next : property (m.step s i).2 := by
        cases rest with
        | nil => exact always.2
        | cons => exact always.2.1
      exact ⟨(exactly s i start).mp next,(ih next).mp always.2⟩
    · intro admitted
      have next := (exactly s i start).mpr admitted.1
      exact ⟨start,(ih next).mpr admitted.2⟩

-- Functional refinement under a guard: the concrete machine keeps its
-- invariant, and its answers and abstraction follow the abstract machine.
structure Refinement (concrete : Machine σ ι ο) (abstract : Machine τ κ ω)
    (guard : σ → ι → Prop) where
  invariant : σ → Prop
  state : σ → τ
  input : ι → κ
  output : ω → ο
  preserved : ∀ s i, invariant s → guard s i → invariant (concrete.step s i).2
  answered : ∀ s i, invariant s → guard s i →
    (concrete.step s i).1 = output (abstract.step (state s) (input i)).1
  followed : ∀ s i, invariant s → guard s i →
    state (concrete.step s i).2 = (abstract.step (state s) (input i)).2

theorem Refinement.run {concrete : Machine σ ι ο} {abstract : Machine τ κ ω} {guard : σ → ι → Prop}
    (r : Refinement concrete abstract guard) {s : σ} {inputs : List ι} (start : r.invariant s)
    (admitted : concrete.Admits guard s inputs) :
    r.invariant (concrete.run s inputs).2 ∧
    (concrete.run s inputs).1 = (abstract.run (r.state s) (inputs.map r.input)).1.map r.output ∧
    r.state (concrete.run s inputs).2 = (abstract.run (r.state s) (inputs.map r.input)).2 := by
  induction inputs generalizing s with
  | nil => exact ⟨start,rfl,rfl⟩
  | cons i rest ih =>
    obtain ⟨kept,answers,reached⟩ := ih (r.preserved _ _ start admitted.1) admitted.2
    rw [r.followed _ _ start admitted.1] at answers reached
    refine ⟨kept,?_,?_⟩
    · simp only [run_cons,List.map_cons,answers,r.answered _ _ start admitted.1]
    · simpa only [run_cons,List.map_cons] using reached

end Stepping
