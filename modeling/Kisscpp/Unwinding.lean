import Kisscpp.Machine

namespace Stepping
variable {σ τ ι κ ο ω : Type*}

-- What one observer knows of a machine: of some of the inputs, and of the
-- answers to these. To the observer the whole is no different from a machine
-- that has these inputs only.
structure Unwinding (whole : Machine σ ι ο) (alone : Machine τ κ ω) where
  related : σ → τ → Prop
  sees : ι → Option κ
  hears : ο → ω
  answered : ∀ s t i k, related s t → sees i = some k → hears (whole.step s i).1 = (alone.step t k).1
  followed : ∀ s t i k, related s t → sees i = some k → related (whole.step s i).2 (alone.step t k).2
  unseen : ∀ s t i, related s t → sees i = none → related (whole.step s i).2 t

def Unwinding.heard {whole : Machine σ ι ο} {alone : Machine τ κ ω} (u : Unwinding whole alone) (inputs : List ι)
    (answers : List ο) : List ω :=
  (inputs.zip answers).filterMap fun e => (u.sees e.1).map fun _ => u.hears e.2

theorem Unwinding.run {whole : Machine σ ι ο} {alone : Machine τ κ ω} (u : Unwinding whole alone) {s : σ} {t : τ}
    (start : u.related s t) (inputs : List ι) :
    u.heard inputs (whole.run s inputs).1 = (alone.run t (inputs.filterMap u.sees)).1 ∧
      u.related (whole.run s inputs).2 (alone.run t (inputs.filterMap u.sees)).2 := by
  induction inputs generalizing s t with
  | nil => exact ⟨rfl,start⟩
  | cons i rest ih =>
    cases seen : u.sees i with
    | none =>
      obtain ⟨answers,reached⟩ := ih (u.unseen s t i start seen)
      simp only [heard,run_cons,List.zip_cons_cons,List.filterMap_cons,seen,Option.map_none] at answers reached ⊢
      exact ⟨answers,reached⟩
    | some k =>
      obtain ⟨answers,reached⟩ := ih (u.followed s t i k start seen)
      simp only [heard,run_cons,List.zip_cons_cons,List.filterMap_cons,seen,Option.map_some] at answers reached ⊢
      refine ⟨?_,reached⟩
      rw [answers,u.answered s t i k start seen]

-- An observer of some of the inputs of a machine that the others leave as it is.
def Unwinding.within {m : Machine σ ι ο} {asks : ι → Bool} (still : ∀ s i, asks i = false → (m.step s i).2 = s) :
    Unwinding m m where
  related := Eq
  sees := Option.guard asks
  hears := id
  answered := by
    rintro s _ i k rfl seen
    rw [(Option.guard_eq_some_iff.mp seen).1,id]
  followed := by
    rintro s _ i k rfl seen
    rw [(Option.guard_eq_some_iff.mp seen).1]
  unseen := by
    rintro s _ i rfl unseen
    exact still s i (Option.guard_eq_none_iff.mp unseen)

theorem Unwinding.heard_guard {whole : Machine σ ι ο} {alone : Machine τ ι ο} (u : Unwinding whole alone)
    {asks : ι → Bool} (sees : u.sees = Option.guard asks) (hears : u.hears = id) (inputs : List ι)
    (answers : List ο) : u.heard inputs answers = ((inputs.zip answers).filter fun e => asks e.1).map Prod.snd := by
  rw [heard,← List.filterMap_eq_map,List.filterMap_filter]
  congr 1
  funext e
  cases asked : asks e.1 <;> simp [sees,hears,Option.guard,asked]

theorem run_without {m : Machine σ ι ο} {asks : ι → Bool} (still : ∀ s i, asks i = false → (m.step s i).2 = s) (s : σ)
    (inputs : List ι) :
    ((inputs.zip (m.run s inputs).1).filter fun e => asks e.1).map Prod.snd = (m.run s (inputs.filter asks)).1 ∧
      (m.run s inputs).2 = (m.run s (inputs.filter asks)).2 := by
  have same := (Unwinding.within still).run (rfl : s = s) inputs
  have taken : inputs.filterMap (Unwinding.within still).sees = inputs.filter asks :=
    congrFun List.filterMap_eq_filter inputs
  rwa [(Unwinding.within still).heard_guard rfl rfl,taken] at same

theorem run_simulates {concrete : Machine σ ι ο} {abstract : Machine τ ι ο} {guard : σ → ι → Prop}
    {related : σ → τ → Prop} (step : ∀ s t i, related s t → guard s i →
      (concrete.step s i).1 = (abstract.step t i).1 ∧ related (concrete.step s i).2 (abstract.step t i).2)
    {s : σ} {t : τ} {inputs : List ι} (start : related s t) (admitted : concrete.Admits guard s inputs) :
    (concrete.run s inputs).1 = (abstract.run t inputs).1 ∧
      related (concrete.run s inputs).2 (abstract.run t inputs).2 := by
  induction inputs generalizing s t with
  | nil => exact ⟨rfl,start⟩
  | cons i rest ih =>
    obtain ⟨answered,followed⟩ := step s t i start admitted.1
    obtain ⟨answers,reached⟩ := ih followed admitted.2
    rw [run_cons,run_cons,answered,answers]
    exact ⟨rfl,reached⟩

section Parts
variable {ν : Type*} [DecidableEq ν] {β γ : ν → Type*} {j : ν}

def pick (j : ν) (e : Sigma β) : Option (β j) := if named : e.1 = j then some (named ▸ e.2) else none

def only (j : ν) (all : List (Sigma β)) : List (β j) := all.filterMap (pick j)

theorem only_own (k : β j) (rest : List (Sigma β)) : only j (⟨j,k⟩ :: rest) = k :: only j rest := by
  simp [only,pick]

theorem only_other {e : Sigma β} (other : e.1 ≠ j) (rest : List (Sigma β)) : only j (e :: rest) = only j rest := by
  simp [only,pick,other]

-- A machine of parts that answer for themselves: what one part is asked and
-- answers is a run of a machine of its own, where that machine follows it and
-- the other parts do not disturb what relates the two.
theorem run_only (whole : Machine σ (Sigma β) (Sigma γ)) (alone : Machine τ (β j) (γ j)) (related : σ → τ → Prop)
    (named : ∀ s i, (whole.step s i).1.1 = i.1)
    (own : ∀ s t k, related s t →
      (whole.step s ⟨j,k⟩).1 = ⟨j,(alone.step t k).1⟩ ∧ related (whole.step s ⟨j,k⟩).2 (alone.step t k).2)
    (others : ∀ s t i, related s t → i.1 ≠ j → related (whole.step s i).2 t) {s : σ} {t : τ} (start : related s t)
    (inputs : List (Sigma β)) :
    only j (whole.run s inputs).1 = (alone.run t (only j inputs)).1 ∧
      related (whole.run s inputs).2 (alone.run t (only j inputs)).2 := by
  induction inputs generalizing s t with
  | nil => exact ⟨rfl,start⟩
  | cons i rest ih =>
    rw [run_cons]
    by_cases mine : i.1 = j
    · obtain ⟨i,k⟩ := i
      cases mine
      obtain ⟨answered,followed⟩ := own s t k start
      obtain ⟨answers,reached⟩ := ih followed
      rw [only_own,run_cons,answered,only_own,answers]
      exact ⟨rfl,reached⟩
    · obtain ⟨answers,reached⟩ := ih (others s t i start mine)
      rw [only_other mine,only_other (by rwa [named])]
      exact ⟨answers,reached⟩

end Parts
end Stepping
