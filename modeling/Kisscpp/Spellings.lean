import Mathlib.Logic.Function.Basic

namespace Spellings

-- Counts that are kept by the spelling of an id, beside those kept by its
-- normal form.
variable {κ ν : Type*} [Zero ν] (normal : κ → κ)

-- One spelling of an id at most has a count, and it is that of the id.
structure Agrees (bySpelling byId : κ → ν) : Prop where
  single : ∀ k k', normal k = normal k' → bySpelling k ≠ 0 → bySpelling k' ≠ 0 → k = k'
  counted : ∀ id c, c ≠ 0 → ((∃ k, normal k = id ∧ bySpelling k = c) ↔ byId id = c)

def Alone (bySpelling : κ → ν) (k : κ) : Prop := ∀ k', normal k' = normal k → k' ≠ k → bySpelling k' = 0

variable {normal} {bySpelling byId : κ → ν}

theorem Agrees.alone (agrees : Agrees normal bySpelling byId) {k : κ} (alone : Alone normal bySpelling k) :
    byId (normal k) = bySpelling k := by
  by_cases zero : byId (normal k) = 0
  · rw [zero]
    by_contra different
    have counts : bySpelling k ≠ 0 := fun equal => different equal.symm
    have own := (agrees.counted (normal k) _ counts).mp ⟨k,rfl,rfl⟩
    exact counts (own.symm.trans zero)
  · obtain ⟨k',same,counts⟩ := (agrees.counted _ _ zero).mpr rfl
    by_cases own : k' = k
    · rw [← counts,own]
    · exact absurd (counts.symm.trans (alone k' same own)) zero

theorem Agrees.not_alone (agrees : Agrees normal bySpelling byId) {k : κ} (shared : ¬ Alone normal bySpelling k) :
    bySpelling k = 0 ∧ byId (normal k) ≠ 0 := by
  simp only [Alone,not_forall] at shared
  obtain ⟨k',same,other,counts⟩ := shared
  constructor
  · by_contra own
    exact other (agrees.single k' k same counts own)
  · rw [(agrees.counted (normal k) _ counts).mp ⟨k',same,rfl⟩]
    exact counts

variable [DecidableEq κ]

theorem agrees_update_alone (agrees : Agrees normal bySpelling byId) {k : κ} (alone : Alone normal bySpelling k)
    (a : ν) : Agrees normal (Function.update bySpelling k a) (Function.update byId (normal k) a) := by
  constructor
  · intro x y same countX countY
    by_cases isX : x = k
    · by_contra different
      have isY : y ≠ k := fun equal => different (isX.trans equal.symm)
      rw [Function.update_of_ne isY] at countY
      exact countY (alone y (by rw [← same,isX]) isY)
    · rw [Function.update_of_ne isX] at countX
      by_cases isY : y = k
      · exact absurd (alone x (by rw [same,isY]) isX) countX
      · rw [Function.update_of_ne isY] at countY
        exact agrees.single x y same countX countY
  · intro id c counts
    by_cases own : id = normal k
    · subst own
      rw [Function.update_self]
      constructor
      · rintro ⟨x,same,isC⟩
        by_cases isX : x = k
        · rwa [isX,Function.update_self] at isC
        · rw [Function.update_of_ne isX,alone x same isX] at isC
          exact absurd isC.symm counts
      · intro isC
        exact ⟨k,rfl,by rw [Function.update_self,isC]⟩
    · rw [Function.update_of_ne own,← agrees.counted id c counts]
      refine exists_congr fun x => and_congr_right fun same => ?_
      rw [Function.update_of_ne fun isX => own (by rw [← same,isX])]

theorem agrees_update (agrees : Agrees normal bySpelling byId) (k : κ) (a b : ν) :
    Agrees normal (Function.update bySpelling k a) (Function.update byId (normal k) b) ↔
      Alone normal bySpelling k ∧ a = b ∨ ¬ Alone normal bySpelling k ∧ a = 0 ∧ b = byId (normal k) := by
  by_cases alone : Alone normal bySpelling k
  · have aloneNow : Alone normal (Function.update bySpelling k a) k := by
      intro x same isX
      rw [Function.update_of_ne isX]
      exact alone x same isX
    simp only [alone,true_and,not_true,false_and,or_false]
    constructor
    · intro now
      have both := now.alone aloneNow
      rw [Function.update_self,Function.update_self] at both
      exact both.symm
    · rintro rfl
      exact agrees_update_alone agrees alone a
  · obtain ⟨zero,_⟩ := agrees.not_alone alone
    simp only [alone,false_and,not_false_eq_true,true_and,false_or]
    constructor
    · intro now
      have sharedNow : ¬ Alone normal (Function.update bySpelling k a) k := by
        intro aloneNow
        apply alone
        intro x same isX
        have nothing := aloneNow x same isX
        rwa [Function.update_of_ne isX] at nothing
      have gone := (now.not_alone sharedNow).1
      rw [Function.update_self] at gone
      refine ⟨gone,?_⟩
      simp only [Alone,not_forall] at alone
      obtain ⟨x,same,isX,counts⟩ := alone
      have after : Function.update bySpelling k a x = bySpelling x := Function.update_of_ne isX _ _
      have old := (agrees.counted (normal k) _ counts).mp ⟨x,same,rfl⟩
      have new := (now.counted (normal k) _ counts).mp ⟨x,same,after⟩
      rw [Function.update_self] at new
      exact new.trans old.symm
    · rintro ⟨rfl,rfl⟩
      rw [← zero,Function.update_eq_self,Function.update_eq_self]
      exact agrees

end Spellings
