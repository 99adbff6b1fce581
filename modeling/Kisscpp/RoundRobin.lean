import Mathlib.Data.Finset.Card
import Mathlib.Data.Nat.ModEq

namespace RoundRobin

def turns (n a m : Nat) : List Nat := (List.range m).map fun k => (a + k) % n

variable {n : Nat}

theorem turns_add (a m later : Nat) : turns n a (m + later) = turns n a m ++ turns n (a + m) later := by
  simp only [turns,List.range_add,List.map_append,List.map_map]
  congr 1
  apply List.map_congr_left
  intro k _
  simp only [Function.comp_apply,Nat.add_assoc]

theorem turns_succ (a m : Nat) : turns n a (m + 1) = turns n a m ++ [(a + m) % n] := by
  rw [turns_add]
  rfl

theorem next_turn (positive : 0 < n) (a : Nat) : (if a % n + 1 = n then 0 else a % n + 1) = (a + 1) % n := by
  have inside := Nat.mod_lt a positive
  have split : (a + 1) % n = (a % n + 1) % n := (Nat.mod_add_mod a n 1).symm
  rw [split]
  split
  next full => rw [full,Nat.mod_self]
  next room => exact (Nat.mod_eq_of_lt (by omega)).symm

theorem length_turns (a m : Nat) : (turns n a m).length = m := by
  rw [turns,List.length_map,List.length_range]

theorem turns_inside (positive : 0 < n) (a m : Nat) : ∀ i ∈ turns n a m, i < n := by
  intro i member
  obtain ⟨k,_,rfl⟩ := List.mem_map.mp member
  exact Nat.mod_lt _ positive

theorem turns_nodup (a : Nat) {m : Nat} (short : m ≤ n) : (turns n a m).Nodup := by
  refine List.Nodup.map_on ?_ List.nodup_range
  intro first firstInside second secondInside same
  rw [List.mem_range] at firstInside secondInside
  have congruent : first % n = second % n := Nat.ModEq.add_left_cancel' a same
  rwa [Nat.mod_eq_of_lt (by omega),Nat.mod_eq_of_lt (by omega)] at congruent

theorem mem_round (a : Nat) {i : Nat} (inside : i < n) : i ∈ turns n a n := by
  have all : (turns n a n).toFinset = Finset.range n := by
    apply Finset.eq_of_subset_of_card_le
    · intro j member
      exact Finset.mem_range.mpr (turns_inside (by omega) a n j (List.mem_toFinset.mp member))
    · rw [List.toFinset_card_of_nodup (turns_nodup a (Nat.le_refl n)),length_turns,Finset.card_range]
  rw [← List.mem_toFinset,all]
  exact Finset.mem_range.mpr inside

theorem count_round (a m : Nat) {i : Nat} (inside : i < n) : (turns n a (m + n)).count i = (turns n a m).count i + 1 := by
  rw [turns_add,List.count_append,List.count_eq_one_of_mem (turns_nodup _ (Nat.le_refl n)) (mem_round _ inside)]

theorem turns_balanced (a m : Nat) {i j : Nat} (inside : i < n) (other : j < n) :
    (turns n a m).count i ≤ (turns n a m).count j + 1 := by
  induction m using Nat.strong_induction_on with
  | h m ih =>
    by_cases short : m ≤ n
    · have single := List.nodup_iff_count_le_one.mp (turns_nodup (n := n) a short) i
      omega
    · obtain ⟨rest,rfl⟩ : ∃ rest, m = rest + n := ⟨m - n,by omega⟩
      rw [count_round a rest inside,count_round a rest other]
      exact Nat.succ_le_succ (ih rest (by omega))

end RoundRobin
