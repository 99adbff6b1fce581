import Mathlib.Data.List.Pairwise
import Mathlib.Data.List.Perm.Basic
import Mathlib.Order.Lattice

namespace KeyedLists

-- An ordered map from keys to lists, by its entries in key order.
variable {κ α : Type*}

def held (m : List (κ × List α)) : List α := m.flatMap Prod.snd

@[simp] theorem held_nil : held ([] : List (κ × List α)) = [] := rfl
@[simp] theorem held_cons (e : κ × List α) (rest : List (κ × List α)) : held (e :: rest) = e.2 ++ held rest := rfl

theorem foldl_length (m : List (κ × List α)) (start : Nat) :
    m.foldl (fun count e => count + e.2.length) start = start + (held m).length := by
  induction m generalizing start with
  | nil => rfl
  | cons e rest ih => rw [List.foldl_cons,ih,held_cons,List.length_append,Nat.add_assoc]

theorem mem_held {m : List (κ × List α)} {x : α} : x ∈ held m ↔ ∃ e ∈ m, x ∈ e.2 := List.mem_flatMap

variable [LinearOrder κ]

def pushAt (key : κ) (x : α) : List (κ × List α) → List (κ × List α)
  | [] => [(key,[x])]
  | (other,l) :: rest =>
    if key < other then (key,[x]) :: (other,l) :: rest
    else if key = other then (other,l ++ [x]) :: rest
    else (other,l) :: pushAt key x rest

def listAt (key : κ) (m : List (κ × List α)) : List α := ((m.find? fun e => e.1 = key).map Prod.snd).getD []

def erase (key : κ) (m : List (κ × List α)) : List (κ × List α) := m.filter fun e => e.1 ≠ key

def Sorted (m : List (κ × List α)) : Prop := m.Pairwise fun e later => e.1 < later.1

structure Filed (keyOf : α → κ) (before : α → α → Prop) (m : List (κ × List α)) : Prop where
  sorted : Sorted m
  keyed : ∀ e ∈ m, ∀ x ∈ e.2, keyOf x = e.1
  ordered : ∀ e ∈ m, e.2.Pairwise before

theorem pushAt_mem {key : κ} {x : α} {m : List (κ × List α)} : ∀ e ∈ pushAt key x m,
    e ∈ m ∨ e.1 = key ∧ (e.2 = [x] ∨ ∃ l, (key,l) ∈ m ∧ e.2 = l ++ [x]) := by
  induction m with
  | nil =>
    intro e member
    rw [List.mem_singleton.mp member]
    exact .inr ⟨rfl,.inl rfl⟩
  | cons first rest ih =>
    obtain ⟨other,l⟩ := first
    intro e member
    unfold pushAt at member
    split at member
    · rcases List.mem_cons.mp member with rfl | old
      · exact .inr ⟨rfl,.inl rfl⟩
      · exact .inl old
    · split at member
      · next same =>
        subst same
        rcases List.mem_cons.mp member with rfl | old
        · exact .inr ⟨rfl,.inr ⟨l,List.mem_cons_self,rfl⟩⟩
        · exact .inl (List.mem_cons_of_mem _ old)
      · rcases List.mem_cons.mp member with rfl | deeper
        · exact .inl List.mem_cons_self
        · rcases ih e deeper with old | ⟨same,single | ⟨l,inRest,longer⟩⟩
          · exact .inl (List.mem_cons_of_mem _ old)
          · exact .inr ⟨same,.inl single⟩
          · exact .inr ⟨same,.inr ⟨l,List.mem_cons_of_mem _ inRest,longer⟩⟩

theorem sorted_pushAt {key : κ} {x : α} {m : List (κ × List α)} (sorted : Sorted m) : Sorted (pushAt key x m) := by
  induction m with
  | nil => exact List.pairwise_singleton _ _
  | cons first rest ih =>
    obtain ⟨other,l⟩ := first
    obtain ⟨least,sortedRest⟩ := List.pairwise_cons.mp sorted
    unfold pushAt
    split
    · next earlier =>
      refine List.pairwise_cons.mpr ⟨?_,sorted⟩
      intro e member
      rcases List.mem_cons.mp member with rfl | later
      · exact earlier
      · exact lt_trans earlier (least e later)
    · next notBefore =>
      split
      · exact List.pairwise_cons.mpr ⟨least,sortedRest⟩
      · next different =>
        refine List.pairwise_cons.mpr ⟨?_,ih sortedRest⟩
        intro e member
        rcases pushAt_mem e member with old | ⟨same,_⟩
        · exact least e old
        · rw [same]
          exact lt_of_le_of_ne (not_lt.mp notBefore) (Ne.symm different)

theorem held_pushAt (key : κ) (x : α) (m : List (κ × List α)) : (held (pushAt key x m)).Perm (x :: held m) := by
  induction m with
  | nil => exact .refl _
  | cons first rest ih =>
    obtain ⟨other,l⟩ := first
    unfold pushAt
    split
    · exact .refl _
    · split
      · simp only [held_cons,List.append_assoc,List.singleton_append]
        exact List.perm_middle
      · simp only [held_cons]
        exact (ih.append_left l).trans List.perm_middle

theorem filed_pushAt {keyOf : α → κ} {before : α → α → Prop} {m : List (κ × List α)} (filed : Filed keyOf before m)
    {x : α} (last : ∀ y ∈ held m, before y x) : Filed keyOf before (pushAt (keyOf x) x m) := by
  refine ⟨sorted_pushAt filed.sorted,?_,?_⟩
  · intro e member y inList
    rcases pushAt_mem e member with old | ⟨same,single | ⟨l,inMap,longer⟩⟩
    · exact filed.keyed e old y inList
    · rw [single] at inList
      rw [List.mem_singleton.mp inList,same]
    · rw [longer] at inList
      rcases List.mem_append.mp inList with before | new
      · exact (filed.keyed _ inMap y before).trans same.symm
      · rw [List.mem_singleton.mp new,same]
  · intro e member
    rcases pushAt_mem e member with old | ⟨_,single | ⟨l,inMap,longer⟩⟩
    · exact filed.ordered e old
    · rw [single]
      exact List.pairwise_singleton _ _
    · rw [longer]
      refine List.pairwise_append.mpr ⟨filed.ordered _ inMap,List.pairwise_singleton _ _,?_⟩
      intro y inList z new
      rw [List.mem_singleton.mp new]
      exact last y (mem_held.mpr ⟨_,inMap,inList⟩)

theorem filed_filter {keyOf : α → κ} {before : α → α → Prop} {m : List (κ × List α)} (filed : Filed keyOf before m)
    (p : κ × List α → Bool) : Filed keyOf before (m.filter p) :=
  ⟨filed.sorted.filter p,fun e member => filed.keyed e (List.mem_filter.mp member).1,
    fun e member => filed.ordered e (List.mem_filter.mp member).1⟩

theorem filed_pairwise {keyOf : α → κ} {before : α → α → Prop} {m : List (κ × List α)} (filed : Filed keyOf before m) :
    (held m).Pairwise fun x y => keyOf x < keyOf y ∨ keyOf x = keyOf y ∧ before x y := by
  refine List.pairwise_flatMap.mpr ⟨?_,?_⟩
  · intro e member
    refine (filed.ordered e member).imp_of_mem ?_
    intro x y inX inY order
    exact .inr ⟨(filed.keyed e member x inX).trans (filed.keyed e member y inY).symm,order⟩
  · refine filed.sorted.imp_of_mem ?_
    intro e later inE inLater order x inX y inY
    rw [filed.keyed e inE x inX,filed.keyed later inLater y inY]
    exact .inl order

theorem listAt_middle {front rest : List (κ × List α)} {key : κ} {l : List α} (apart : ∀ e ∈ front, e.1 ≠ key) :
    listAt key (front ++ (key,l) :: rest) = l := by
  have none : front.find? (fun e => e.1 = key) = none := List.find?_eq_none.mpr (by simpa using apart)
  simp [listAt,List.find?_append,none]

theorem erase_middle {front rest : List (κ × List α)} {key : κ} {l : List α} (apart : ∀ e ∈ front, e.1 ≠ key)
    (others : ∀ e ∈ rest, e.1 ≠ key) : erase key (front ++ (key,l) :: rest) = front ++ rest := by
  have keepFront : front.filter (fun e => e.1 ≠ key) = front := List.filter_eq_self.mpr (by simpa using apart)
  have keepRest : rest.filter (fun e => e.1 ≠ key) = rest := List.filter_eq_self.mpr (by simpa using others)
  rw [erase,List.filter_append,keepFront,List.filter_cons_of_neg (by simp),keepRest]

end KeyedLists
