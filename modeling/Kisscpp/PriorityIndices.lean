import Kisscpp.PriorityLevels

namespace Kisscpp
open Stepping PriorityQueue

variable {σ β : Type*}

inductive IndexedCall (β : Type*) where
  | call (c : PriorityCall β)
  | clear

structure Indexed (σ β : Type*) where
  queue : PriorityQueue σ β
  indices : List Nat

def PriorityQueue.searched (fifo : Fifo σ (Option β)) (q : PriorityQueue σ β) : List Nat :=
  List.range (min (q.firstFilled fifo + 1) q.levels)

def PriorityQueue.indices (fifo : Fifo σ (Option β)) (q : PriorityQueue σ β) : IndexedCall β → List Nat
  | .call (.push _ priority) => [if q.levels ≤ priority then q.levels - 1 else priority]
  | .call .pop => q.searched fifo ++ [q.firstFilled fifo]
  | .call .pushBackLastPop => if 0 ≤ q.lastPopLevel then [q.lastPopLevel.toNat] else []
  | .call .empty => q.searched fifo
  | .call .lastPopObject => []
  | .clear => List.range q.levels

-- pop notes the level before it asks for it. What clear does to one of the
-- queues plays no part here.
def PriorityQueue.indexedCall (fifo : Fifo σ (Option β)) (wipe : σ → σ) (q : PriorityQueue σ β) :
    IndexedCall β → PriorityQueue σ β
  | .call .pop => {(q.pop fifo).2 with lastPopLevel := asInt (q.firstFilled fifo)}
  | .call c => (q.call fifo c).2
  | .clear => {q with persistedQList := q.persistedQList.map wipe}

def indexing (fifo : Fifo σ (Option β)) (wipe : σ → σ) : Machine (Indexed σ β) (IndexedCall β) Unit where
  step s c := ((),⟨s.queue.indexedCall fifo wipe c,s.queue.indices fifo c⟩)

def indexed (fifo : Fifo σ (Option β)) (priorityLevels : Nat) : Indexed σ β := ⟨.created fifo priorityLevels,[]⟩

structure InBounds (priorityLevels : Nat) (s : Indexed σ β) : Prop where
  levels : s.queue.levels = priorityLevels
  counted : s.queue.persistedQList.length = priorityLevels
  inside : ∀ k ∈ s.indices, k < priorityLevels
  lower : -1 ≤ s.queue.lastPopLevel
  upper : s.queue.lastPopLevel < priorityLevels

def FindsLevel (fifo : Fifo σ (Option β)) (s : Indexed σ β) (c : IndexedCall β) : Prop :=
  c = .call .pop → ∃ level < 2147483648, ∃ persistedQ, s.queue.persistedQList[level]? = some persistedQ ∧
    fifo.isEmpty persistedQ = false

-- An unsigned that is not an int is stored as a number below -1.
theorem asInt_large {level : Nat} (large : 2147483648 ≤ level) (unsigned : level < 4294967295) : asInt level < -1 := by
  unfold asInt Int.bmod
  simp only [Int.ofNat_mod_ofNat]
  split
  · omega
  · omega

theorem finds_firstFilled (fifo : Fifo σ (Option β)) (q : PriorityQueue σ β) :
    (∃ level < 2147483648, ∃ persistedQ, q.persistedQList[level]? = some persistedQ ∧ fifo.isEmpty persistedQ = false) ↔
      q.firstFilled fifo < q.persistedQList.length ∧ q.firstFilled fifo < 2147483648 := by
  constructor
  · intro finds
    obtain ⟨level,small,persistedQ,here,filled⟩ := finds
    obtain ⟨inside,same⟩ := List.getElem?_eq_some_iff.mp here
    have first : q.firstFilled fifo ≤ level := by
      apply Nat.le_of_not_lt
      intro later
      have empty := List.not_of_lt_findIdx later
      rw [same,filled] at empty
      cases empty
    exact ⟨Nat.lt_of_le_of_lt first inside,Nat.lt_of_le_of_lt first small⟩
  · intro finds
    obtain ⟨inside,small⟩ := finds
    refine ⟨_,small,_,List.getElem?_eq_getElem inside,?_⟩
    have filled : (!fifo.isEmpty q.persistedQList[q.firstFilled fifo]) = true :=
      List.findIdx_getElem (p := fun persistedQ => !fifo.isEmpty persistedQ) (w := inside)
    simpa using filled

theorem pop_levels (fifo : Fifo σ (Option β)) (q : PriorityQueue σ β) :
    (q.pop fifo).2.levels = q.levels ∧ (q.pop fifo).2.persistedQList.length = q.persistedQList.length := by
  unfold PriorityQueue.pop
  cases found : q.persistedQList[q.firstFilled fifo]? with
  | none => simp only [found,and_self]
  | some persistedQ => simp only [found,List.length_set,and_self]

theorem searched_inside (fifo : Fifo σ (Option β)) (q : PriorityQueue σ β) : ∀ k ∈ q.searched fifo, k < q.levels := by
  intro k member
  have bound := List.mem_range.mp member
  omega

section Bounds
variable {fifo : Fifo σ (Option β)} {wipe : σ → σ} {priorityLevels : Nat} {s : Indexed σ β}

theorem pop_bounds (unsigned : priorityLevels < 4294967296) (bounds : InBounds priorityLevels s) :
    InBounds priorityLevels ((indexing fifo wipe).step s (.call .pop)).2 ↔ FindsLevel fifo s (.call .pop) := by
  have levels : ((indexing fifo wipe).step s (.call .pop)).2.queue.levels = s.queue.levels := by
    simp only [indexing,PriorityQueue.indexedCall,pop_levels]
  have counted : ((indexing fifo wipe).step s (.call .pop)).2.queue.persistedQList.length = s.queue.persistedQList.length := by
    simp only [indexing,PriorityQueue.indexedCall,pop_levels]
  have noted : ((indexing fifo wipe).step s (.call .pop)).2.queue.lastPopLevel = asInt (s.queue.firstFilled fifo) := by
    simp only [indexing,PriorityQueue.indexedCall]
  have finds : FindsLevel fifo s (.call .pop) ↔ s.queue.firstFilled fifo < priorityLevels ∧
      s.queue.firstFilled fifo < 2147483648 := by
    rw [FindsLevel,finds_firstFilled,bounds.counted]
    exact ⟨fun guard => guard rfl,fun found _ => found⟩
  rw [finds]
  constructor
  · intro after
    have inside : s.queue.firstFilled fifo < priorityLevels := by
      apply after.inside
      exact List.mem_append_right _ (List.mem_singleton_self _)
    refine ⟨inside,?_⟩
    by_contra large
    have lower := after.lower
    have below : asInt (s.queue.firstFilled fifo) < -1 := by
      apply asInt_large
      · omega
      · omega
    rw [noted] at lower
    omega
  · intro found
    obtain ⟨inside,small⟩ := found
    rw [asInt_small small] at noted
    refine ⟨levels.trans bounds.levels,counted.trans bounds.counted,?_,?_,?_⟩
    · intro k member
      rcases List.mem_append.mp member with searched | last
      · exact bounds.levels ▸ searched_inside fifo s.queue k searched
      · rw [List.mem_singleton.mp last]
        exact inside
    · rw [noted]
      omega
    · rw [noted]
      omega

theorem push_bounds (positive : 1 ≤ priorityLevels) (p : Option β) (priority : Nat) (bounds : InBounds priorityLevels s) :
    InBounds priorityLevels ((indexing fifo wipe).step s (.call (.push p priority))).2 := by
  refine ⟨bounds.levels,(List.length_modify _ _ _).trans bounds.counted,?_,bounds.lower,bounds.upper⟩
  intro k member
  rw [List.mem_singleton.mp member,bounds.levels]
  split <;> omega

theorem pushBackLastPop_bounds (bounds : InBounds priorityLevels s) :
    InBounds priorityLevels ((indexing fifo wipe).step s (.call .pushBackLastPop)).2 := by
  obtain ⟨levels,counted,_,lower,upper⟩ := bounds
  by_cases remembered : 0 ≤ s.queue.lastPopLevel
  · have returned : s.queue.pushBackLastPop fifo = ⟨s.queue.levels,-1,none,
        s.queue.persistedQList.modify s.queue.lastPopLevel.toNat (fifo.pushBack · s.queue.lastPopedObject)⟩ :=
      if_pos remembered
    have asked : s.queue.indices fifo (.call .pushBackLastPop) = [s.queue.lastPopLevel.toNat] := if_pos remembered
    simp only [indexing,PriorityQueue.indexedCall,PriorityQueue.call,returned,asked]
    refine ⟨levels,(List.length_modify _ _ _).trans counted,?_,Int.le_refl _,?_⟩
    · intro k member
      rw [List.mem_singleton.mp member]
      omega
    · change (-1 : Int) < priorityLevels
      omega
  · have returned : s.queue.pushBackLastPop fifo = s.queue := if_neg remembered
    have asked : s.queue.indices fifo (.call .pushBackLastPop) = [] := if_neg remembered
    simp only [indexing,PriorityQueue.indexedCall,PriorityQueue.call,returned,asked]
    exact ⟨levels,counted,by simp,lower,upper⟩

theorem call_bounds (positive : 1 ≤ priorityLevels) (unsigned : priorityLevels < 4294967296) (c : IndexedCall β)
    (bounds : InBounds priorityLevels s) :
    InBounds priorityLevels ((indexing fifo wipe).step s c).2 ↔ FindsLevel fifo s c := by
  by_cases pops : c = .call .pop
  · subst pops
    exact pop_bounds unsigned bounds
  · refine iff_of_true ?_ (fun same => absurd same pops)
    match c with
    | .call (.push p priority) => exact push_bounds positive p priority bounds
    | .call .pop => exact absurd rfl pops
    | .call .lastPopObject =>
      exact ⟨bounds.levels,bounds.counted,fun k member => (by cases member),bounds.lower,bounds.upper⟩
    | .call .pushBackLastPop => exact pushBackLastPop_bounds bounds
    | .call .empty =>
      refine ⟨bounds.levels,bounds.counted,?_,bounds.lower,bounds.upper⟩
      exact bounds.levels ▸ searched_inside fifo s.queue
    | .clear =>
      refine ⟨bounds.levels,(List.length_map _).trans bounds.counted,?_,bounds.lower,bounds.upper⟩
      intro k member
      exact bounds.levels ▸ List.mem_range.mp member

end Bounds

theorem indexed_bounds (fifo : Fifo σ (Option β)) (priorityLevels : Nat) :
    InBounds priorityLevels (indexed fifo priorityLevels) := by
  refine ⟨rfl,List.length_replicate,by simp [indexed],Int.le_refl _,?_⟩
  change (-1 : Int) < priorityLevels
  omega

theorem run_in_bounds (fifo : Fifo σ (Option β)) (wipe : σ → σ) {priorityLevels : Nat} (positive : 1 ≤ priorityLevels)
    (unsigned : priorityLevels < 4294967296) (calls : List (IndexedCall β)) :
    (indexing fifo wipe).Throughout (InBounds priorityLevels) (indexed fifo priorityLevels) calls ↔
      (indexing fifo wipe).Admits (FindsLevel fifo) (indexed fifo priorityLevels) calls :=
  throughout_admits (fun _ c bounds => call_bounds positive unsigned c bounds) (indexed_bounds fifo priorityLevels)

def popsFilled : List (IndexedCall Bool) := [.call (.push (some true) 7),.call .pop,.call .pushBackLastPop,.clear]

theorem run_in_bounds_two : (indexing (listFifo (Option Bool)) (fun _ => [])).Throughout (InBounds 2) (indexed (listFifo _) 2)
    popsFilled := by
  apply (run_in_bounds (listFifo (Option Bool)) (fun _ => []) (by decide) (by decide) popsFilled).mpr
  refine ⟨fun pops => (by cases pops),fun _ => ⟨1,by decide,_,rfl,rfl⟩,fun pops => (by cases pops),
    fun pops => (by cases pops),trivial⟩

-- A pop with every level empty asks for the level behind the last.
theorem empty_pop_outside : ¬ (indexing (listFifo (Option Bool)) (fun _ => [])).Throughout (InBounds 1)
    (indexed (listFifo _) 1) [.call .pop] := by
  intro always
  have asked := always.2.inside 1 (by decide)
  omega

end Kisscpp
