import Mathlib.Data.Int.Order.Basic
import Kisscpp.Machine
import Kisscpp.Fifo
import Kisscpp.LevelLists

namespace Kisscpp
open Stepping LevelLists

variable {σ β : Type*}

-- lastPopLevel is an int and the loop counts in unsigned: an int of 32 bits
-- keeps the levels below 2^31.
def asInt (level : Nat) : Int := Int.bmod level 4294967296

theorem asInt_small {level : Nat} (small : level < 2147483648) : asInt level = level := by
  apply Int.bmod_eq_of_le
  · omega
  · omega

theorem asInt_limit : asInt 2147483648 = -2147483648 := by decide

-- shared_ptr<_qoT> is null or an object.
structure PriorityQueue (σ β : Type*) where
  levels : Nat
  lastPopLevel : Int
  lastPopedObject : Option β
  persistedQList : List σ

namespace PriorityQueue

def createQueues (fifo : Fifo σ (Option β)) (levels : Nat) : List σ := List.replicate levels fifo.start

def created (fifo : Fifo σ (Option β)) (priorityLevels : Nat) : PriorityQueue σ β :=
  ⟨priorityLevels,-1,none,createQueues fifo priorityLevels⟩

def firstFilled (fifo : Fifo σ (Option β)) (q : PriorityQueue σ β) : Nat :=
  q.persistedQList.findIdx fun persistedQ => !fifo.isEmpty persistedQ

def push (fifo : Fifo σ (Option β)) (p : Option β) (priority : Nat) (q : PriorityQueue σ β) : PriorityQueue σ β :=
  let priority := if q.levels ≤ priority then q.levels - 1 else priority
  {q with persistedQList := q.persistedQList.modify priority (fifo.pushBack · p)}

-- With every level empty the loop ends past the vector, which is undefined.
def pop (fifo : Fifo σ (Option β)) (q : PriorityQueue σ β) : Option β × PriorityQueue σ β :=
  let i := q.firstFilled fifo
  match q.persistedQList[i]? with
  | none => (none,q)
  | some persistedQ =>
    let popped := (fifo.popFront persistedQ).1.join
    (popped,⟨q.levels,asInt i,popped,q.persistedQList.set i (fifo.popFront persistedQ).2⟩)

def pushBackLastPop (fifo : Fifo σ (Option β)) (q : PriorityQueue σ β) : PriorityQueue σ β :=
  if 0 ≤ q.lastPopLevel then
    ⟨q.levels,-1,none,q.persistedQList.modify q.lastPopLevel.toNat (fifo.pushBack · q.lastPopedObject)⟩
  else q

def empty (fifo : Fifo σ (Option β)) (q : PriorityQueue σ β) : Bool := q.firstFilled fifo == q.levels

def contents (fifo : Fifo σ (Option β)) (q : PriorityQueue σ β) : List (List (Option β)) :=
  q.persistedQList.map fifo.content

def lastPop (q : PriorityQueue σ β) : Option (Nat × Option β) :=
  if 0 ≤ q.lastPopLevel then some (q.lastPopLevel.toNat,q.lastPopedObject) else none

structure Sane (q : PriorityQueue σ β) : Prop where
  positive : 1 ≤ q.levels
  counted : q.persistedQList.length = q.levels
  inside : q.lastPopLevel < q.levels
  forgotten : q.lastPopLevel < 0 → q.lastPopedObject = none

theorem created_sane (fifo : Fifo σ (Option β)) {levels : Nat} (positive : 1 ≤ levels) : (created fifo levels).Sane := by
  refine ⟨positive,List.length_replicate,?_,fun _ => rfl⟩
  change (-1 : Int) < levels
  omega

theorem created_contents (fifo : Fifo σ (Option β)) (levels : Nat) :
    (created fifo levels).contents fifo = List.replicate levels [] := by
  simp only [contents,created,createQueues,List.map_replicate,fifo.content_start]

theorem length_contents (fifo : Fifo σ (Option β)) {q : PriorityQueue σ β} (sane : q.Sane) :
    (q.contents fifo).length = q.levels := by
  simp only [contents,List.length_map,sane.counted]

theorem firstFilled_lowest (fifo : Fifo σ (Option β)) (q : PriorityQueue σ β) :
    q.firstFilled fifo = lowest (q.contents fifo) := by
  rw [lowest,contents,List.findIdx_map]
  apply congrArg (fun p => List.findIdx p q.persistedQList)
  funext persistedQ
  simp only [Function.comp_apply,fifo.isEmpty_content]

theorem empty_contents (fifo : Fifo σ (Option β)) {q : PriorityQueue σ β} (sane : q.Sane) :
    q.empty fifo = true ↔ ∀ l ∈ q.contents fifo, l = [] := by
  rw [empty,beq_iff_eq,firstFilled_lowest,← length_contents fifo sane]
  exact lowest_full

theorem contents_modify (fifo : Fifo σ (Option β)) (p : Option β) (level : Nat) (l : List σ) :
    (l.modify level (fifo.pushBack · p)).map fifo.content = appendAt level p (l.map fifo.content) :=
  map_modify (fun s => fifo.content_pushBack s p) l level

theorem push_contents (fifo : Fifo σ (Option β)) (p : Option β) (priority : Nat) {q : PriorityQueue σ β}
    (sane : q.Sane) : (q.push fifo p priority).Sane ∧
      (q.push fifo p priority).contents fifo = appendAt (min priority (q.levels - 1)) p (q.contents fifo) ∧
      (q.push fifo p priority).lastPop = q.lastPop := by
  have positive := sane.positive
  have level : (if q.levels ≤ priority then q.levels - 1 else priority) = min priority (q.levels - 1) := by
    split <;> omega
  refine ⟨⟨positive,?_,sane.inside,sane.forgotten⟩,?_,rfl⟩
  · exact (List.length_modify _ _ _).trans sane.counted
  · rw [← level]
    exact contents_modify fifo p _ q.persistedQList

theorem pushBackLastPop_contents (fifo : Fifo σ (Option β)) {q : PriorityQueue σ β} (sane : q.Sane) :
    (q.pushBackLastPop fifo).Sane ∧ (q.pushBackLastPop fifo).lastPop = none ∧
      (q.pushBackLastPop fifo).contents fifo =
        match q.lastPop with
        | none => q.contents fifo
        | some (level,item) => appendAt level item (q.contents fifo) := by
  by_cases remembered : 0 ≤ q.lastPopLevel
  · simp only [pushBackLastPop,lastPop,if_pos remembered]
    refine ⟨⟨sane.positive,?_,?_,fun _ => rfl⟩,rfl,contents_modify fifo q.lastPopedObject _ q.persistedQList⟩
    · exact (List.length_modify _ _ _).trans sane.counted
    · have positive := sane.positive
      change (-1 : Int) < q.levels
      omega
  · simp only [pushBackLastPop,lastPop,if_neg remembered]
    exact ⟨sane,trivial,trivial⟩

theorem pushBackLastPop_levels (fifo : Fifo σ (Option β)) (q : PriorityQueue σ β) :
    (q.pushBackLastPop fifo).levels = q.levels := by
  unfold pushBackLastPop
  split <;> rfl

structure Popped (fifo : Fifo σ (Option β)) (q : PriorityQueue σ β) (level : Nat) (item : Option β)
    (rest : List (Option β)) (answer : Option β) (after : PriorityQueue σ β) : Prop where
  here : (q.contents fifo)[level]? = some (item :: rest)
  below : ∀ lower < level, (q.contents fifo)[lower]? = some []
  answered : answer = item
  contents : after.contents fifo = dropAt level (q.contents fifo)
  counted : after.persistedQList.length = q.persistedQList.length
  noted : after = ⟨q.levels,asInt level,item,after.persistedQList⟩

theorem pop_popped (fifo : Fifo σ (Option β)) {q : PriorityQueue σ β} (sane : q.Sane)
    (filled : q.empty fifo = false) :
    ∃ level item rest, Popped fifo q level item rest (q.pop fifo).1 (q.pop fifo).2 := by
  have filledLevel : ¬ ∀ l ∈ q.contents fifo, l = [] := by
    intro nothing
    rw [(empty_contents fifo sane).mpr nothing] at filled
    cases filled
  obtain ⟨item,rest,here,below⟩ := lowest_first filledLevel
  rw [← firstFilled_lowest] at here below
  have queued := here
  rw [PriorityQueue.contents,List.getElem?_map] at queued
  obtain ⟨persistedQ,found,content⟩ := Option.map_eq_some_iff.mp queued
  have popped : (fifo.popFront persistedQ).1.join = item := by
    rw [fifo.popFront_head,content]
    rfl
  have ran : q.pop fifo = (item,⟨q.levels,asInt (q.firstFilled fifo),item,
      q.persistedQList.set (q.firstFilled fifo) (fifo.popFront persistedQ).2⟩) := by
    simp only [pop,found,popped]
  refine ⟨q.firstFilled fifo,item,rest,here,below,?_,?_,?_,?_⟩
  · rw [ran]
  · rw [ran,dropAt_set here]
    simp only [PriorityQueue.contents,List.map_set,fifo.content_popFront,content,List.tail_cons]
  · rw [ran]
    exact List.length_set
  · rw [ran]

theorem Popped.inside {fifo : Fifo σ (Option β)} {q after : PriorityQueue σ β} {level : Nat} {item answer : Option β}
    {rest : List (Option β)} (popped : Popped fifo q level item rest answer after) (sane : q.Sane) :
    level < q.levels := by
  obtain ⟨inside,_⟩ := List.getElem?_eq_some_iff.mp popped.here
  rwa [length_contents fifo sane] at inside

theorem Popped.kept {fifo : Fifo σ (Option β)} {q after : PriorityQueue σ β} {level : Nat} {item answer : Option β}
    {rest : List (Option β)} (popped : Popped fifo q level item rest answer after) (sane : q.Sane)
    (small : level < 2147483648) : after.Sane ∧ after.lastPop = some (level,item) := by
  have inside := popped.inside sane
  have counted := popped.counted.trans sane.counted
  have noted := popped.noted
  rw [asInt_small small] at noted
  revert counted
  rw [noted]
  intro counted
  have holds : (0 : Int) ≤ level := Int.natCast_nonneg level
  refine ⟨⟨sane.positive,counted,Int.ofNat_lt.mpr inside,fun negative => absurd holds (Int.not_le.mpr negative)⟩,?_⟩
  simp only [lastPop,if_pos holds,Int.toNat_natCast]

end PriorityQueue
end Kisscpp
