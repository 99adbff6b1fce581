import Kisscpp.PriorityQueue

namespace Kisscpp
open Stepping LevelLists PriorityQueue

variable {σ β : Type*}

inductive PriorityCall (β : Type*) where
  | push (p : Option β) (priority : Nat)
  | pop
  | lastPopObject
  | pushBackLastPop
  | empty

inductive PriorityReply (β : Type*) where
  | done
  | item (p : Option β)
  | flag (value : Bool)

def PriorityQueue.call (fifo : Fifo σ (Option β)) (q : PriorityQueue σ β) :
    PriorityCall β → PriorityReply β × PriorityQueue σ β
  | .push p priority => (.done,q.push fifo p priority)
  | .pop => (.item (q.pop fifo).1,(q.pop fifo).2)
  | .lastPopObject => (.item q.lastPopedObject,q)
  | .pushBackLastPop => (.done,q.pushBackLastPop fifo)
  | .empty => (.flag (q.empty fifo),q)

-- What the queue is for: a list for each level, and the item of the latest pop
-- with its level until that pop was taken back.
structure Levels (β : Type*) where
  lists : List (List (Option β))
  taken : Option (Nat × Option β)

def Levels.call (s : Levels β) : PriorityCall β → PriorityReply β × Levels β
  | .push p priority => (.done,⟨appendAt (min priority (s.lists.length - 1)) p s.lists,s.taken⟩)
  | .pop =>
    match s.lists[lowest s.lists]? with
    | some (oldest :: _) => (.item oldest,⟨dropAt (lowest s.lists) s.lists,some (lowest s.lists,oldest)⟩)
    | _ => (.item none,s)
  | .lastPopObject => (.item (s.taken.bind Prod.snd),s)
  | .pushBackLastPop =>
    match s.taken with
    | some (level,item) => (.done,⟨appendAt level item s.lists,none⟩)
    | none => (.done,s)
  | .empty => (.flag (s.lists.all List.isEmpty),s)

def levelMachine : Machine (Levels β) (PriorityCall β) (PriorityReply β) where
  step := Levels.call

-- What the caller can count: the items pushed, and the items popped and not
-- returned, the latest first.
structure Ledger (β : Type*) where
  pushed : List (Option β)
  out : List (Option β)
  returnable : Bool

def Ledger.record (l : Ledger β) : PriorityCall β → PriorityReply β → Ledger β
  | .push p _,_ => {l with pushed := p :: l.pushed}
  | .pop,.item p => ⟨l.pushed,p :: l.out,true⟩
  | .pushBackLastPop,_ => if l.returnable then ⟨l.pushed,l.out.tail,false⟩ else l
  | _,_ => l

structure Tallied (σ β : Type*) where
  queue : PriorityQueue σ β
  ledger : Ledger β

def tallying (fifo : Fifo σ (Option β)) : Machine (Tallied σ β) (PriorityCall β) (PriorityReply β) where
  step s c := ((s.queue.call fifo c).1,⟨(s.queue.call fifo c).2,s.ledger.record c (s.queue.call fifo c).1⟩)

def tallied (fifo : Fifo σ (Option β)) (priorityLevels : Nat) : Tallied σ β :=
  ⟨.created fifo priorityLevels,⟨[],[],false⟩⟩

def PopsFilled (fifo : Fifo σ (Option β)) (s : Tallied σ β) (c : PriorityCall β) : Prop :=
  c = .pop → s.queue.empty fifo = false

def PriorityQueue.view (fifo : Fifo σ (Option β)) (q : PriorityQueue σ β) : Levels β := ⟨q.contents fifo,q.lastPop⟩

structure Conserves (fifo : Fifo σ (Option β)) (s : Tallied σ β) : Prop where
  sane : s.queue.Sane
  small : s.queue.levels ≤ 2147483648
  returnable : s.ledger.returnable = s.queue.lastPop.isSome
  latest : ∀ level item, s.queue.lastPop = some (level,item) →
    level < s.queue.levels ∧ s.ledger.out.head? = some item
  conserved : ((s.queue.contents fifo).flatten ++ s.ledger.out).Perm s.ledger.pushed

def Follows (fifo : Fifo σ (Option β)) (s : Tallied σ β) (c : PriorityCall β) : Prop :=
  Conserves fifo ((tallying fifo).step s c).2 ∧
    (((tallying fifo).step s c).1,((tallying fifo).step s c).2.queue.view fifo) = (s.queue.view fifo).call c

theorem push_follows {fifo : Fifo σ (Option β)} {s : Tallied σ β} (conserves : Conserves fifo s) (p : Option β)
    (priority : Nat) : Follows fifo s (.push p priority) := by
  obtain ⟨sane,contents,kept⟩ := push_contents fifo p priority conserves.sane
  have positive := conserves.sane.positive
  have inside : min priority (s.queue.levels - 1) < (s.queue.contents fifo).length := by
    rw [length_contents fifo conserves.sane]
    omega
  refine ⟨⟨sane,conserves.small,conserves.returnable,conserves.latest,?_⟩,?_⟩
  · change (((s.queue.push fifo p priority).contents fifo).flatten ++ s.ledger.out).Perm (p :: s.ledger.pushed)
    rw [contents]
    exact ((flatten_appendAt p inside).append_right _).trans (conserves.conserved.cons p)
  · simp only [tallying,PriorityQueue.call,PriorityQueue.view,Levels.call,contents,kept,
      length_contents fifo conserves.sane]

theorem pop_follows {fifo : Fifo σ (Option β)} {s : Tallied σ β} (conserves : Conserves fifo s)
    (filled : s.queue.empty fifo = false) : Follows fifo s .pop := by
  obtain ⟨level,item,rest,popped⟩ := pop_popped fifo conserves.sane filled
  have inside := popped.inside conserves.sane
  have small := conserves.small
  obtain ⟨sane,remembered⟩ := popped.kept conserves.sane (by omega)
  have levels : (s.queue.pop fifo).2.levels = s.queue.levels := by rw [popped.noted]
  refine ⟨⟨sane,?_,?_,?_,?_⟩,?_⟩
  · exact levels ▸ small
  · change true = (s.queue.pop fifo).2.lastPop.isSome
    rw [remembered]
    rfl
  · intro other x remembers
    cases remembered.symm.trans remembers
    refine ⟨levels ▸ inside,?_⟩
    change ((s.queue.pop fifo).1 :: s.ledger.out).head? = _
    rw [popped.answered]
    rfl
  · change (((s.queue.pop fifo).2.contents fifo).flatten ++ ((s.queue.pop fifo).1 :: s.ledger.out)).Perm s.ledger.pushed
    rw [popped.contents,popped.answered]
    have taken := (flatten_dropAt popped.here).append_right s.ledger.out
    exact (List.perm_middle.trans taken.symm).trans conserves.conserved
  · simp only [tallying,PriorityQueue.call,PriorityQueue.view,Levels.call,lowest_at popped.here popped.below,
      popped.here,popped.answered,popped.contents,remembered]

theorem pushBackLastPop_nothing {fifo : Fifo σ (Option β)} {s : Tallied σ β} (conserves : Conserves fifo s)
    (remembered : s.queue.lastPop = none) : Follows fifo s .pushBackLastPop := by
  obtain ⟨sane,forgotten,contents⟩ := pushBackLastPop_contents fifo conserves.sane
  have small : (s.queue.pushBackLastPop fifo).levels ≤ 2147483648 :=
    pushBackLastPop_levels fifo s.queue ▸ conserves.small
  have returnable := conserves.returnable
  rw [remembered] at contents returnable
  have kept : s.ledger.record .pushBackLastPop (.done : PriorityReply β) = s.ledger := by
    simp only [Ledger.record,returnable,Option.isSome_none,Bool.false_eq_true,if_false]
  refine ⟨⟨sane,small,?_,?_,?_⟩,?_⟩
  · change (s.ledger.record .pushBackLastPop .done).returnable = _
    rw [kept,returnable]
    exact congrArg Option.isSome forgotten.symm
  · intro level item remembers
    cases forgotten.symm.trans remembers
  · change (((s.queue.pushBackLastPop fifo).contents fifo).flatten ++
      (s.ledger.record .pushBackLastPop .done).out).Perm (s.ledger.record .pushBackLastPop .done).pushed
    rw [kept,contents]
    exact conserves.conserved
  · simp only [tallying,PriorityQueue.call,PriorityQueue.view,Levels.call,remembered,forgotten,contents]

theorem pushBackLastPop_returns {fifo : Fifo σ (Option β)} {s : Tallied σ β} (conserves : Conserves fifo s)
    {level : Nat} {item : Option β} (remembered : s.queue.lastPop = some (level,item)) :
    Follows fifo s .pushBackLastPop := by
  obtain ⟨sane,forgotten,contents⟩ := pushBackLastPop_contents fifo conserves.sane
  have small : (s.queue.pushBackLastPop fifo).levels ≤ 2147483648 :=
    pushBackLastPop_levels fifo s.queue ▸ conserves.small
  have returnable := conserves.returnable
  rw [remembered] at contents returnable
  obtain ⟨inside,latest⟩ := conserves.latest level item remembered
  rw [← length_contents fifo conserves.sane] at inside
  obtain ⟨others,out⟩ := List.head?_eq_some_iff.mp latest
  have kept : s.ledger.record .pushBackLastPop (.done : PriorityReply β) = ⟨s.ledger.pushed,s.ledger.out.tail,false⟩ := by
    simp only [Ledger.record,returnable,Option.isSome_some,if_true]
  refine ⟨⟨sane,small,?_,?_,?_⟩,?_⟩
  · change (s.ledger.record .pushBackLastPop .done).returnable = _
    rw [kept]
    exact congrArg Option.isSome forgotten.symm
  · intro other x remembers
    cases forgotten.symm.trans remembers
  · change (((s.queue.pushBackLastPop fifo).contents fifo).flatten ++
      (s.ledger.record .pushBackLastPop .done).out).Perm (s.ledger.record .pushBackLastPop .done).pushed
    rw [kept,contents]
    have back := (flatten_appendAt item inside).append_right s.ledger.out.tail
    have whole := conserves.conserved
    rw [out] at whole back ⊢
    exact back.trans (List.perm_middle.symm.trans whole)
  · simp only [tallying,PriorityQueue.call,PriorityQueue.view,Levels.call,remembered,forgotten,contents]

theorem pushBackLastPop_follows {fifo : Fifo σ (Option β)} {s : Tallied σ β} (conserves : Conserves fifo s) :
    Follows fifo s .pushBackLastPop := by
  cases remembered : s.queue.lastPop with
  | none => exact pushBackLastPop_nothing conserves remembered
  | some last => exact pushBackLastPop_returns conserves remembered

theorem call_follows {fifo : Fifo σ (Option β)} {s : Tallied σ β} {c : PriorityCall β}
    (conserves : Conserves fifo s) (filled : PopsFilled fifo s c) : Follows fifo s c := by
  cases c with
  | push p priority => exact push_follows conserves p priority
  | pop => exact pop_follows conserves (filled rfl)
  | lastPopObject =>
    refine ⟨conserves,?_⟩
    have answered : s.queue.lastPopedObject = s.queue.lastPop.bind Prod.snd := by
      unfold lastPop
      split
      · rfl
      · next negative => exact conserves.sane.forgotten (Int.not_le.mp negative)
    simp only [tallying,PriorityQueue.call,PriorityQueue.view,Levels.call,answered]
  | pushBackLastPop => exact pushBackLastPop_follows conserves
  | empty =>
    refine ⟨conserves,?_⟩
    have answered : s.queue.empty fifo = (s.queue.contents fifo).all List.isEmpty := by
      apply Bool.eq_iff_iff.mpr
      rw [empty_contents fifo conserves.sane,List.all_eq_true]
      simp only [List.isEmpty_iff]
    simp only [tallying,PriorityQueue.call,PriorityQueue.view,Levels.call,answered]

def priorityRefinement (fifo : Fifo σ (Option β)) :
    Refinement (tallying fifo) (levelMachine (β := β)) (PopsFilled fifo) where
  invariant := Conserves fifo
  state s := s.queue.view fifo
  input := id
  output := id
  preserved _ _ conserves filled := (call_follows conserves filled).1
  answered _ _ conserves filled := congrArg Prod.fst (call_follows conserves filled).2
  followed _ _ conserves filled := congrArg Prod.snd (call_follows conserves filled).2

structure Served (fifo : Fifo σ (Option β)) (priorityLevels : Nat) (calls : List (PriorityCall β)) (s : Tallied σ β)
    (replies : List (PriorityReply β)) : Prop where
  answers : replies = (levelMachine.run ⟨List.replicate priorityLevels [],none⟩ calls).1
  contents : s.queue.contents fifo = (levelMachine.run ⟨List.replicate priorityLevels [],none⟩ calls).2.lists
  emptied : s.queue.empty fifo = true ↔ ∀ l ∈ s.queue.contents fifo, l = []
  popped : s.queue.empty fifo = false → ∃ level item rest,
    (s.queue.contents fifo)[level]? = some (item :: rest) ∧
    (∀ lower < level, (s.queue.contents fifo)[lower]? = some []) ∧
    (s.queue.pop fifo).1 = item ∧ (s.queue.pop fifo).2.contents fifo = (s.queue.contents fifo).set level rest
  conserved : ((s.queue.contents fifo).flatten ++ s.ledger.out).Perm s.ledger.pushed

theorem tallied_conserves (fifo : Fifo σ (Option β)) {priorityLevels : Nat} (positive : 1 ≤ priorityLevels)
    (small : priorityLevels ≤ 2147483648) : Conserves fifo (tallied fifo priorityLevels) := by
  refine ⟨created_sane fifo positive,small,rfl,?_,?_⟩
  · intro level item remembers
    cases remembers
  · change (((PriorityQueue.created fifo priorityLevels).contents fifo).flatten ++ []).Perm []
    rw [created_contents,List.append_nil,List.flatten_replicate_nil]

theorem conserves_served {fifo : Fifo σ (Option β)} {priorityLevels : Nat} (positive : 1 ≤ priorityLevels)
    (small : priorityLevels ≤ 2147483648) {calls : List (PriorityCall β)}
    (admitted : (tallying fifo).Admits (PopsFilled fifo) (tallied fifo priorityLevels) calls) :
    Served fifo priorityLevels calls ((tallying fifo).run (tallied fifo priorityLevels) calls).2
      ((tallying fifo).run (tallied fifo priorityLevels) calls).1 := by
  have start := tallied_conserves fifo positive small
  have begins : (tallied fifo priorityLevels).queue.view fifo = ⟨List.replicate priorityLevels [],none⟩ :=
    congrArg (fun lists => Levels.mk lists none) (created_contents fifo priorityLevels)
  obtain ⟨conserves,answers,reached⟩ := (priorityRefinement fifo).run start admitted
  have same : calls.map (priorityRefinement fifo).input = calls := List.map_id _
  have unchanged : ∀ replies : List (PriorityReply β), replies.map (priorityRefinement fifo).output = replies :=
    List.map_id
  have began : (priorityRefinement fifo).state (tallied fifo priorityLevels) = ⟨List.replicate priorityLevels [],none⟩ :=
    begins
  rw [same,began] at answers reached
  rw [unchanged] at answers
  refine ⟨answers,congrArg Levels.lists reached,empty_contents fifo conserves.sane,?_,conserves.conserved⟩
  intro filled
  obtain ⟨level,item,rest,popped⟩ := pop_popped fifo conserves.sane filled
  exact ⟨level,item,rest,popped.here,popped.below,popped.answered,popped.contents.trans (dropAt_set popped.here)⟩

-- The level 2^31 does not fit in lastPopLevel: the item popped from it is not
-- pushed back.
def highCalls (p : Option β) : List (PriorityCall β) := [.push p 2147483648,.pop,.pushBackLastPop]

theorem high_level_lost (fifo : Fifo σ (Option β)) {priorityLevels : Nat} (high : 2147483648 < priorityLevels)
    (p : Option β) :
    (tallying fifo).Admits (PopsFilled fifo) (tallied fifo priorityLevels) (highCalls p) ∧
      ¬ Served fifo priorityLevels (highCalls p) ((tallying fifo).run (tallied fifo priorityLevels) (highCalls p)).2
        ((tallying fifo).run (tallied fifo priorityLevels) (highCalls p)).1 := by
  have made := created_sane fifo (show 1 ≤ priorityLevels by omega)
  obtain ⟨sane,contents,_⟩ := push_contents fifo p 2147483648 made
  have level : min 2147483648 ((PriorityQueue.created fifo priorityLevels).levels - 1) = 2147483648 :=
    Nat.min_eq_left (Nat.le_sub_one_of_lt high)
  rw [level,created_contents] at contents
  have inside : 2147483648 < (List.replicate priorityLevels ([] : List (Option β))).length := by
    rw [List.length_replicate]
    exact high
  have single : (((PriorityQueue.created fifo priorityLevels).push fifo p 2147483648).contents fifo).flatten.Perm [p] := by
    rw [contents]
    have pushed := flatten_appendAt p inside
    rwa [List.flatten_replicate_nil] at pushed
  have filled : ((PriorityQueue.created fifo priorityLevels).push fifo p 2147483648).empty fifo = false := by
    apply Bool.eq_false_iff.mpr
    intro drained
    have nothing := List.flatten_eq_nil_iff.mpr ((empty_contents fifo sane).mp drained)
    rw [nothing] at single
    exact absurd single.length_eq (by simp)
  refine ⟨⟨fun pops => (by cases pops),fun _ => filled,fun pops => (by cases pops),trivial⟩,?_⟩
  intro served
  obtain ⟨popLevel,item,rest,popped⟩ := pop_popped fifo sane filled
  have highest : popLevel = 2147483648 := by
    have first := lowest_at popped.here popped.below
    rw [contents,lowest_single high] at first
    exact first.symm
  have noted := popped.noted
  rw [highest,asInt_limit] at noted
  have kept : ((PriorityQueue.created fifo priorityLevels).push fifo p 2147483648 |>.pop fifo).2.pushBackLastPop fifo =
      ((PriorityQueue.created fifo priorityLevels).push fifo p 2147483648 |>.pop fifo).2 := by
    rw [noted]
    exact if_neg (show ¬ (0 : Int) ≤ -2147483648 by decide)
  have left := (flatten_dropAt popped.here).symm.trans single
  have conserved := served.conserved
  change ((((((PriorityQueue.created fifo priorityLevels).push fifo p 2147483648).pop fifo).2.pushBackLastPop
    fifo).contents fifo).flatten ++ []).Perm [p] at conserved
  rw [kept,popped.contents,List.append_nil] at conserved
  have more := left.length_eq
  rw [List.length_cons,conserved.length_eq] at more
  cases more

theorem priority_queue_serves (fifo : Fifo σ (Option β)) {priorityLevels : Nat} (positive : 1 ≤ priorityLevels) :
    (∀ calls, (tallying fifo).Admits (PopsFilled fifo) (tallied fifo priorityLevels) calls →
      Served fifo priorityLevels calls ((tallying fifo).run (tallied fifo priorityLevels) calls).2
        ((tallying fifo).run (tallied fifo priorityLevels) calls).1) ↔ priorityLevels ≤ 2147483648 := by
  constructor
  · intro served
    apply Nat.le_of_not_lt
    intro high
    obtain ⟨admitted,unserved⟩ := high_level_lost fifo high none
    exact unserved (served _ admitted)
  · intro small calls admitted
    exact conserves_served positive small admitted

def twoItems : List (PriorityCall Bool) :=
  [.push (some true) 9,.push (some false) 1,.pop,.pushBackLastPop,.pushBackLastPop,.pop,.pop]

theorem priority_queue_serves_three :
    Served (listFifo (Option Bool)) 3 twoItems ((tallying (listFifo _)).run (tallied (listFifo _) 3) twoItems).2
      ((tallying (listFifo _)).run (tallied (listFifo _) 3) twoItems).1 :=
  (@priority_queue_serves _ _ (listFifo (Option Bool)) 3 (by decide)).mpr (by decide) twoItems
    ⟨fun pops => (by cases pops),fun pops => (by cases pops),fun _ => rfl,fun pops => (by cases pops),
      fun pops => (by cases pops),fun _ => rfl,fun _ => rfl,trivial⟩

theorem priority_queue_loses_item :
    (tallying (listFifo (Option Bool))).Admits (PopsFilled (listFifo _)) (tallied (listFifo _) 2147483649)
      (highCalls (some true)) ∧
    ¬ Served (listFifo (Option Bool)) 2147483649 (highCalls (some true))
      ((tallying (listFifo _)).run (tallied (listFifo _) 2147483649) (highCalls (some true))).2
      ((tallying (listFifo _)).run (tallied (listFifo _) 2147483649) (highCalls (some true))).1 :=
  high_level_lost (listFifo _) (by decide) (some true)

end Kisscpp
