import Kisscpp.DelayedQueue

namespace Kisscpp
open Stepping KeyedLists

variable {σ β : Type*}

structure PushedItem (β : Type*) where
  item : β
  order : Nat
  time : Int
  delay : Nat
  deriving DecidableEq

def PushedItem.release (x : PushedItem β) : Int := x.time + x.delay

inductive DelayedCall (β : Type*) where
  | push (p : β) (seconds2delay : Nat) (time now : Int)
  | pop (now : Int)
  | empty (now : Int)
  | size
  | mapSize

inductive DelayedReply (β : Type*) where
  | done
  | item (p : Option (PushedItem β))
  | flag (b : Bool)
  | count (n : Nat)
  deriving DecidableEq

-- The queue beside a record of the run: the last clock reading, the pushes,
-- and the items popped with the reading of their pop.
structure Watched (σ β : Type*) where
  queue : DelayedQueue σ (PushedItem β)
  clock : Int
  pushed : List (PushedItem β) := []
  popped : List (Int × PushedItem β) := []

def watched (fifo : Fifo σ (PushedItem β)) (clock : Int) : Watched σ β := {queue := ⟨fifo.start,[]⟩,clock := clock}

def watch (fifo : Fifo σ (PushedItem β)) : Machine (Watched σ β) (DelayedCall β) (DelayedReply β) where
  step s
    | .push p seconds2delay time now =>
      let x : PushedItem β := ⟨p,s.pushed.length,time,seconds2delay⟩
      (.done,{s with
        queue := s.queue.push fifo x seconds2delay time now
        clock := now
        pushed := s.pushed ++ [x]})
    | .pop now =>
      let (p,queue) := s.queue.pop fifo now
      (.item p,{s with
        queue := queue
        clock := now
        popped := s.popped ++ (p.toList.map fun x => (now,x))})
    | .empty now =>
      let (b,queue) := s.queue.empty fifo now
      (.flag b,{s with
        queue := queue
        clock := now})
    | .size => (.count (s.queue.size fifo),s)
    | .mapSize => (.count s.queue.noLockmapSize,s)

-- The clock never goes back, between the calls and within a push.
def Clocked (s : Watched σ β) : DelayedCall β → Prop
  | .push _ _ time now => s.clock ≤ time ∧ time ≤ now
  | .pop now => s.clock ≤ now
  | .empty now => s.clock ≤ now
  | .size => True
  | .mapSize => True

def Earlier (x y : PushedItem β) : Prop := x.order < y.order

def ReleasedBefore (x y : PushedItem β) : Prop := x.release < y.release ∨ x.release = y.release ∧ x.order < y.order

def Delayed (x : PushedItem β) : Bool := 0 < x.delay

def departed (popped : List (Int × PushedItem β)) (content : List (PushedItem β)) : List (PushedItem β) :=
  popped.map Prod.snd ++ content

-- The invariant: what has left the map was released before the clock and
-- before everything the map still holds.
structure Delivering (clock : Int) (pushed : List (PushedItem β)) (popped : List (Int × PushedItem β))
    (content : List (PushedItem β)) (delayedMap : List (Int × List (PushedItem β))) : Prop where
  filed : Filed PushedItem.release Earlier delayedMap
  waiting : ∀ x ∈ held delayedMap, Delayed x = true
  numbered : pushed.map PushedItem.order = List.range pushed.length
  lossless : pushed.Perm (departed popped content ++ held delayedMap)
  released : ((departed popped content).filter Delayed).Pairwise ReleasedBefore
  direct : ((departed popped content).filter fun x => !Delayed x).Pairwise Earlier
  past : ∀ x ∈ departed popped content, Delayed x = true → x.release < clock
  apart : ∀ x ∈ departed popped content, Delayed x = true → ∀ y ∈ held delayedMap, x.release < y.release
  neverEarly : ∀ e ∈ popped, Delayed e.2 = true → e.2.release < e.1

section Steps
variable {clock : Int} {pushed : List (PushedItem β)} {popped : List (Int × PushedItem β)} {content : List (PushedItem β)}
  {delayedMap : List (Int × List (PushedItem β))}

theorem Delivering.known (d : Delivering clock pushed popped content delayedMap) :
    ∀ x, x ∈ pushed ↔ x ∈ departed popped content ∨ x ∈ held delayedMap := by
  intro x
  rw [d.lossless.mem_iff,List.mem_append]

theorem Delivering.order_lt (d : Delivering clock pushed popped content delayedMap) :
    ∀ x ∈ pushed, x.order < pushed.length := by
  intro x member
  have inRange := List.mem_map_of_mem (f := PushedItem.order) member
  rw [d.numbered] at inRange
  exact List.mem_range.mp inRange

theorem Delivering.later (d : Delivering clock pushed popped content delayedMap) {now : Int} (forward : clock ≤ now) :
    Delivering now pushed popped content delayedMap :=
  {d with past := fun x member delayed => lt_of_lt_of_le (d.past x member delayed) forward}

theorem numbered_snoc {x : PushedItem β} (numbered : pushed.map PushedItem.order = List.range pushed.length)
    (next : x.order = pushed.length) : (pushed ++ [x]).map PushedItem.order = List.range (pushed ++ [x]).length := by
  rw [List.map_append,numbered,List.length_append,List.length_singleton,List.range_succ,List.map_singleton,next]

theorem Delivering.pushBack (d : Delivering clock pushed popped content delayedMap) (p : β) (time : Int) :
    Delivering clock (pushed ++ [⟨p,pushed.length,time,0⟩]) popped (content ++ [⟨p,pushed.length,time,0⟩]) delayedMap := by
  have before : ∀ y ∈ departed popped content, Earlier y ⟨p,pushed.length,time,0⟩ := fun y member =>
    d.order_lt y ((d.known y).mpr (.inl member))
  have gone : departed popped (content ++ [⟨p,pushed.length,time,0⟩]) =
      departed popped content ++ [⟨p,pushed.length,time,0⟩] := (List.append_assoc _ _ _).symm
  refine ⟨d.filed,d.waiting,numbered_snoc d.numbered rfl,?_,?_,?_,?_,?_,d.neverEarly⟩
  · rw [gone,List.append_assoc,List.singleton_append]
    exact (List.perm_append_singleton _ _).trans ((d.lossless.cons _).trans List.perm_middle.symm)
  · rw [gone,List.filter_append]
    simpa [Delayed] using d.released
  · rw [gone,List.filter_append]
    refine List.pairwise_append.mpr ⟨d.direct,?_,?_⟩
    · exact (List.pairwise_singleton _ _).filter _
    · intro y member z new
      have last : z = ⟨p,pushed.length,time,0⟩ := List.mem_singleton.mp (List.mem_filter.mp new).1
      rw [last]
      exact before y (List.mem_filter.mp member).1
  · rw [gone]
    intro y member delayed
    rcases List.mem_append.mp member with old | new
    · exact d.past y old delayed
    · rw [List.mem_singleton.mp new] at delayed
      cases delayed
  · rw [gone]
    intro y member delayed
    rcases List.mem_append.mp member with old | new
    · exact d.apart y old delayed
    · rw [List.mem_singleton.mp new] at delayed
      cases delayed

theorem Delivering.pushAt (d : Delivering clock pushed popped content delayedMap) (p : β) {time : Int} {delay : Nat}
    (some : 0 < delay) (forward : clock ≤ time) :
    Delivering clock (pushed ++ [⟨p,pushed.length,time,delay⟩]) popped content
      (KeyedLists.pushAt (time + delay) ⟨p,pushed.length,time,delay⟩ delayedMap) := by
  have added := held_pushAt (time + delay) (⟨p,pushed.length,time,delay⟩ : PushedItem β) delayedMap
  refine ⟨?_,?_,numbered_snoc d.numbered rfl,?_,d.released,d.direct,d.past,?_,d.neverEarly⟩
  · exact filed_pushAt d.filed (x := ⟨p,pushed.length,time,delay⟩) fun y member =>
      d.order_lt y ((d.known y).mpr (.inr member))
  · intro y member
    rcases List.mem_cons.mp (added.mem_iff.mp member) with rfl | old
    · simpa [Delayed] using some
    · exact d.waiting y old
  · exact (List.perm_append_singleton _ _).trans ((d.lossless.cons _).trans
      (List.perm_middle.symm.trans (added.symm.append_left _)))
  · intro x member delayed y inMap
    rcases List.mem_cons.mp (added.mem_iff.mp inMap) with rfl | old
    · have past := d.past x member delayed
      simp only [PushedItem.release] at past ⊢
      omega
    · exact d.apart x member delayed y old

theorem held_split (m : List (Int × List (PushedItem β))) (p : Int × List (PushedItem β) → Bool) :
    (held (m.filter p) ++ held (m.filter fun e => !p e)).Perm (held m) := by
  rw [held,held,held,← List.flatMap_append]
  exact (List.filter_append_perm p m).flatMap_right _

theorem release_key (filed : Filed PushedItem.release Earlier delayedMap) {p : Int × List (PushedItem β) → Bool} {x : PushedItem β}
    (member : x ∈ held (delayedMap.filter p)) : ∃ e, p e = true ∧ x.release = e.1 ∧ x ∈ held delayedMap := by
  obtain ⟨e,inMap,inList⟩ := mem_held.mp member
  obtain ⟨old,passed⟩ := List.mem_filter.mp inMap
  exact ⟨e,passed,filed.keyed e old x inList,mem_held.mpr ⟨e,old,inList⟩⟩

theorem Delivering.move (d : Delivering clock pushed popped [] delayedMap) {now : Int} (forward : clock ≤ now) :
    Delivering now pushed popped (held (delayedMap.filter fun e => e.1 < now))
      (delayedMap.filter fun e => ¬ e.1 < now) := by
  have gone : departed popped (held (delayedMap.filter fun e => e.1 < now)) =
      departed popped [] ++ held (delayedMap.filter fun e => e.1 < now) := by
    rw [departed,departed,List.append_nil]
  have expired : ∀ x ∈ held (delayedMap.filter fun e => e.1 < now), x.release < now ∧ x ∈ held delayedMap := by
    intro x member
    obtain ⟨e,passed,same,old⟩ := release_key d.filed member
    exact ⟨same ▸ of_decide_eq_true passed,old⟩
  have left : ∀ x ∈ held (delayedMap.filter fun e => ¬ e.1 < now), now ≤ x.release ∧ x ∈ held delayedMap := by
    intro x member
    obtain ⟨e,passed,same,old⟩ := release_key d.filed member
    exact ⟨same ▸ not_lt.mp (of_decide_eq_true passed),old⟩
  have moving : ∀ x ∈ held (delayedMap.filter fun e => e.1 < now), Delayed x = true := fun x member =>
    d.waiting x (expired x member).2
  refine ⟨filed_filter d.filed _,fun x member => d.waiting x (left x member).2,d.numbered,?_,?_,?_,?_,?_,d.neverEarly⟩
  · have split := held_split delayedMap fun e => decide (e.1 < now)
    have negated : (fun e : Int × List (PushedItem β) => decide ¬ e.1 < now) = fun e => !decide (e.1 < now) := by
      funext e
      exact decide_not
    rw [gone,List.append_assoc,negated]
    exact d.lossless.trans (split.symm.append_left _)
  · rw [gone,List.filter_append,List.filter_eq_self.mpr moving]
    refine List.pairwise_append.mpr ⟨d.released,filed_pairwise (filed_filter d.filed _),?_⟩
    intro x member y moved
    obtain ⟨old,delayed⟩ := List.mem_filter.mp member
    exact .inl (d.apart x old delayed y (expired y moved).2)
  · have none : (held (delayedMap.filter fun e => e.1 < now)).filter (fun x => !Delayed x) = [] := by
      rw [List.filter_eq_nil_iff]
      intro x member
      simp [moving x member]
    rw [gone,List.filter_append,none,List.append_nil]
    exact d.direct
  · rw [gone]
    intro x member delayed
    rcases List.mem_append.mp member with old | moved
    · exact lt_of_lt_of_le (d.past x old delayed) forward
    · exact (expired x moved).1
  · rw [gone]
    intro x member delayed y inMap
    rcases List.mem_append.mp member with old | moved
    · exact d.apart x old delayed y (left y inMap).2
    · exact lt_of_lt_of_le (expired x moved).1 (left y inMap).1

theorem Delivering.popFront (d : Delivering clock pushed popped content delayedMap) :
    Delivering clock pushed (popped ++ (content.head?.toList.map fun x => (clock,x))) content.tail delayedMap := by
  cases content with
  | nil => simpa using d
  | cons x rest =>
    have same : departed (popped ++ [(clock,x)]) rest = departed popped (x :: rest) := by simp [departed]
    have front : x ∈ departed popped (x :: rest) := List.mem_append_right _ List.mem_cons_self
    refine ⟨d.filed,d.waiting,d.numbered,?_,?_,?_,?_,?_,?_⟩
    · exact same ▸ d.lossless
    · exact same ▸ d.released
    · exact same ▸ d.direct
    · exact same ▸ d.past
    · exact same ▸ d.apart
    · intro e member delayed
      rcases List.mem_append.mp member with old | new
      · exact d.neverEarly e old delayed
      · rw [List.mem_singleton.mp new] at delayed ⊢
        exact d.past x front delayed

end Steps

def Delivers (fifo : Fifo σ (PushedItem β)) (s : Watched σ β) : Prop :=
  Delivering s.clock s.pushed s.popped (fifo.content s.queue.persistedQ) s.queue.delayedMap

theorem watched_delivers (fifo : Fifo σ (PushedItem β)) (clock : Int) : Delivers fifo (watched fifo clock) := by
  have none : fifo.content fifo.start = [] := fifo.content_start
  refine ⟨⟨.nil,by simp [watched],by simp [watched]⟩,?_,rfl,?_,?_,?_,?_,?_,?_⟩
  all_goals simp [watched,departed,none]

theorem moveExpired_delivers (fifo : Fifo σ (PushedItem β)) {clock now : Int} {pushed : List (PushedItem β)}
    {popped : List (Int × PushedItem β)} {q : DelayedQueue σ (PushedItem β)}
    (d : Delivering clock pushed popped (fifo.content q.persistedQ) q.delayedMap) (forward : clock ≤ now) :
    Delivering now pushed popped (fifo.content (q.moveExpired fifo false now).persistedQ)
      (q.moveExpired fifo false now).delayedMap := by
  by_cases none : fifo.content q.persistedQ = []
  · obtain ⟨content,left⟩ := DelayedQueue.moveExpired_moves fifo now d.filed.sorted none
    rw [content,left]
    rw [none] at d
    exact d.move forward
  · rw [DelayedQueue.moveExpired_waits fifo now none]
    exact d.later forward

theorem watch_step (fifo : Fifo σ (PushedItem β)) (s : Watched σ β) (call : DelayedCall β) (d : Delivers fifo s)
    (clocked : Clocked s call) : Delivers fifo ((watch fifo).step s call).2 := by
  cases call with
  | push p seconds2delay time now =>
    obtain ⟨forward,within⟩ := clocked
    refine moveExpired_delivers fifo ?_ within
    split
    · next direct =>
      subst direct
      rw [fifo.content_pushBack]
      exact (d.pushBack p time).later forward
    · next delayed => exact (d.pushAt p (Nat.pos_of_ne_zero delayed) forward).later forward
  | pop now =>
    have moved := (moveExpired_delivers fifo d clocked).popFront
    rw [← fifo.content_popFront,← fifo.popFront_head] at moved
    exact moved
  | empty now => exact moveExpired_delivers fifo d clocked
  | size => exact d
  | mapSize => exact d

def Answered (fifo : Fifo σ (PushedItem β)) (s : Watched σ β) (reply : DelayedReply β) : DelayedCall β → Prop
  | .push .. => reply = .done
  | .pop now => ∃ p, reply = .item p ∧
      (p = none ↔ fifo.content s.queue.persistedQ = [] ∧ ∀ x ∈ held s.queue.delayedMap, ¬ x.release < now)
  | .empty now => ∃ b, reply = .flag b ∧
      (b = true ↔ fifo.content s.queue.persistedQ = [] ∧ ∀ x ∈ held s.queue.delayedMap, ¬ x.release < now)
  | .size => ∃ n, reply = .count n ∧ n + s.popped.length = s.pushed.length
  | .mapSize => reply = .count (held s.queue.delayedMap).length

theorem moveExpired_empty (fifo : Fifo σ (PushedItem β)) {s : Watched σ β} (d : Delivers fifo s) (now : Int) :
    fifo.content (s.queue.moveExpired fifo false now).persistedQ = [] ↔
      fifo.content s.queue.persistedQ = [] ∧ ∀ x ∈ held s.queue.delayedMap, ¬ x.release < now := by
  by_cases none : fifo.content s.queue.persistedQ = []
  · obtain ⟨content,_⟩ := DelayedQueue.moveExpired_moves fifo now d.filed.sorted none
    rw [content,and_iff_right none,List.eq_nil_iff_forall_not_mem]
    constructor
    · intro unmoved x member expired
      obtain ⟨e,inMap,inList⟩ := mem_held.mp member
      have key := d.filed.keyed e inMap x inList
      exact unmoved x (mem_held.mpr ⟨e,List.mem_filter.mpr ⟨inMap,by simpa [← key] using expired⟩,inList⟩)
    · intro waiting x moved
      obtain ⟨e,passed,same,old⟩ := release_key d.filed moved
      exact waiting x old (same ▸ of_decide_eq_true passed)
  · rw [DelayedQueue.moveExpired_waits fifo now none]
    exact iff_of_false none fun both => none both.1

theorem watch_answers (fifo : Fifo σ (PushedItem β)) (s : Watched σ β) (call : DelayedCall β) (d : Delivers fifo s) :
    Answered fifo s ((watch fifo).step s call).1 call := by
  cases call with
  | push p seconds2delay time now => rfl
  | pop now =>
    refine ⟨_,rfl,?_⟩
    rw [← moveExpired_empty fifo d now]
    rw [fifo.popFront_head,List.head?_eq_none_iff]
  | empty now =>
    refine ⟨_,rfl,?_⟩
    rw [← moveExpired_empty fifo d now]
    rw [fifo.isEmpty_content,List.isEmpty_iff]
  | size =>
    refine ⟨_,rfl,?_⟩
    rw [DelayedQueue.size,fifo.size_content,DelayedQueue.noLockmapSize_held,d.lossless.length_eq,departed]
    simp only [List.length_append,List.length_map]
    omega
  | mapSize => exact congrArg DelayedReply.count (DelayedQueue.noLockmapSize_held _)

structure Delivered (fifo : Fifo σ (PushedItem β)) (s : Watched σ β) : Prop where
  neverEarly : ∀ e ∈ s.popped, 0 < e.2.delay → e.2.release < e.1
  released : ((s.popped.map Prod.snd).filter fun x => 0 < x.delay).Pairwise ReleasedBefore
  direct : ((s.popped.map Prod.snd).filter fun x => x.delay = 0).Pairwise Earlier
  numbered : s.pushed.map PushedItem.order = List.range s.pushed.length
  once : ((s.popped.map Prod.snd).map PushedItem.order).Nodup
  lossless : s.pushed.Perm (s.popped.map Prod.snd ++ fifo.content s.queue.persistedQ ++ held s.queue.delayedMap)

theorem delivers_delivered {fifo : Fifo σ (PushedItem β)} {s : Watched σ β} (d : Delivers fifo s) : Delivered fifo s := by
  have poppedFirst : (s.popped.map Prod.snd).Sublist (departed s.popped (fifo.content s.queue.persistedQ)) :=
    List.sublist_append_left _ _
  have undelayed : (fun x : PushedItem β => decide (x.delay = 0)) = fun x => !Delayed x := by
    funext ⟨item,order,time,delay⟩
    cases delay with
    | zero => rfl
    | succ delay => rfl
  refine ⟨?_,d.released.sublist (poppedFirst.filter _),?_,d.numbered,?_,d.lossless⟩
  · intro e member delayed
    exact d.neverEarly e member (by simpa [Delayed] using delayed)
  · rw [undelayed]
    exact d.direct.sublist (poppedFirst.filter _)
  · have orders := d.lossless.map PushedItem.order
    rw [d.numbered] at orders
    have distinct := orders.nodup_iff.mp List.nodup_range
    rw [departed,List.append_assoc,List.map_append] at distinct
    exact (List.nodup_append.mp distinct).1

theorem delayed_delivery (fifo : Fifo σ (PushedItem β)) (clock : Int) {calls : List (DelayedCall β)}
    (clocked : (watch fifo).Admits Clocked (watched fifo clock) calls) :
    Delivered fifo ((watch fifo).run (watched fifo clock) calls).2 ∧
    ∀ call, Answered fifo ((watch fifo).run (watched fifo clock) calls).2
      ((watch fifo).step ((watch fifo).run (watched fifo clock) calls).2 call).1 call := by
  have d := run_preserves (watch_step fifo) (watched_delivers fifo clock) clocked
  exact ⟨delivers_delivered d,fun call => watch_answers fifo _ call d⟩

def someCalls : List (DelayedCall Bool) :=
  [.push true 5 10 10,.push false 1 10 11,.push true 0 11 11,.pop 12,.pop 12,.pop 15,.pop 16]

instance {s : Watched σ β} {call : DelayedCall β} : Decidable (Clocked s call) := by
  cases call <;> unfold Clocked <;> infer_instance

theorem delayed_delivery_three_pushes :
    Delivered (listFifo _) ((watch (listFifo _)).run (watched (listFifo _) 10) someCalls).2 ∧
    ∀ call, Answered (listFifo _) ((watch (listFifo _)).run (watched (listFifo _) 10) someCalls).2
      ((watch (listFifo _)).step ((watch (listFifo _)).run (watched (listFifo _) 10) someCalls).2 call).1 call :=
  delayed_delivery (listFifo _) 10 (by decide)

end Kisscpp
