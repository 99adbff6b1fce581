import Mathlib.Data.List.AList
import Kisscpp.PriorityLevels

namespace Kisscpp
open Stepping LevelLists PriorityQueue

variable {σ β : Type*}

-- By consumer, the item it popped with its level, until it keeps the item or
-- gives it back.
abbrev Hands (β : Type*) := AList fun _ : Nat => Nat × Option β

def Hands.items (hands : Hands β) : List (Option β) := hands.entries.map fun hand => hand.2.2

-- The calls of all threads in the order in which they have the mutex.
inductive SharedCall (β : Type*) where
  | push (p : Option β) (priority : Nat)
  | pop (consumer : Nat)
  | keep (consumer : Nat)
  | giveBack (consumer : Nat)

structure SharedQueue (σ β : Type*) where
  queue : PriorityQueue σ β
  hands : Hands β
  kept : List (Option β)
  pushed : List (Option β)
  lastPopper : Option Nat

def SharedQueue.call (fifo : Fifo σ (Option β)) (s : SharedQueue σ β) : SharedCall β → SharedQueue σ β
  | .push p priority => {s with queue := s.queue.push fifo p priority,pushed := p :: s.pushed}
  | .pop consumer =>
    let popped := s.queue.pop fifo
    let hand := (s.queue.firstFilled fifo,popped.1)
    {s with queue := popped.2,hands := s.hands.insert consumer hand,lastPopper := some consumer}
  | .keep consumer =>
    let item := (s.hands.lookup consumer).elim [] fun hand => [hand.2]
    {s with hands := s.hands.erase consumer,kept := item ++ s.kept}
  | .giveBack consumer => {s with queue := s.queue.pushBackLastPop fifo,hands := s.hands.erase consumer}

def sharing (fifo : Fifo σ (Option β)) : Machine (SharedQueue σ β) (SharedCall β) Unit where
  step s c := ((),s.call fifo c)

def sharedQueue (fifo : Fifo σ (Option β)) (priorityLevels : Nat) : SharedQueue σ β :=
  ⟨.created fifo priorityLevels,∅,[],[],none⟩

def InTurn (fifo : Fifo σ (Option β)) (s : SharedQueue σ β) : SharedCall β → Prop
  | .push _ _ => True
  | .pop consumer => s.queue.empty fifo = false ∧ consumer ∉ s.hands
  | .keep consumer => consumer ∈ s.hands
  | .giveBack consumer => consumer ∈ s.hands

def LastPopper (s : SharedQueue σ β) : SharedCall β → Prop
  | .giveBack consumer => s.lastPopper = some consumer
  | _ => True

def OwnItem (fifo : Fifo σ (Option β)) (s : SharedQueue σ β) : SharedCall β → Prop
  | .giveBack consumer => ∀ level item, s.hands.lookup consumer = some (level,item) →
    (s.call fifo (.giveBack consumer)).queue.contents fifo = appendAt level item (s.queue.contents fifo)
  | _ => True

def NewItem (s : SharedQueue σ β) : SharedCall β → Prop
  | .push p _ => p ∉ s.pushed
  | _ => True

theorem items_insert {hands : Hands β} {consumer : Nat} (free : consumer ∉ hands) (hand : Nat × Option β) :
    Hands.items (hands.insert consumer hand) = hand.2 :: Hands.items hands := by
  rw [Hands.items,AList.entries_insert_of_notMem free]
  rfl

theorem items_erase {hands : Hands β} {consumer : Nat} {hand : Nat × Option β}
    (holds : hands.lookup consumer = some hand) :
    (Hands.items hands).Perm (hand.2 :: Hands.items (hands.erase consumer)) := by
  have present : consumer ∈ hands.entries.keys := AList.lookup_isSome.mp (by rw [holds]; rfl)
  obtain ⟨other,before,after,_,whole,erased⟩ := List.exists_of_kerase present
  have member : (⟨consumer,other⟩ : Sigma fun _ : Nat => Nat × Option β) ∈ hands.entries := by
    rw [whole]
    exact List.mem_append_right _ List.mem_cons_self
  have same : other = hand := Option.some.inj ((AList.mem_lookup_iff.mpr member).symm.trans holds)
  have left : (hands.erase consumer).entries = before ++ after := erased
  rw [Hands.items,Hands.items,whole,left,same]
  exact List.perm_middle.map _

theorem erase_held {hands : Hands β} {consumer other : Nat} {hand : Nat × Option β}
    (holds : (hands.erase consumer).lookup other = some hand) : other ≠ consumer ∧ hands.lookup other = some hand := by
  have different : other ≠ consumer := by
    intro same
    rw [same,AList.lookup_erase] at holds
    cases holds
  exact ⟨different,(AList.lookup_erase_ne different).symm.trans holds⟩

-- What holds between any two calls: the remembered item is one that the latest
-- popper has or has kept, and every pushed item is in one place.
structure Accounted (fifo : Fifo σ (Option β)) (s : SharedQueue σ β) : Prop where
  sane : s.queue.Sane
  small : s.queue.levels ≤ 2147483648
  inside : ∀ consumer level item, s.hands.lookup consumer = some (level,item) → level < s.queue.levels
  remembered : ∀ level item, s.queue.lastPop = some (level,item) → level < s.queue.levels ∧
    ∃ consumer, s.lastPopper = some consumer ∧
      (s.hands.lookup consumer = some (level,item) ∨ consumer ∉ s.hands ∧ item ∈ s.kept)
  own : ∀ consumer hand, s.lastPopper = some consumer → s.hands.lookup consumer = some hand →
    s.queue.lastPop = some hand
  conserved : ((s.queue.contents fifo).flatten ++ (Hands.items s.hands ++ s.kept)).Perm s.pushed

theorem push_accounted {fifo : Fifo σ (Option β)} {s : SharedQueue σ β} (accounted : Accounted fifo s)
    (p : Option β) (priority : Nat) : Accounted fifo (s.call fifo (.push p priority)) := by
  obtain ⟨sane,contents,kept⟩ := push_contents fifo p priority accounted.sane
  have positive := accounted.sane.positive
  have inside : min priority (s.queue.levels - 1) < (s.queue.contents fifo).length := by
    rw [length_contents fifo accounted.sane]
    omega
  refine ⟨sane,accounted.small,accounted.inside,?_,?_,?_⟩
  · intro level item remembers
    exact accounted.remembered level item (kept.symm.trans remembers)
  · intro consumer hand latest holds
    exact kept.trans (accounted.own consumer hand latest holds)
  · change (((s.queue.push fifo p priority).contents fifo).flatten ++ _).Perm (p :: s.pushed)
    rw [contents]
    exact ((flatten_appendAt p inside).append_right _).trans (accounted.conserved.cons p)

theorem pop_accounted {fifo : Fifo σ (Option β)} {s : SharedQueue σ β} (accounted : Accounted fifo s)
    {consumer : Nat} (filled : s.queue.empty fifo = false) (free : consumer ∉ s.hands) :
    Accounted fifo (s.call fifo (.pop consumer)) := by
  obtain ⟨level,item,rest,popped⟩ := pop_popped fifo accounted.sane filled
  have inside := popped.inside accounted.sane
  have small := accounted.small
  obtain ⟨sane,remembered⟩ := popped.kept accounted.sane (by omega)
  have levels : (s.queue.pop fifo).2.levels = s.queue.levels := by rw [popped.noted]
  have level_eq : s.queue.firstFilled fifo = level :=
    (firstFilled_lowest fifo s.queue).trans (lowest_at popped.here popped.below)
  have hands : (s.call fifo (.pop consumer)).hands = s.hands.insert consumer (level,item) := by
    simp only [SharedQueue.call,level_eq,popped.answered]
  refine ⟨sane,levels ▸ small,?_,?_,?_,?_⟩
  · intro other otherLevel x holds
    rw [hands] at holds
    change otherLevel < (s.queue.pop fifo).2.levels
    rw [levels]
    by_cases same : other = consumer
    · rw [same,AList.lookup_insert] at holds
      cases holds
      exact inside
    · rw [AList.lookup_insert_ne same] at holds
      exact accounted.inside other otherLevel x holds
  · intro otherLevel x remembers
    cases remembered.symm.trans remembers
    refine ⟨levels ▸ inside,consumer,rfl,.inl ?_⟩
    rw [hands,AList.lookup_insert]
  · intro other hand latest holds
    cases latest
    rw [hands,AList.lookup_insert] at holds
    exact remembered.trans holds
  · rw [hands,items_insert free]
    change (((s.queue.pop fifo).2.contents fifo).flatten ++ (item :: (Hands.items s.hands ++ s.kept))).Perm s.pushed
    rw [popped.contents]
    have taken := (flatten_dropAt popped.here).append_right (Hands.items s.hands ++ s.kept)
    exact (List.perm_middle.trans taken.symm).trans accounted.conserved

theorem keep_accounted {fifo : Fifo σ (Option β)} {s : SharedQueue σ β} (accounted : Accounted fifo s)
    {consumer : Nat} (holding : consumer ∈ s.hands) : Accounted fifo (s.call fifo (.keep consumer)) := by
  obtain ⟨hand,holds⟩ := Option.isSome_iff_exists.mp (AList.lookup_isSome.mpr holding)
  have kept : (s.call fifo (.keep consumer)).kept = hand.2 :: s.kept := by
    simp only [SharedQueue.call,holds]
    rfl
  refine ⟨accounted.sane,accounted.small,?_,?_,?_,?_⟩
  · intro other level item held
    exact accounted.inside other level item (erase_held held).2
  · intro level item remembers
    obtain ⟨inside,other,latest,place⟩ := accounted.remembered level item remembers
    refine ⟨inside,other,latest,?_⟩
    rw [kept]
    by_cases same : other = consumer
    · refine .inr ⟨same ▸ fun present => (AList.mem_erase.mp present).1 rfl,?_⟩
      rcases place with has | ⟨_,keeps⟩
      · rw [same,holds] at has
        cases has
        exact List.mem_cons_self
      · exact List.mem_cons_of_mem _ keeps
    · rcases place with has | ⟨free,keeps⟩
      · exact .inl ((AList.lookup_erase_ne same).trans has)
      · exact .inr ⟨fun present => free (AList.mem_erase.mp present).2,List.mem_cons_of_mem _ keeps⟩
  · intro other otherHand latest held
    exact accounted.own other otherHand latest (erase_held held).2
  · rw [kept]
    have items := (items_erase holds).append_right s.kept
    have moved : (Hands.items (s.hands.erase consumer) ++ hand.2 :: s.kept).Perm (Hands.items s.hands ++ s.kept) :=
      List.perm_middle.trans items.symm
    exact (moved.append_left _).trans accounted.conserved

theorem giveBack_own {fifo : Fifo σ (Option β)} {s : SharedQueue σ β} (accounted : Accounted fifo s)
    {consumer : Nat} (latest : s.lastPopper = some consumer) : OwnItem fifo s (.giveBack consumer) := by
  intro level item holds
  obtain ⟨_,_,contents⟩ := pushBackLastPop_contents fifo accounted.sane
  rwa [accounted.own consumer (level,item) latest holds] at contents

theorem giveBack_accounted {fifo : Fifo σ (Option β)} {s : SharedQueue σ β} (accounted : Accounted fifo s)
    {consumer : Nat} (holding : consumer ∈ s.hands) (latest : s.lastPopper = some consumer) :
    Accounted fifo (s.call fifo (.giveBack consumer)) := by
  obtain ⟨⟨level,item⟩,holds⟩ := Option.isSome_iff_exists.mp (AList.lookup_isSome.mpr holding)
  obtain ⟨sane,forgotten,_⟩ := pushBackLastPop_contents fifo accounted.sane
  have levels : (s.queue.pushBackLastPop fifo).levels = s.queue.levels := pushBackLastPop_levels fifo s.queue
  have contents := giveBack_own accounted latest level item holds
  refine ⟨sane,levels ▸ accounted.small,?_,?_,?_,?_⟩
  · intro other otherLevel x held
    exact levels ▸ accounted.inside other otherLevel x (erase_held held).2
  · intro otherLevel x remembers
    cases forgotten.symm.trans remembers
  · intro other hand last held
    cases latest.symm.trans last
    exact absurd rfl (erase_held held).1
  · rw [contents]
    have inside := accounted.inside consumer level item holds
    rw [← length_contents fifo accounted.sane] at inside
    have items := (items_erase holds).append_right s.kept
    have whole := (items.symm.append_left (s.queue.contents fifo).flatten).trans accounted.conserved
    exact ((flatten_appendAt item inside).append_right _).trans (List.perm_middle.symm.trans whole)

theorem call_accounted {fifo : Fifo σ (Option β)} {s : SharedQueue σ β} {c : SharedCall β}
    (accounted : Accounted fifo s) (admitted : InTurn fifo s c ∧ LastPopper s c) : Accounted fifo (s.call fifo c) := by
  cases c with
  | push p priority => exact push_accounted accounted p priority
  | pop consumer => exact pop_accounted accounted admitted.1.1 admitted.1.2
  | keep consumer => exact keep_accounted accounted admitted.1
  | giveBack consumer => exact giveBack_accounted accounted admitted.1 admitted.2

theorem call_own {fifo : Fifo σ (Option β)} {s : SharedQueue σ β} {c : SharedCall β}
    (accounted : Accounted fifo s) (admitted : InTurn fifo s c ∧ LastPopper s c) : OwnItem fifo s c := by
  cases c with
  | giveBack consumer => exact giveBack_own accounted admitted.2
  | _ => trivial

theorem giveBack_last {fifo : Fifo σ (Option β)} {s : SharedQueue σ β} (accounted : Accounted fifo s)
    (distinct : s.pushed.Nodup) {consumer : Nat} (holding : consumer ∈ s.hands)
    (own : OwnItem fifo s (.giveBack consumer)) : s.lastPopper = some consumer := by
  obtain ⟨⟨level,item⟩,holds⟩ := Option.isSome_iff_exists.mp (AList.lookup_isSome.mpr holding)
  obtain ⟨_,_,contents⟩ := pushBackLastPop_contents fifo accounted.sane
  have appended := (own level item holds).symm.trans contents
  have inside := accounted.inside consumer level item holds
  rw [← length_contents fifo accounted.sane] at inside
  have back := flatten_appendAt item inside
  rw [appended] at back
  cases remembered : s.queue.lastPop with
  | none =>
    rw [remembered] at back
    have more := back.length_eq
    simp at more
  | some last =>
    obtain ⟨lastLevel,x⟩ := last
    obtain ⟨insideLast,other,latest,place⟩ := accounted.remembered lastLevel x remembered
    rw [← length_contents fifo accounted.sane] at insideLast
    rw [remembered] at back
    have single : [x].Perm [item] := (List.perm_append_right_iff _).mp ((flatten_appendAt x insideLast).symm.trans back)
    have same : x = item := List.singleton_perm_singleton.mp single
    by_cases caller : other = consumer
    · rw [latest,caller]
    · have items := (items_erase holds).append_right s.kept
      have once := (accounted.conserved.nodup_iff.mpr distinct).of_append_right
      have once := (List.nodup_cons.mp (items.nodup_iff.mp once)).1
      apply absurd _ once
      apply List.mem_append.mpr
      rcases place with has | ⟨_,keeps⟩
      · apply Or.inl
        have left := (AList.lookup_erase_ne caller).trans has
        exact List.mem_map.mpr ⟨⟨other,(lastLevel,x)⟩,AList.mem_lookup_iff.mp left,same⟩
      · exact .inr (same ▸ keeps)

theorem shared_accounted (fifo : Fifo σ (Option β)) {priorityLevels : Nat} (positive : 1 ≤ priorityLevels)
    (small : priorityLevels ≤ 2147483648) : Accounted fifo (sharedQueue fifo priorityLevels) := by
  refine ⟨created_sane fifo positive,small,?_,?_,?_,?_⟩
  · intro consumer level item holds
    cases holds
  · intro level item remembers
    cases remembers
  · intro consumer hand latest holds
    cases latest
  · change (((PriorityQueue.created fifo priorityLevels).contents fifo).flatten ++ []).Perm []
    rw [created_contents,List.append_nil,List.flatten_replicate_nil]

structure Unmixed (fifo : Fifo σ (Option β)) (s : SharedQueue σ β) : Prop where
  conserved : ((s.queue.contents fifo).flatten ++ (Hands.items s.hands ++ s.kept)).Perm s.pushed
  present : ∀ item ∈ s.pushed, item ∉ Hands.items s.hands → item ∉ s.kept → item ∈ (s.queue.contents fifo).flatten
  apart : s.pushed.Nodup → ∀ item ∈ s.kept, item ∉ (s.queue.contents fifo).flatten

theorem accounted_unmixed {fifo : Fifo σ (Option β)} {s : SharedQueue σ β} (accounted : Accounted fifo s) :
    Unmixed fifo s := by
  refine ⟨accounted.conserved,?_,?_⟩
  · intro item pushed unheld unkept
    rcases List.mem_append.mp (accounted.conserved.mem_iff.mpr pushed) with queued | away
    · exact queued
    · exact ((List.mem_append.mp away).elim unheld unkept).elim
  · intro distinct item kept queued
    have once := accounted.conserved.nodup_iff.mpr distinct
    exact List.disjoint_of_nodup_append once queued (List.mem_append_right _ kept)

theorem consumers_give_back_own (fifo : Fifo σ (Option β)) {priorityLevels : Nat} (positive : 1 ≤ priorityLevels)
    (small : priorityLevels ≤ 2147483648) {calls : List (SharedCall β)}
    (inTurn : (sharing fifo).Admits (InTurn fifo) (sharedQueue fifo priorityLevels) calls) :
    ((sharing fifo).Admits LastPopper (sharedQueue fifo priorityLevels) calls →
      (sharing fifo).Admits (OwnItem fifo) (sharedQueue fifo priorityLevels) calls ∧
        Unmixed fifo ((sharing fifo).run (sharedQueue fifo priorityLevels) calls).2) ∧
    ((sharing fifo).Admits NewItem (sharedQueue fifo priorityLevels) calls →
      (sharing fifo).Admits (OwnItem fifo) (sharedQueue fifo priorityLevels) calls →
      (sharing fifo).Admits LastPopper (sharedQueue fifo priorityLevels) calls) := by
  have start := shared_accounted fifo positive small
  constructor
  · intro latest
    have admitted := admits_and.mpr ⟨inTurn,latest⟩
    have preserved : ∀ s c, Accounted fifo s → InTurn fifo s c ∧ LastPopper s c →
        Accounted fifo ((sharing fifo).step s c).2 := fun _ _ => call_accounted
    have each : ∀ s c, Accounted fifo s → InTurn fifo s c ∧ LastPopper s c → OwnItem fifo s c :=
      fun _ _ => call_own
    exact ⟨admits_each preserved each start admitted,accounted_unmixed (run_preserves preserved start admitted)⟩
  · intro new own
    have admitted := admits_and.mpr ⟨inTurn,admits_and.mpr ⟨new,own⟩⟩
    have last : ∀ s c, Accounted fifo s ∧ s.pushed.Nodup → InTurn fifo s c ∧ NewItem s c ∧ OwnItem fifo s c →
        LastPopper s c := by
      intro s c here step
      cases c with
      | giveBack consumer => exact giveBack_last here.1 here.2 step.1 step.2.2
      | _ => trivial
    have preserved : ∀ s c, Accounted fifo s ∧ s.pushed.Nodup → InTurn fifo s c ∧ NewItem s c ∧ OwnItem fifo s c →
        Accounted fifo ((sharing fifo).step s c).2 ∧ ((sharing fifo).step s c).2.pushed.Nodup := by
      intro s c here step
      refine ⟨call_accounted here.1 ⟨step.1,last s c here step⟩,?_⟩
      cases c with
      | push p priority => exact List.nodup_cons.mpr ⟨step.2.1,here.2⟩
      | _ => exact here.2
    exact admits_each preserved last ⟨start,List.nodup_nil⟩ admitted

instance (fifo : Fifo σ (Option β)) (s : SharedQueue σ β) : (c : SharedCall β) → Decidable (InTurn fifo s c)
  | .push _ _ => isTrue trivial
  | .pop consumer => inferInstanceAs (Decidable (s.queue.empty fifo = false ∧ consumer ∉ s.hands))
  | .keep consumer => inferInstanceAs (Decidable (consumer ∈ s.hands))
  | .giveBack consumer => inferInstanceAs (Decidable (consumer ∈ s.hands))

instance (s : SharedQueue σ β) : (c : SharedCall β) → Decidable (LastPopper s c)
  | .giveBack consumer => inferInstanceAs (Decidable (s.lastPopper = some consumer))
  | .push _ _ | .pop _ | .keep _ => isTrue trivial

def apartCalls : List (SharedCall Bool) :=
  [.push (some true) 0,.push (some false) 1,.pop 0,.pop 1,.giveBack 1,.keep 0,.pop 1,.keep 1]

theorem consumers_give_back_own_apart :
    ((sharing (listFifo _)).Admits LastPopper (sharedQueue (listFifo (Option Bool)) 2) apartCalls →
      (sharing (listFifo _)).Admits (OwnItem (listFifo _)) (sharedQueue (listFifo (Option Bool)) 2) apartCalls ∧
        Unmixed (listFifo _) ((sharing (listFifo _)).run (sharedQueue (listFifo (Option Bool)) 2) apartCalls).2) ∧
    ((sharing (listFifo _)).Admits NewItem (sharedQueue (listFifo (Option Bool)) 2) apartCalls →
      (sharing (listFifo _)).Admits (OwnItem (listFifo _)) (sharedQueue (listFifo (Option Bool)) 2) apartCalls →
      (sharing (listFifo _)).Admits LastPopper (sharedQueue (listFifo (Option Bool)) 2) apartCalls) :=
  consumers_give_back_own (listFifo (Option Bool)) (by decide) (by decide) (by decide +kernel)

-- Both have popped before the first one gives back: the second one's item
-- returns although it keeps it, and the first one's is gone.
def overlappingCalls : List (SharedCall Bool) :=
  [.push (some true) 0,.push (some false) 0,.pop 0,.pop 1,.giveBack 0,.keep 1]

theorem consumers_mix_items :
    (sharing (listFifo _)).Admits (InTurn (listFifo _)) (sharedQueue (listFifo (Option Bool)) 1) overlappingCalls ∧
    ¬ (sharing (listFifo _)).Admits (OwnItem (listFifo _)) (sharedQueue (listFifo (Option Bool)) 1) overlappingCalls ∧
    ((sharing (listFifo _)).run (sharedQueue (listFifo (Option Bool)) 1) overlappingCalls).2.queue.contents (listFifo _) =
      [[some false]] ∧
    ((sharing (listFifo _)).run (sharedQueue (listFifo (Option Bool)) 1) overlappingCalls).2.kept = [some false] := by
  refine ⟨by decide +kernel,?_,by decide +kernel,by decide +kernel⟩
  intro own
  have back := own.2.2.2.2.1 0 (some true) rfl
  exact absurd back (by decide +kernel)

end Kisscpp
