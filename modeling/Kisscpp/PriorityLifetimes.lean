import Kisscpp.PriorityLevels
import Kisscpp.QueueSolitude
import Kisscpp.DelayedLifetimes

namespace Kisscpp
open TextLines DecimalText Stepping PersistedQueue

variable {α : Type}

inductive Stall (coder : BiCoder α) (place : Place) :
    Bool → FileSystem × Option (PersistedQueue α) → List α → Prop where
  | absent {files : FileSystem} {items : List α} (leaves : Leaves coder place files items) :
      Stall coder place false (files,none) items
  | live {files : FileSystem} {q : PersistedQueue α} (live : Live coder place {q with files := files}) :
      Stall coder place true (files,some q) ({q with files := files}.content coder)

namespace Stall
variable {coder : BiCoder α} {place : Place} {object : Option (PersistedQueue α)}
  {alone : FileSystem × Option (PersistedQueue α)} {items : List α}

theorem kept {q : PersistedQueue α} (live : Live coder place q) :
    Stall coder place true (q.files,some q) (q.content coder) :=
  .live live

theorem constructed (stall : Stall coder place false alone items) (now maxItemsPerPage : Nat) :
    let stepped := (solitary place).step alone ⟨.healthy now,coder,.construct maxItemsPerPage,none⟩
    stepped.1 = some .done ∧ Stall coder place true stepped.2 items := by
  cases stall with
  | absent leaves =>
    obtain ⟨q,made,live,content⟩ := leaves now maxItemsPerPage
    simp only [solitary,Act.outcome,Act.reply,Deed.outcome,Deed.reply,made]
    refine ⟨rfl,?_⟩
    rw [← content]
    exact kept live

theorem pushed (faithful : coder.Faithful) (stall : Stall coder place true alone items)
    (same : SameObject object alone.2) {now : Nat} (afresh : ∀ q ∈ object, FilesFresh (.healthy now) q) (item : α) :
    let stepped := (solitary place).step alone ⟨.healthy now,coder,.call (.pushBack item),none⟩
    stepped.1 = some .done ∧ Stall coder place true stepped.2 (items ++ [item]) := by
  cases stall with
  | @live files q live =>
    have fresh : FilesFresh (.healthy now) {q with files := files} := by
      cases same with
      | live seen => exact afresh seen rfl
    have pushed := pushBack_pushedTo faithful item live fresh
    simp only [solitary,Act.outcome,Act.reply,Deed.outcome,Deed.reply,PersistedQueue.call]
    generalize {q with files := files}.pushBack (.healthy now) coder item = done at pushed ⊢
    cases pushed with
    | answered opens live content =>
      rw [← content]
      exact ⟨rfl,kept live⟩
    | threw closed => exact absurd (fun _ => rfl) closed

theorem popped (faithful : coder.Faithful) (stall : Stall coder place true alone items) {now : Nat}
    (ten : TenDigits now) :
    let stepped := (solitary place).step alone ⟨.healthy now,coder,.call .popFront,none⟩
    stepped.1 = some (.item items.head?) ∧ Stall coder place true stepped.2 items.tail := by
  cases stall with
  | @live files q live =>
    obtain ⟨found,left,content⟩ := SafeDelayedQueue.popFront_live faithful ten live
    simp only [solitary,Act.outcome,Act.reply,Deed.outcome,Deed.reply,PersistedQueue.call]
    generalize {q with files := files}.popFront (.healthy now) coder = done at found left content ⊢
    obtain ⟨answer,after⟩ := done
    cases found
    rw [← content]
    exact ⟨rfl,kept left⟩

theorem destroyed (faithful : coder.Faithful) (stall : Stall coder place true alone items)
    (same : SameObject object alone.2) {now : Nat} (ten : TenDigits now)
    (afresh : ∀ q ∈ object, q.pages.same = false → q.Fresh now) :
    let stepped := (solitary place).step alone ⟨.healthy now,coder,.destroy,none⟩
    stepped.1 = none ∧ Stall coder place false stepped.2 items := by
  cases stall with
  | @live files q live =>
    have fresh : q.pages.same = false → q.Fresh now := by
      cases same with
      | live seen => exact afresh seen rfl
    obtain ⟨closed,shut,_,reopens⟩ := shutdown_reopens faithful ten live.stored fresh
    simp only [solitary,Act.outcome,Act.reply,Deed.outcome,Deed.reply,shut]
    refine ⟨trivial,.absent fun opening maxItemsPerPage => ?_⟩
    obtain ⟨next,made,stored,content,placed,_⟩ := reopens opening maxItemsPerPage
    rw [live.placed] at made placed
    exact ⟨next,made,⟨stored,placed⟩,content⟩

theorem empty {live : Bool} (stall : Stall coder place live alone items) (same : SameObject object alone.2) :
    object.isSome = live ∧ (live = true → object.all PersistedQueue.empty = items.isEmpty) := by
  cases stall with
  | absent leaves =>
    cases same
    exact ⟨rfl,fun impossible => by cases impossible⟩
  | live live =>
    have nothing := empty_content live.stored.paged
    cases same with
    | live q files =>
      refine ⟨rfl,fun _ => ?_⟩
      rw [Bool.eq_iff_iff,List.isEmpty_iff]
      exact nothing

end Stall

-- The queues of the levels, in the directory they share. A level has no object
-- before createQueues and after destroyQueues.
structure PersistedPriorityQueue (α : Type) where
  levels : Nat
  lastPopLevel : Int
  lastPopedObject : Option α
  persistedQList : Street fun _ : Nat => α

inductive LevelCall (α : Type) where
  | push (p : α) (priority : Nat)
  | pop
  | lastPopObject
  | pushBackLastPop
  | empty

namespace PersistedPriorityQueue

def onLevel (coder : BiCoder α) (p : Place) (clocks : Nat → Nat) (level : Nat) (deed : Deed α)
    (queues : Street fun _ : Nat => α) : Option (Reply α) × Street fun _ : Nat => α :=
  let stepped := (street p.level).step queues ⟨level,⟨.healthy (clocks level),coder,deed,none⟩⟩
  (stepped.1.2,stepped.2)

section
variable (coder : BiCoder α) (p : Place) (clocks : Nat → Nat)

def createQueues (maxPageSize : Nat) (queues : Street fun _ : Nat => α) : Nat → Option QueueError × Street fun _ : Nat => α
  | 0 => (none,queues)
  | level + 1 =>
    match createQueues maxPageSize queues level with
    | (some e,failed) => (some e,failed)
    | (none,built) =>
      match onLevel coder p clocks level (.construct maxPageSize) built with
      | (some (.threw e),failed) => (some e,failed)
      | (_,built) => (none,built)

def destroyQueues (queues : Street fun _ : Nat => α) : Nat → Street fun _ : Nat => α
  | 0 => queues
  | level + 1 => (onLevel coder p clocks level .destroy (destroyQueues queues level)).2

-- Where a level cannot be built, the queues of those below it are destroyed.
def construct (priorityLevels maxItemsPerPage : Nat) (files : FileSystem) :
    Except QueueError (PersistedPriorityQueue α) × FileSystem :=
  match createQueues coder p clocks maxItemsPerPage ⟨files,fun _ => none⟩ priorityLevels with
  | (none,queues) => (.ok ⟨priorityLevels,-1,none,queues⟩,queues.files)
  | (some e,failed) => (.error e,(destroyQueues coder p clocks failed priorityLevels).files)

def destroyed (q : PersistedPriorityQueue α) : FileSystem := (destroyQueues coder p clocks q.persistedQList q.levels).files

def firstFilled (q : PersistedPriorityQueue α) : Nat :=
  (List.range q.levels).findIdx fun level => !(q.persistedQList.objects level).all PersistedQueue.empty

def push (item : α) (priority : Nat) (q : PersistedPriorityQueue α) :
    Except QueueError (PriorityReply α) × PersistedPriorityQueue α :=
  let priority := if q.levels ≤ priority then q.levels - 1 else priority
  match onLevel coder p clocks priority (.call (.pushBack item)) q.persistedQList with
  | (some (.threw e),queues) => (.error e,{q with persistedQList := queues})
  | (_,queues) => (.ok .done,{q with persistedQList := queues})

-- lastPopLevel is written before the call, lastPopedObject after it. With every
-- level empty the loop ends past the vector, which is undefined.
def pop (q : PersistedPriorityQueue α) : Except QueueError (PriorityReply α) × PersistedPriorityQueue α :=
  let i := q.firstFilled
  if i < q.levels then
    match onLevel coder p clocks i (.call .popFront) q.persistedQList with
    | (some (.item found),queues) => (.ok (.item found),⟨q.levels,asInt i,found,queues⟩)
    | (some (.threw e),queues) => (.error e,{q with lastPopLevel := asInt i,persistedQList := queues})
    | (_,queues) => (.ok .done,{q with persistedQList := queues})
  else (.ok (.item none),q)

-- An object that was given back is forgotten only when the push has not thrown.
def pushBackLastPop (q : PersistedPriorityQueue α) : Except QueueError (PriorityReply α) × PersistedPriorityQueue α :=
  match decide (0 ≤ q.lastPopLevel),q.lastPopedObject with
  | true,some item =>
    match onLevel coder p clocks q.lastPopLevel.toNat (.call (.pushBack item)) q.persistedQList with
    | (some (.threw e),queues) => (.error e,{q with persistedQList := queues})
    | (_,queues) => (.ok .done,⟨q.levels,-1,none,queues⟩)
  | _,_ => (.ok .done,q)

def call (q : PersistedPriorityQueue α) : LevelCall α → Except QueueError (PriorityReply α) × PersistedPriorityQueue α
  | .push item priority => q.push coder p clocks item priority
  | .pop => q.pop coder p clocks
  | .lastPopObject => (.ok (.item q.lastPopedObject),q)
  | .pushBackLastPop => q.pushBackLastPop coder p clocks
  | .empty => (.ok (.flag (q.firstFilled == q.levels)),q)

end

end PersistedPriorityQueue

inductive PriorityPhase (α : Type) where
  | absent (files : FileSystem)
  | present (queue : PersistedPriorityQueue α)

inductive PriorityEvent (α : Type) where
  | construct (priorityLevels maxItemsPerPage : Nat)
  | call (c : LevelCall α)
  | destroy

def priorityLives (coder : BiCoder α) (p : Place) :
    Machine (PriorityPhase α) ((Nat → Nat) × PriorityEvent α) (Option (Except QueueError (PriorityReply α))) where
  step
    | .absent files,(clocks,.construct priorityLevels maxItemsPerPage) =>
      match PersistedPriorityQueue.construct coder p clocks priorityLevels maxItemsPerPage files with
      | (.ok q,_) => (some (.ok .done),.present q)
      | (.error e,files) => (some (.error e),.absent files)
    | .present q,(clocks,.call c) =>
      let called := q.call coder p clocks c
      (some called.1,.present called.2)
    | .present q,(clocks,.destroy) => (none,.absent (q.destroyed coder p clocks))
    | phase,_ => (none,phase)

def LevelCall.asked : LevelCall α → PriorityCall α
  | .push item priority => .push (some item) priority
  | .pop => .pop
  | .lastPopObject => .lastPopObject
  | .pushBackLastPop => .pushBackLastPop
  | .empty => .empty

-- What the queue is for, over its lives: each takes the lists of its levels off
-- the shelf and puts them back.
structure PriorityStore (α : Type) where
  shelf : Nat → List (Option α)
  life : Option (Levels α)

def priorityStores :
    Machine (PriorityStore α) ((Nat → Nat) × PriorityEvent α) (Option (Except QueueError (PriorityReply α))) where
  step
    | ⟨shelf,none⟩,(_,.construct priorityLevels _) =>
      (some (.ok .done),⟨shelf,some ⟨(List.range priorityLevels).map shelf,none⟩⟩)
    | ⟨shelf,some life⟩,(_,.call c) => (some (.ok (life.call c.asked).1),⟨shelf,some (life.call c.asked).2⟩)
    | ⟨shelf,some life⟩,(_,.destroy) => (none,⟨fun level => life.lists.getD level (shelf level),none⟩)
    | s,_ => (none,s)

def Stocked (coder : BiCoder α) (p : Place) (queues : Street fun _ : Nat => α) (live : Nat → Bool)
    (items : Nat → List α) : Prop :=
  ∀ level, ∃ alone, Undisturbed p.level level queues alone ∧ Stall coder (p.level level) (live level) alone (items level)

theorem levels_unmatched (p : Place) (first second : Nat) (different : first ≠ second) :
    ¬ Matches (p.level first).queueName.text (p.level second).queueName.text :=
  fun found => different (level_injective found)

namespace Stocked
variable {coder : BiCoder α} {p : Place} {queues : Street fun _ : Nat => α} {live : Nat → Bool} {items : Nat → List α}
  {level : Nat}

theorem vacant (coder : BiCoder α) {files : FileSystem} (vacant : ∀ level, Vacant (p.level level) files) :
    Stocked coder p ⟨files,fun _ => none⟩ (fun _ => false) fun _ => [] := by
  intro level
  have tended : ∀ level, Tended (p.level level) files := fun level => .vacant (vacant level)
  exact ⟨(files,none),⟨⟨tended,fun i => own_none (p.level i)⟩,tended level,fun _ _ => rfl,.absent⟩,
    .absent (vacant_leaves coder (vacant level))⟩

theorem step (stocked : Stocked coder p queues live items) {a : Act α} {answer : Option (Reply α)} {lives : Bool}
    {left : List α} (alone : ∀ state, SameObject (queues.objects level) state.2 →
      Stall coder (p.level level) (live level) state (items level) →
      ((solitary (p.level level)).step state a).1 = answer ∧
        Stall coder (p.level level) lives ((solitary (p.level level)).step state a).2 left) :
    ((street p.level).step queues ⟨level,a⟩).1 = ⟨level,answer⟩ ∧
      Stocked coder p ((street p.level).step queues ⟨level,a⟩).2 (Function.update live level lives)
        (Function.update items level left) := by
  have same : ∀ i j, (p.level i).workingDirectory = (p.level j).workingDirectory := fun _ _ => rfl
  have unmatched := levels_unmatched p
  obtain ⟨state,undisturbed,stall⟩ := stocked level
  obtain ⟨told,kept⟩ := alone state undisturbed.object stall
  obtain ⟨answered,own⟩ := undisturbed_own same unmatched undisturbed a
  refine ⟨by rw [answered,told],?_⟩
  intro other
  by_cases mine : other = level
  · cases mine
    rw [Function.update_self,Function.update_self]
    exact ⟨_,own,kept⟩
  · obtain ⟨beside,undisturbed,stall⟩ := stocked other
    rw [Function.update_of_ne mine,Function.update_of_ne mine]
    exact ⟨beside,undisturbed_others same unmatched undisturbed ⟨level,a⟩ (Ne.symm mine),stall⟩

theorem object (stocked : Stocked coder p queues live items) (level : Nat) :
    (queues.objects level).isSome = live level ∧
      (live level = true → (queues.objects level).all PersistedQueue.empty = (items level).isEmpty) := by
  obtain ⟨alone,undisturbed,stall⟩ := stocked level
  exact stall.empty undisturbed.object

theorem directory (stocked : Stocked coder p queues live items) (gone : ∀ level, live level = false) :
    Stocked coder p ⟨queues.files,fun _ => none⟩ (fun _ => false) items := by
  have nobody : queues.objects = fun _ => none := by
    funext level
    have absent := (stocked.object level).1
    rw [gone level] at absent
    exact Option.not_isSome_iff_eq_none.mp (by rw [absent]; exact Bool.false_ne_true)
  have dead : live = fun _ => false := funext gone
  rw [dead] at stocked
  rw [← nobody]
  exact stocked

end Stocked

namespace PersistedPriorityQueue

section
variable {coder : BiCoder α} {p : Place} {clocks : Nat → Nat} {queues : Street fun _ : Nat => α} {live : Nat → Bool}
  {items : Nat → List α} {level : Nat}

variable (clocks) in
theorem onLevel_constructed (stocked : Stocked coder p queues live items) (absent : live level = false)
    (maxPageSize : Nat) :
    let done := onLevel coder p clocks level (.construct maxPageSize) queues
    done.1 = some .done ∧ Stocked coder p done.2 (Function.update live level true) items := by
  obtain ⟨answered,kept⟩ := stocked.step fun state _ stall =>
    (absent ▸ stall : Stall coder (p.level level) false state (items level)).constructed (clocks level) maxPageSize
  rw [Function.update_eq_self] at kept
  exact ⟨congrArg Sigma.snd answered,kept⟩

theorem onLevel_pushed (faithful : coder.Faithful) (stocked : Stocked coder p queues live items)
    (present : live level = true) (afresh : ∀ q ∈ queues.objects level, FilesFresh (.healthy (clocks level)) q) (item : α) :
    let done := onLevel coder p clocks level (.call (.pushBack item)) queues
    done.1 = some .done ∧ Stocked coder p done.2 live (Function.update items level (items level ++ [item])) := by
  obtain ⟨answered,kept⟩ := stocked.step fun state same stall =>
    (present ▸ stall : Stall coder (p.level level) true state (items level)).pushed faithful same afresh item
  rw [← present,Function.update_eq_self] at kept
  exact ⟨congrArg Sigma.snd answered,kept⟩

theorem onLevel_popped (faithful : coder.Faithful) (stocked : Stocked coder p queues live items)
    (present : live level = true) (ten : TenDigits (clocks level)) :
    let done := onLevel coder p clocks level (.call .popFront) queues
    done.1 = some (.item (items level).head?) ∧
      Stocked coder p done.2 live (Function.update items level (items level).tail) := by
  obtain ⟨answered,kept⟩ := stocked.step fun state _ stall =>
    (present ▸ stall : Stall coder (p.level level) true state (items level)).popped faithful ten
  rw [← present,Function.update_eq_self] at kept
  exact ⟨congrArg Sigma.snd answered,kept⟩

theorem onLevel_destroyed (faithful : coder.Faithful) (stocked : Stocked coder p queues live items)
    (present : live level = true) (ten : TenDigits (clocks level))
    (afresh : ∀ q ∈ queues.objects level, q.pages.same = false → q.Fresh (clocks level)) :
    Stocked coder p (onLevel coder p clocks level .destroy queues).2 (Function.update live level false) items := by
  obtain ⟨_,kept⟩ := stocked.step fun state same stall =>
    (present ▸ stall : Stall coder (p.level level) true state (items level)).destroyed faithful same ten afresh
  rwa [Function.update_eq_self] at kept

variable (clocks) in
theorem createQueues_stocked (stocked : Stocked coder p queues (fun _ => false) items) (maxPageSize built : Nat) :
    ∃ after, createQueues coder p clocks maxPageSize queues built = (none,after) ∧
      Stocked coder p after (fun level => decide (level < built)) items := by
  induction built with
  | zero => exact ⟨queues,rfl,stocked⟩
  | succ built ih =>
    obtain ⟨before,ran,kept⟩ := ih
    have absent : decide (built < built) = false := decide_eq_false (Nat.lt_irrefl built)
    obtain ⟨answered,made⟩ := onLevel_constructed clocks kept absent maxPageSize
    have counted : Function.update (fun level => decide (level < built)) built true =
        fun level => decide (level < built + 1) := by
      funext level
      by_cases mine : level = built
      · simp [mine]
      · rw [Function.update_of_ne mine,decide_eq_decide]
        omega
    rw [counted] at made
    simp only [createQueues,ran]
    revert answered made
    generalize onLevel coder p clocks built (.construct maxPageSize) before = done
    intro answered made
    obtain ⟨answer,after⟩ := done
    cases answered
    exact ⟨after,rfl,made⟩

theorem destroyQueues_later (queues : Street fun _ : Nat => α) (gone : Nat) (level : Nat) (later : gone ≤ level) :
    (destroyQueues coder p clocks queues gone).objects level = queues.objects level := by
  induction gone with
  | zero => rfl
  | succ gone ih =>
    have other : level ≠ gone := by omega
    exact (Function.update_of_ne other ..).trans (ih (by omega))

theorem destroyQueues_stocked (faithful : coder.Faithful) {levels : Nat}
    (stocked : Stocked coder p queues (fun level => decide (level < levels)) items)
    (ten : ∀ level < levels, TenDigits (clocks level))
    (afresh : ∀ level < levels, ∀ q ∈ queues.objects level, q.pages.same = false → q.Fresh (clocks level))
    {gone : Nat} (inside : gone ≤ levels) :
    Stocked coder p (destroyQueues coder p clocks queues gone) (fun level => decide (gone ≤ level ∧ level < levels))
      items := by
  induction gone with
  | zero => simpa [destroyQueues] using stocked
  | succ gone ih =>
    have kept := ih (by omega)
    have present : decide (gone ≤ gone ∧ gone < levels) = true := decide_eq_true ⟨Nat.le_refl _,by omega⟩
    have seen : (destroyQueues coder p clocks queues gone).objects gone = queues.objects gone :=
      destroyQueues_later queues gone gone (Nat.le_refl _)
    have done := onLevel_destroyed faithful kept present (ten gone (by omega))
      (by rw [seen]; exact afresh gone (by omega))
    have counted : Function.update (fun level => decide (gone ≤ level ∧ level < levels)) gone false =
        fun level => decide (gone + 1 ≤ level ∧ level < levels) := by
      funext level
      by_cases mine : level = gone
      · simp [mine]
      · rw [Function.update_of_ne mine,decide_eq_decide]
        omega
    rw [counted] at done
    exact done

end

inductive Remembers (q : PersistedPriorityQueue α) : Option (Nat × Option α) → Prop where
  | nothing (level : q.lastPopLevel = -1) (object : q.lastPopedObject = none) : Remembers q none
  | item {level : Nat} {item : α} (inside : level < q.levels) (noted : q.lastPopLevel = level)
      (object : q.lastPopedObject = some item) : Remembers q (some (level,some item))

theorem Remembers.requeued {q : PersistedPriorityQueue α} {taken : Option (Nat × Option α)} (remembers : q.Remembers taken)
    (queues : Street fun _ : Nat => α) : Remembers {q with persistedQList := queues} taken := by
  cases remembers with
  | nothing level object => exact .nothing level object
  | item inside noted object => exact .item inside noted object

def listed (levels : Nat) (items : Nat → List α) : List (List (Option α)) :=
  (List.range levels).map fun level => (items level).map some

structure Holding (coder : BiCoder α) (p : Place) (shelf : Nat → List (Option α)) (q : PersistedPriorityQueue α)
    (items : Nat → List α) (life : Levels α) : Prop where
  stocked : Stocked coder p q.persistedQList (fun level => decide (level < q.levels)) items
  positive : 1 ≤ q.levels
  small : q.levels ≤ 2147483648
  lists : life.lists = listed q.levels items
  taken : q.Remembers life.taken
  beyond : ∀ level, q.levels ≤ level → shelf level = (items level).map some

-- What the caller and the clock see to: a pop finds something, and no page is
-- filed under a name that its level lists.
def Serves (clocks : Nat → Nat) (q : PersistedPriorityQueue α) : LevelCall α → Prop
  | .push _ priority =>
    let level := if q.levels ≤ priority then q.levels - 1 else priority
    ∀ queue ∈ q.persistedQList.objects level, FilesFresh (.healthy (clocks level)) queue
  | .pop => q.firstFilled < q.levels ∧ TenDigits (clocks q.firstFilled)
  | .pushBackLastPop =>
    0 ≤ q.lastPopLevel → ∀ queue ∈ q.persistedQList.objects q.lastPopLevel.toNat,
      FilesFresh (.healthy (clocks q.lastPopLevel.toNat)) queue
  | .lastPopObject | .empty => True

theorem listed_get {levels level : Nat} (inside : level < levels) (items : Nat → List α) :
    (listed levels items)[level]? = some ((items level).map some) := by
  rw [listed,List.getElem?_map,List.getElem?_range inside]
  rfl

theorem listed_update {levels level : Nat} (items : Nat → List α) (left : List α)
    (change : List (Option α) → List (Option α)) (same : change ((items level).map some) = left.map some) :
    (listed levels items).modify level change = listed levels (Function.update items level left) := by
  apply List.ext_getElem?
  intro i
  by_cases here : i < levels
  · rw [List.getElem?_modify,listed_get here,listed_get here]
    by_cases mine : i = level
    · rw [mine,Function.update_self,← same]
      simp
    · rw [Function.update_of_ne mine]
      simp [Ne.symm mine]
  · have out : ∀ l : List (List (Option α)), l.length = levels → l[i]? = none := fun l length =>
      List.getElem?_eq_none_iff.mpr (by omega)
    rw [out _ (by simp [listed]),out _ (by simp [listed])]

namespace Holding
variable {coder : BiCoder α} {p : Place} {clocks : Nat → Nat} {shelf : Nat → List (Option α)}
  {q : PersistedPriorityQueue α} {items : Nat → List α} {life : Levels α}

theorem firstFilled_lowest (holding : Holding coder p shelf q items life) : q.firstFilled = LevelLists.lowest life.lists := by
  have shows : ∀ level ∈ List.range q.levels, (!(q.persistedQList.objects level).all PersistedQueue.empty) =
      !((items level).map some).isEmpty := by
    intro level inside
    have here := (holding.stocked.object level).2 (decide_eq_true (List.mem_range.mp inside))
    rw [here,List.isEmpty_map]
  rw [holding.lists,LevelLists.lowest,listed,List.findIdx_map,firstFilled]
  apply Nat.le_antisymm
  · exact List.findIdx_le_findIdx fun level inside filled => (shows level inside).trans filled
  · exact List.findIdx_le_findIdx fun level inside filled => (shows level inside).symm.trans filled

theorem length_lists (holding : Holding coder p shelf q items life) : life.lists.length = q.levels := by
  rw [holding.lists,listed,List.length_map,List.length_range]

theorem untouched (holding : Holding coder p shelf q items life) {level : Nat} (inside : level < q.levels) (left : List α)
    (other : Nat) (outside : q.levels ≤ other) : shelf other = (Function.update items level left other).map some := by
  rw [Function.update_of_ne (by omega)]
  exact holding.beyond other outside

theorem appended (holding : Holding coder p shelf q items life) (faithful : coder.Faithful) {level : Nat}
    (inside : level < q.levels)
    (afresh : ∀ queue ∈ q.persistedQList.objects level, FilesFresh (.healthy (clocks level)) queue) (item : α) :
    ∃ queues, onLevel coder p clocks level (.call (.pushBack item)) q.persistedQList = (some .done,queues) ∧
      Stocked coder p queues (fun level => decide (level < q.levels))
        (Function.update items level (items level ++ [item])) ∧
      LevelLists.appendAt level (some item) life.lists =
        listed q.levels (Function.update items level (items level ++ [item])) := by
  obtain ⟨answered,kept⟩ := onLevel_pushed faithful holding.stocked (decide_eq_true inside) afresh item
  refine ⟨_,Prod.ext answered rfl,kept,?_⟩
  rw [holding.lists]
  exact listed_update items _ _ (by simp)

theorem push_holds (holding : Holding coder p shelf q items life) (faithful : coder.Faithful) {item : α} {priority : Nat}
    (serves : q.Serves clocks (.push item priority)) :
    ∃ after left, q.push coder p clocks item priority = (.ok (life.call (.push (some item) priority)).1,after) ∧
      Holding coder p shelf after left (life.call (.push (some item) priority)).2 := by
  have positive := holding.positive
  have clamped : min priority (life.lists.length - 1) = if q.levels ≤ priority then q.levels - 1 else priority := by
    rw [holding.length_lists]
    split <;> omega
  have inside : (if q.levels ≤ priority then q.levels - 1 else priority) < q.levels := by
    split <;> omega
  obtain ⟨queues,ran,stocked,lists⟩ := holding.appended faithful inside serves item
  refine ⟨{q with persistedQList := queues},_,?_,stocked,positive,holding.small,?_,holding.taken.requeued queues,
    holding.untouched inside _⟩
  · simp only [push,ran]
    rfl
  · simp only [Levels.call,clamped]
    exact lists

theorem pop_holds (holding : Holding coder p shelf q items life) (faithful : coder.Faithful) (serves : q.Serves clocks .pop) :
    ∃ after left, q.pop coder p clocks = (.ok (life.call .pop).1,after) ∧
      Holding coder p shelf after left (life.call .pop).2 := by
  obtain ⟨inside,ten⟩ := serves
  have lowest := holding.firstFilled_lowest
  have small := holding.small
  have filled : ¬ ∀ l ∈ life.lists, l = [] := by
    intro nothing
    have past := LevelLists.lowest_full.mpr nothing
    rw [← lowest,holding.length_lists] at past
    omega
  obtain ⟨oldest,rest,here,_⟩ := LevelLists.lowest_first filled
  rw [← lowest] at here
  have held := here
  rw [holding.lists,listed_get inside,Option.some.injEq] at held
  cases stock : items q.firstFilled with
  | nil =>
    rw [stock] at held
    cases held
  | cons first others =>
    rw [stock,List.map_cons,List.cons.injEq] at held
    obtain ⟨same,_⟩ := held
    obtain ⟨answered,kept⟩ := onLevel_popped faithful holding.stocked (decide_eq_true inside) ten
    rw [stock,List.head?_cons] at answered
    rw [stock,List.tail_cons] at kept
    have called : life.call .pop =
        (.item (some first),⟨LevelLists.dropAt q.firstFilled life.lists,some (q.firstFilled,some first)⟩) := by
      simp only [Levels.call,← lowest,here,same]
    rw [called]
    have noted : asInt q.firstFilled = (q.firstFilled : Int) := asInt_small (Nat.lt_of_lt_of_le inside small)
    have remembers : ∀ (lastPopLevel : Int) queues, lastPopLevel = q.firstFilled →
        Remembers ⟨q.levels,lastPopLevel,some first,queues⟩ (some (q.firstFilled,some first)) :=
      fun _ _ noted => .item inside noted rfl
    refine ⟨⟨q.levels,asInt q.firstFilled,some first,_⟩,_,?_,⟨kept,holding.positive,small,?_,remembers _ _ noted,
      holding.untouched inside _⟩⟩
    · have ran : onLevel coder p clocks q.firstFilled (.call .popFront) q.persistedQList =
          (some (.item (some first)),_) := Prod.ext answered rfl
      simp only [pop,if_pos inside]
      rw [ran]
    · dsimp only
      rw [holding.lists]
      exact listed_update items _ _ (by rw [stock]; rfl)

theorem pushBackLastPop_holds (holding : Holding coder p shelf q items life) (faithful : coder.Faithful)
    (serves : q.Serves clocks .pushBackLastPop) :
    ∃ after left, q.pushBackLastPop coder p clocks = (.ok (life.call .pushBackLastPop).1,after) ∧
      Holding coder p shelf after left (life.call .pushBackLastPop).2 := by
  obtain ⟨lists,taken⟩ := life
  have remembers : q.Remembers taken := holding.taken
  cases remembers with
  | nothing level object =>
    refine ⟨q,items,?_,holding⟩
    simp [pushBackLastPop,level,Levels.call]
  | @item level item inside noted object =>
    have remembered : 0 ≤ q.lastPopLevel := by omega
    have back : q.lastPopLevel.toNat = level := by omega
    have afresh := serves remembered
    rw [back] at afresh
    obtain ⟨queues,ran,stocked,lists⟩ := holding.appended faithful inside afresh item
    refine ⟨⟨q.levels,-1,none,queues⟩,_,?_,stocked,holding.positive,holding.small,lists,.nothing rfl rfl,
      holding.untouched inside _⟩
    simp only [pushBackLastPop,decide_eq_true remembered,object,back,ran]
    rfl

theorem call_holds (holding : Holding coder p shelf q items life) (faithful : coder.Faithful) {c : LevelCall α}
    (serves : q.Serves clocks c) :
    ∃ after left, q.call coder p clocks c = (.ok (life.call c.asked).1,after) ∧
      Holding coder p shelf after left (life.call c.asked).2 := by
  cases c with
  | push item priority => exact holding.push_holds faithful serves
  | pop => exact holding.pop_holds faithful serves
  | pushBackLastPop => exact holding.pushBackLastPop_holds faithful serves
  | lastPopObject =>
    refine ⟨q,items,?_,holding⟩
    obtain ⟨lists,taken⟩ := life
    have remembers : q.Remembers taken := holding.taken
    cases remembers with
    | nothing level object => simp [call,object,LevelCall.asked,Levels.call]
    | item inside noted object => simp [call,object,LevelCall.asked,Levels.call]
  | empty =>
    refine ⟨q,items,?_,holding⟩
    have lowest := holding.firstFilled_lowest
    have full : LevelLists.lowest life.lists = life.lists.length ↔ ∀ l ∈ life.lists, l = [] := LevelLists.lowest_full
    rw [← lowest,holding.length_lists] at full
    have same : (q.firstFilled == q.levels) = life.lists.all List.isEmpty := by
      rw [Bool.eq_iff_iff,beq_iff_eq,full,List.all_eq_true]
      exact forall₂_congr fun l _ => List.isEmpty_iff.symm
    simp only [call,LevelCall.asked,Levels.call,same]

end Holding

end PersistedPriorityQueue

-- Levels that an int can number; and at the end no page under a name that its
-- level lists.
def Provided : PriorityPhase α → (Nat → Nat) × PriorityEvent α → Prop
  | .absent _,(_,.construct priorityLevels _) => 1 ≤ priorityLevels ∧ priorityLevels ≤ 2147483648
  | .present q,(clocks,.call c) => q.Serves clocks c
  | .present q,(clocks,.destroy) => ∀ level < q.levels, TenDigits (clocks level) ∧
    ∀ queue ∈ q.persistedQList.objects level, queue.pages.same = false → queue.Fresh (clocks level)
  | _,_ => True

inductive Shelves (coder : BiCoder α) (p : Place) : PriorityPhase α → PriorityStore α → Prop where
  | absent {files : FileSystem} {items : Nat → List α}
      (stocked : Stocked coder p ⟨files,fun _ => none⟩ (fun _ => false) items) :
      Shelves coder p (.absent files) ⟨fun level => (items level).map some,none⟩
  | present {q : PersistedPriorityQueue α} {items : Nat → List α} {shelf : Nat → List (Option α)} {life : Levels α}
      (holding : q.Holding coder p shelf items life) : Shelves coder p (.present q) ⟨shelf,some life⟩

theorem put_back {levels : Nat} {items : Nat → List α} {shelf : Nat → List (Option α)}
    (beyond : ∀ level, levels ≤ level → shelf level = (items level).map some) :
    (fun level => (PersistedPriorityQueue.listed levels items).getD level (shelf level)) =
      fun level => (items level).map some := by
  funext level
  by_cases inside : level < levels
  · rw [List.getD_eq_getElem?_getD,PersistedPriorityQueue.listed_get inside]
    rfl
  · have outside : levels ≤ level := by omega
    have past : (PersistedPriorityQueue.listed levels items)[level]? = none :=
      List.getElem?_eq_none_iff.mpr (by simpa [PersistedPriorityQueue.listed] using outside)
    rw [List.getD_eq_getElem?_getD,past]
    exact beyond level outside

theorem shelves_step {coder : BiCoder α} (faithful : coder.Faithful) {p : Place} {phase : PriorityPhase α}
    {s : PriorityStore α} {event : (Nat → Nat) × PriorityEvent α} (shelves : Shelves coder p phase s)
    (provided : Provided phase event) :
    ((priorityLives coder p).step phase event).1 = (priorityStores.step s event).1 ∧
      Shelves coder p ((priorityLives coder p).step phase event).2 (priorityStores.step s event).2 := by
  obtain ⟨clocks,event⟩ := event
  cases shelves with
  | @absent files items stocked =>
    cases event with
    | construct priorityLevels maxItemsPerPage =>
      obtain ⟨queues,built,kept⟩ :=
        PersistedPriorityQueue.createQueues_stocked clocks stocked maxItemsPerPage priorityLevels
      simp only [priorityLives,PersistedPriorityQueue.construct,built,priorityStores]
      exact ⟨trivial,.present ⟨kept,provided.1,provided.2,rfl,.nothing rfl rfl,fun _ _ => rfl⟩⟩
    | call c => exact ⟨rfl,.absent stocked⟩
    | destroy => exact ⟨rfl,.absent stocked⟩
  | @present q items shelf life holding =>
    cases event with
    | construct priorityLevels maxItemsPerPage => exact ⟨rfl,.present holding⟩
    | call c =>
      obtain ⟨after,left,ran,kept⟩ := holding.call_holds faithful provided
      simp only [priorityLives,ran,priorityStores]
      exact ⟨trivial,.present kept⟩
    | destroy =>
      have emptied := PersistedPriorityQueue.destroyQueues_stocked faithful holding.stocked
        (fun level inside => (provided level inside).1) (fun level inside => (provided level inside).2) (Nat.le_refl q.levels)
      have gone := emptied.directory fun level => decide_eq_false (by omega)
      refine ⟨rfl,?_⟩
      simp only [priorityLives,priorityStores,holding.lists]
      rw [put_back holding.beyond]
      exact .absent gone

-- The queue on disk over any number of lives, with any numbers of levels, is
-- the lists of its levels on a shelf.
theorem priority_lives {coder : BiCoder α} (faithful : coder.Faithful) {p : Place} {files : FileSystem}
    (vacant : ∀ level, Vacant (p.level level) files) {events : List ((Nat → Nat) × PriorityEvent α)}
    (admitted : (priorityLives coder p).Admits Provided (.absent files) events) :
    let run := (priorityLives coder p).run (.absent files) events
    let stores := priorityStores.run ⟨fun _ => [],none⟩ events
    run.1 = stores.1 ∧ Shelves coder p run.2 stores.2 := by
  have start : Shelves coder p (.absent files) ⟨fun _ => [],none⟩ := .absent (.vacant coder vacant)
  exact run_simulates (fun _ _ _ => shelves_step faithful) start admitted

def levelsComeBack : List ((Nat → Nat) × PriorityEvent Bool) :=
  [.construct 2 1,.call (.push true 1),.call (.push false 0),.destroy,.construct 1 1,.call .pop,.call .empty,.destroy,
    .construct 2 1,.call .pop,.call .pushBackLastPop,.call .pop].map fun event => (fun _ => 1500000000,event)

instance (phase : PriorityPhase α) (event : (Nat → Nat) × PriorityEvent α) : Decidable (Provided phase event) := by
  obtain ⟨clocks,event⟩ := event
  cases phase with
  | absent files =>
    cases event with
    | construct priorityLevels maxItemsPerPage => exact inferInstanceAs (Decidable (_ ∧ _))
    | call c => exact isTrue (by simp [Provided])
    | destroy => exact isTrue (by simp [Provided])
  | present q =>
    cases event with
    | construct priorityLevels maxItemsPerPage => exact isTrue (by simp [Provided])
    | call c => cases c <;> unfold Provided PersistedPriorityQueue.Serves <;> infer_instance
    | destroy => unfold Provided; infer_instance

theorem priority_lives_levels : ((priorityLives flagCoder jobsPlace).run (.absent ∅) levelsComeBack).1 =
    [some (.ok .done),some (.ok .done),some (.ok .done),none,
      some (.ok .done),some (.ok (.item (some false))),some (.ok (.flag true)),none,
      some (.ok .done),some (.ok (.item (some true))),some (.ok .done),some (.ok (.item (some true)))] := by
  have admitted : (priorityLives flagCoder jobsPlace).Admits Provided (.absent ∅) levelsComeBack := by
    decide +kernel
  exact (priority_lives flagCoder_faithful (fun level => vacant_empty (jobsPlace.level level)) admitted).1

end Kisscpp
