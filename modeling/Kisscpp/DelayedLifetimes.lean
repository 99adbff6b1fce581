import Kisscpp.DelayedPush
import Kisscpp.Unwinding

namespace Kisscpp
open TextLines DecimalText Stepping KeyedLists PersistedQueue

variable {α : Type}

-- What the queue is for: items that are ready, in order, and items that wait
-- for their second.
structure DelayedStore (α : Type) where
  ready : List α
  waiting : List (Nat × List α)

namespace DelayedStore

def fresh : DelayedStore α := ⟨[],[]⟩

def release (forced : Bool) (now : Nat) (s : DelayedStore α) : DelayedStore α :=
  if forced || s.ready.isEmpty then
    ⟨s.ready ++ SafeDelayedQueue.moves forced now s.waiting,s.waiting.filter fun e => !(forced || e.1 < now)⟩
  else s

-- At the end of a life all that waits becomes ready, in the order of its seconds.
def settle (s : DelayedStore α) : DelayedStore α := ⟨s.ready ++ held s.waiting,[]⟩

end DelayedStore

-- What the clock shows in one call: for the release time, in moveExpired, and
-- at each push that the call makes.
structure Reading where
  time : Nat
  now : Nat
  seconds : Nat → Nat

def Reading.ios (r : Reading) : Nat → Io := fun pushes => .healthy (r.seconds pushes)

inductive DelayedOp (α : Type) where
  | push (p : α) (seconds2delay : Nat)
  | pop
  | empty
  | mapSize

inductive DelayedAnswer (α : Type) where
  | done
  | item (found : Option α)
  | empty (b : Bool)
  | mapSize (n : Nat)
  | threw (e : QueueError)
  deriving DecidableEq

namespace SafeDelayedQueue

def empty (coder : BiCoder α) (ios : Nat → Io) (now : Nat) (q : SafeDelayedQueue α) :
    Except QueueError Bool × SafeDelayedQueue α :=
  match moveExpired coder ios false now q with
  | (some e,after) => (.error e,after)
  | (none,after) => (.ok after.persistedQ.empty,after)

def noLockmapSize (q : SafeDelayedQueue α) : Nat := q.delayedMap.foldl (fun count e => count + e.2.length) 0

def call (coder : BiCoder α) (r : Reading) (q : SafeDelayedQueue α) : DelayedOp α → DelayedAnswer α × SafeDelayedQueue α
  | .push p seconds2delay =>
    match q.push coder r.ios p seconds2delay r.time r.now with
    | (none,after) => (.done,after)
    | (some e,after) => (.threw e,after)
  | .pop =>
    match q.pop coder r.ios r.now with
    | (.ok found,after) => (.item found,after)
    | (.error e,after) => (.threw e,after)
  | .empty =>
    match q.empty coder r.ios r.now with
    | (.ok b,after) => (.empty b,after)
    | (.error e,after) => (.threw e,after)
  | .mapSize => (.mapSize q.noLockmapSize,q)

end SafeDelayedQueue

namespace DelayedStore

def call (r : Reading) (s : DelayedStore α) : DelayedOp α → DelayedAnswer α × DelayedStore α
  | .push p seconds2delay =>
    (.done,if seconds2delay = 0 then {s with ready := s.ready ++ [p]}
      else release false r.now {s with waiting := pushAt (r.time + seconds2delay) p s.waiting})
  | .pop =>
    let s := s.release false r.now
    (.item s.ready.head?,{s with ready := s.ready.tail})
  | .empty =>
    let s := s.release false r.now
    (.empty s.ready.isEmpty,s)
  | .mapSize => (.mapSize (held s.waiting).length,s)

end DelayedStore

inductive DelayedPhase (α : Type) where
  | absent (files : FileSystem)
  | present (queue : SafeDelayedQueue α)

inductive DelayedEvent (α : Type) where
  | construct (maxItemsPerPage : Nat)
  | call (c : DelayedOp α)
  | destroy

def delayedLives (coder : BiCoder α) (place : Place) :
    Machine (DelayedPhase α) (Reading × DelayedEvent α) (Option (DelayedAnswer α)) where
  step
    | .absent files,(r,.construct maxItemsPerPage) =>
      match construct (.healthy r.now) coder place maxItemsPerPage files with
      | (.ok (),q) => (some .done,.present ⟨q,[]⟩)
      | (.error e,q) => (some (.threw e),.absent q.files)
    | .present q,(r,.call c) =>
      let called := q.call coder r c
      (some called.1,.present called.2)
    | .present q,(r,.destroy) => (none,.absent (q.destroyed coder r.now))
    | phase,_ => (none,phase)

def delayedStores : Machine (Bool × DelayedStore α) (Reading × DelayedEvent α) (Option (DelayedAnswer α)) where
  step
    | (false,s),(_,.construct _) => (some .done,(true,s))
    | (true,s),(r,.call c) =>
      let called := s.call r c
      (some called.1,(true,called.2))
    | (true,s),(_,.destroy) => (none,(false,s.settle))
    | s,_ => (none,s)

-- No page is filed under a listed name, and the clock shows ten digits.
def FiledAfresh (coder : BiCoder α) : DelayedPhase α → Reading × DelayedEvent α → Prop
  | .present q,(r,.call (.push p seconds2delay)) =>
    if seconds2delay = 0 then FilesFresh (r.ios 0) q.persistedQ
    else q.MovesFresh coder r.ios false r.now (pushAt (r.time + seconds2delay) p q.delayedMap)
  | .present q,(r,.call .pop) => TenDigits r.now ∧ q.MovesFresh coder r.ios false r.now q.delayedMap
  | .present q,(r,.call .empty) => q.MovesFresh coder r.ios false r.now q.delayedMap
  | .present q,(r,.destroy) => TenDigits r.now ∧ q.Closing coder r.now
  | _,_ => True

instance (coder : BiCoder α) (now : Nat) (q : SafeDelayedQueue α) : Decidable (q.Closing coder now) :=
  decidable_of_iff (q.MovesFresh coder (fun _ => .healthy now) true now q.delayedMap ∧
      ((q.moveExpired coder (fun _ => .healthy now) true now).2.persistedQ.pages.same = false →
        (q.moveExpired coder (fun _ => .healthy now) true now).2.persistedQ.Fresh now))
    ⟨fun both => ⟨both.1,both.2⟩,fun closing => ⟨closing.moves,closing.last⟩⟩

instance (coder : BiCoder α) (phase : DelayedPhase α) (event : Reading × DelayedEvent α) :
    Decidable (FiledAfresh coder phase event) := by
  obtain ⟨r,event⟩ := event
  cases phase with
  | absent files => exact isTrue (by simp [FiledAfresh])
  | present q =>
    cases event with
    | construct maxItemsPerPage => exact isTrue (by simp [FiledAfresh])
    | destroy => unfold FiledAfresh; infer_instance
    | call c => cases c <;> unfold FiledAfresh <;> infer_instance

namespace SafeDelayedQueue

theorem ios_open (coder : BiCoder α) (r : Reading) (pushes : Nat) (l : List α) (q : PersistedQueue α) :
    EachPush Opens coder r.ios pushes l q := by
  induction l generalizing pushes q with
  | nil => trivial
  | cons front rest ih => exact ⟨fun _ => rfl,fun _ => ih _ _⟩

theorem moveKeys_all {coder : BiCoder α} (faithful : coder.Faithful) {place : Place} {ios : Nat → Io} {forceMove : Bool}
    {now : Nat} {m : List (Nat × List α)} {pushes : Nat} {q : PersistedQueue α} (live : Live coder place q)
    (files : EachPush FilesFresh coder ios pushes (moves forceMove now m) q)
    (opens : EachPush Opens coder ios pushes (moves forceMove now m) q) :
    ∃ after, moveKeys coder ios forceMove now pushes m q = (none,⟨after,m.filter fun e => !(forceMove || e.1 < now)⟩) ∧
      Live coder place after ∧ after.content coder = q.content coder ++ moves forceMove now m := by
  induction m generalizing pushes q with
  | nil => exact ⟨q,rfl,live,(List.append_nil _).symm⟩
  | cons e rest ih =>
    obtain ⟨key,items⟩ := e
    by_cases expired : (forceMove || decide (key < now)) = true
    · rw [moves_expired expired,eachPush_append] at files opens
      obtain ⟨next,moved,drained,through⟩ := moveList_moved faithful live files.1
      have goes := through.mpr opens.1
      have laterFiles := files.2 goes
      have laterOpens := opens.2 goes
      have gone : (!(forceMove || decide (key < now))) = false := by rw [expired]; rfl
      simp only [moveKeys,if_pos expired]
      rw [List.filter_cons_of_neg (by rw [Bool.not_eq_true]; exact gone),moves_expired expired]
      revert next moved drained goes laterFiles laterOpens
      generalize moveList coder ios pushes items q = moving
      intro next moved drained goes laterFiles laterOpens
      obtain ⟨thrown,count,left,after⟩ := moving
      cases goes
      have nothing : left = [] := drained rfl
      subst nothing
      rw [List.append_nil] at moved
      obtain ⟨last,ran,kept,content⟩ := ih next laterFiles laterOpens
      exact ⟨last,ran,kept,by rw [content,moved,List.append_assoc]⟩
    · rw [moves_kept expired] at files opens
      obtain ⟨after,ran,kept,content⟩ := ih live files opens
      simp only [moveKeys,if_neg expired,ran]
      refine ⟨after,?_,kept,?_⟩
      · rw [List.filter_cons_of_pos (by simpa using expired)]
      · rw [content,moves_kept expired]

structure Holds (coder : BiCoder α) (place : Place) (q : SafeDelayedQueue α) (s : DelayedStore α) : Prop where
  live : Live coder place q.persistedQ
  ready : q.persistedQ.content coder = s.ready
  waiting : q.delayedMap = s.waiting

theorem Holds.empty {coder : BiCoder α} {place : Place} {q : SafeDelayedQueue α} {s : DelayedStore α}
    (holds : Holds coder place q s) : q.persistedQ.empty = s.ready.isEmpty := by
  rw [Bool.eq_iff_iff,empty_content holds.live.stored.paged,holds.ready,List.isEmpty_iff]

theorem moveExpired_releases {coder : BiCoder α} (faithful : coder.Faithful) {place : Place} {ios : Nat → Io}
    {forceMove : Bool} {now : Nat} {q : SafeDelayedQueue α} {s : DelayedStore α} (holds : Holds coder place q s)
    (files : q.MovesFresh coder ios forceMove now q.delayedMap)
    (opens : q.MovesThrough coder ios forceMove now q.delayedMap) :
    ∃ after, q.moveExpired coder ios forceMove now = (none,after) ∧ Holds coder place after (s.release forceMove now) := by
  unfold moveExpired DelayedStore.release
  rw [holds.empty]
  by_cases sets : (forceMove || s.ready.isEmpty) = true
  · have moving : (forceMove || q.persistedQ.empty) = true := by rw [holds.empty]; exact sets
    obtain ⟨after,ran,live,content⟩ := moveKeys_all faithful holds.live (files moving) (opens moving)
    rw [if_pos sets,if_pos sets,ran]
    refine ⟨_,rfl,live,?_,?_⟩
    · rw [content,holds.ready,holds.waiting]
    · rw [holds.waiting]
  · rw [if_neg sets,if_neg sets]
    exact ⟨q,rfl,holds⟩

theorem noLockmapSize_held (q : SafeDelayedQueue α) : q.noLockmapSize = (held q.delayedMap).length := by
  rw [noLockmapSize,foldl_length,Nat.zero_add]

theorem push_holds {coder : BiCoder α} (faithful : coder.Faithful) {place : Place} {r : Reading} {p : α}
    {seconds2delay : Nat} {q : SafeDelayedQueue α} {s : DelayedStore α} (holds : Holds coder place q s)
    (afresh : FiledAfresh coder (.present q) (r,.call (.push p seconds2delay))) :
    ∃ after, q.push coder r.ios p seconds2delay r.time r.now = (none,after) ∧
      Holds coder place after (s.call r (.push p seconds2delay)).2 := by
  by_cases immediate : seconds2delay = 0
  · simp only [FiledAfresh,if_pos immediate] at afresh
    have pushed := pushBack_pushedTo faithful p holds.live afresh
    simp only [push,DelayedStore.call,if_pos immediate]
    revert pushed
    generalize q.persistedQ.pushBack (r.ios 0) coder p = result
    intro pushed
    cases pushed with
    | @answered after opens live content =>
      have some : after.empty = false := by
        rw [← Bool.not_eq_true,empty_content live.stored.paged,content]
        simp
      have waits : moveExpired coder (fun pushes => r.ios (pushes + 1)) false r.now ⟨after,q.delayedMap⟩ =
          (none,⟨after,q.delayedMap⟩) := by simp [moveExpired,some]
      exact ⟨_,waits,live,by rw [content,holds.ready],holds.waiting⟩
    | threw closed => exact absurd (fun _ => rfl) closed
  · simp only [FiledAfresh,if_neg immediate] at afresh
    simp only [push,DelayedStore.call,if_neg immediate]
    have later : Holds coder place ⟨q.persistedQ,pushAt (r.time + seconds2delay) p q.delayedMap⟩
        {s with waiting := pushAt (r.time + seconds2delay) p s.waiting} :=
      ⟨holds.live,holds.ready,by rw [holds.waiting]⟩
    exact moveExpired_releases faithful later afresh fun _ => ios_open coder r 0 _ _

theorem pop_holds {coder : BiCoder α} (faithful : coder.Faithful) {place : Place} {r : Reading} {q : SafeDelayedQueue α}
    {s : DelayedStore α} (holds : Holds coder place q s) (afresh : FiledAfresh coder (.present q) (r,.call .pop)) :
    ∃ after, q.pop coder r.ios r.now = (.ok (s.release false r.now).ready.head?,after) ∧
      Holds coder place after (s.call r .pop).2 := by
  obtain ⟨moved,ran,kept⟩ := moveExpired_releases faithful holds afresh.2 fun _ => ios_open coder r 0 _ _
  obtain ⟨found,live,left⟩ := popFront_live faithful afresh.1 kept.live
  rw [kept.ready] at found left
  simp only [pop,ran,found]
  exact ⟨_,rfl,live,left,kept.waiting⟩

theorem call_holds {coder : BiCoder α} (faithful : coder.Faithful) {place : Place} {r : Reading} {c : DelayedOp α}
    {q : SafeDelayedQueue α} {s : DelayedStore α} (holds : Holds coder place q s)
    (afresh : FiledAfresh coder (.present q) (r,.call c)) :
    (q.call coder r c).1 = (s.call r c).1 ∧ Holds coder place (q.call coder r c).2 (s.call r c).2 := by
  cases c with
  | push p seconds2delay =>
    obtain ⟨after,ran,kept⟩ := push_holds faithful holds afresh
    simp only [call,ran]
    exact ⟨rfl,kept⟩
  | pop =>
    obtain ⟨after,ran,kept⟩ := pop_holds faithful holds afresh
    simp only [call,ran]
    exact ⟨rfl,kept⟩
  | empty =>
    obtain ⟨after,ran,kept⟩ := moveExpired_releases faithful holds afresh fun _ => ios_open coder r 0 _ _
    simp only [call,SafeDelayedQueue.empty,ran]
    exact ⟨congrArg DelayedAnswer.empty kept.empty,kept⟩
  | mapSize =>
    refine ⟨congrArg DelayedAnswer.mapSize ?_,holds⟩
    rw [noLockmapSize_held,holds.waiting]

end SafeDelayedQueue

def Leaves (coder : BiCoder α) (place : Place) (files : FileSystem) (items : List α) : Prop :=
  ∀ opening maxItemsPerPage, ∃ q, construct (.healthy opening) coder place maxItemsPerPage files = (.ok (),q) ∧
    Live coder place q ∧ q.content coder = items

theorem vacant_leaves (coder : BiCoder α) {place : Place} {files : FileSystem} (vacant : Vacant place files) :
    Leaves coder place files ([] : List α) :=
  fun _ maxItemsPerPage =>
    ⟨_,construct_vacant coder vacant _ maxItemsPerPage,⟨opened_stored coder vacant maxItemsPerPage,rfl⟩,rfl⟩

theorem destroyed_leaves {coder : BiCoder α} (faithful : coder.Faithful) {place : Place} {now : Nat} (ten : TenDigits now)
    {q : SafeDelayedQueue α} {s : DelayedStore α} (holds : q.Holds coder place s) (closing : q.Closing coder now) :
    Leaves coder place (q.destroyed coder now) s.settle.ready := by
  obtain ⟨after,ran,kept⟩ := SafeDelayedQueue.moveExpired_releases faithful holds closing.moves
    fun _ => SafeDelayedQueue.healthy_opens coder now 0 _ _
  have fresh := closing.last
  rw [ran] at fresh
  obtain ⟨closed,shut,_,reopens⟩ := shutdown_reopens faithful ten kept.live.stored fresh
  have files : q.destroyed coder now = closed.files := by simp [SafeDelayedQueue.destroyed,ran,shut]
  have settled : (s.release true now).ready = s.settle.ready := by
    simp [DelayedStore.release,DelayedStore.settle,SafeDelayedQueue.moves]
  rw [files]
  intro opening maxItemsPerPage
  obtain ⟨next,constructed,stored,content,placed,_⟩ := reopens opening maxItemsPerPage
  rw [kept.live.placed] at constructed placed
  exact ⟨next,constructed,⟨stored,placed⟩,content.trans (kept.ready.trans settled)⟩

inductive StandsFor (coder : BiCoder α) (place : Place) : DelayedPhase α → Bool × DelayedStore α → Prop where
  | absent {files : FileSystem} {items : List α} (leaves : Leaves coder place files items) :
      StandsFor coder place (.absent files) (false,⟨items,[]⟩)
  | present {q : SafeDelayedQueue α} {s : DelayedStore α} (holds : q.Holds coder place s) :
      StandsFor coder place (.present q) (true,s)

theorem follows_lives {coder : BiCoder α} (faithful : coder.Faithful) {place : Place} {phase : DelayedPhase α}
    {s : Bool × DelayedStore α} {event : Reading × DelayedEvent α} (follows : StandsFor coder place phase s)
    (afresh : FiledAfresh coder phase event) :
    ((delayedLives coder place).step phase event).1 = (delayedStores.step s event).1 ∧
      StandsFor coder place ((delayedLives coder place).step phase event).2 (delayedStores.step s event).2 := by
  obtain ⟨r,event⟩ := event
  cases follows with
  | @absent files items leaves =>
    cases event with
    | construct maxItemsPerPage =>
      obtain ⟨q,constructed,live,content⟩ := leaves r.now maxItemsPerPage
      simp only [delayedLives,constructed,delayedStores]
      exact ⟨trivial,.present ⟨live,content,rfl⟩⟩
    | call c => exact ⟨rfl,.absent leaves⟩
    | destroy => exact ⟨rfl,.absent leaves⟩
  | @present q s holds =>
    cases event with
    | construct maxItemsPerPage => exact ⟨rfl,.present holds⟩
    | call c =>
      obtain ⟨answered,kept⟩ := SafeDelayedQueue.call_holds faithful holds afresh
      exact ⟨congrArg some answered,.present kept⟩
    | destroy => exact ⟨rfl,.absent (destroyed_leaves faithful afresh.1 holds afresh.2)⟩

def broughtBy : Reading × DelayedEvent α → Option (DelayedAnswer α) → List α
  | (_,.call (.push p _)),some .done => [p]
  | _,_ => []

def taken : Option (DelayedAnswer α) → List α
  | some (.item found) => found.toList
  | _ => []

namespace DelayedStore

def items (s : DelayedStore α) : List α := s.ready ++ held s.waiting

theorem release_items (forced : Bool) (now : Nat) (s : DelayedStore α) : (s.release forced now).items.Perm s.items := by
  unfold release
  split
  · have halves := (List.filter_append_perm (fun e : Nat × List α => forced || decide (e.1 < now)) s.waiting).flatMap_right
      Prod.snd
    rw [List.flatMap_append] at halves
    simp only [items,SafeDelayedQueue.moves,List.append_assoc]
    exact halves.append_left s.ready
  · exact .refl _

theorem push_items (r : Reading) (p : α) (seconds2delay : Nat) (s : DelayedStore α) :
    (s.call r (.push p seconds2delay)).2.items.Perm (s.items ++ [p]) := by
  simp only [call]
  split
  · simp only [items,List.append_assoc]
    exact List.perm_append_comm.append_left s.ready
  · refine (release_items false r.now _).trans ?_
    have filed := held_pushAt (r.time + seconds2delay) p s.waiting
    exact (filed.append_left s.ready).trans (List.perm_middle.trans (List.perm_append_singleton p _).symm)

theorem pop_items (r : Reading) (s : DelayedStore α) :
    (taken (some (s.call r .pop).1) ++ (s.call r .pop).2.items).Perm s.items := by
  have moved := release_items false r.now s
  simp only [call,taken,items,← List.append_assoc,SafeDelayedQueue.head_tail]
  exact moved

end DelayedStore

theorem stores_balance (s : Bool × DelayedStore α) (event : Reading × DelayedEvent α) :
    let stepped := delayedStores.step s event
    (taken stepped.1 ++ stepped.2.2.items).Perm (s.2.items ++ broughtBy event stepped.1) := by
  obtain ⟨running,s⟩ := s
  obtain ⟨r,event⟩ := event
  cases running with
  | false => cases event <;> simp [delayedStores,taken,broughtBy]
  | true =>
    cases event with
    | construct maxItemsPerPage => simp [delayedStores,taken,broughtBy]
    | destroy => simp [delayedStores,taken,broughtBy,DelayedStore.settle,DelayedStore.items]
    | call c =>
      cases c with
      | push p seconds2delay => exact DelayedStore.push_items r p seconds2delay s
      | pop =>
        have balance := DelayedStore.pop_items r s
        simpa [delayedStores,DelayedStore.call,broughtBy] using balance
      | empty =>
        have kept := DelayedStore.release_items false r.now s
        simpa [delayedStores,DelayedStore.call,taken,broughtBy] using kept
      | mapSize => simp [delayedStores,DelayedStore.call,taken,broughtBy]

def broughtAll (events : List (Reading × DelayedEvent α)) (answers : List (Option (DelayedAnswer α))) : List α :=
  (events.zip answers).flatMap fun e => broughtBy e.1 e.2

theorem stores_conserve (s : Bool × DelayedStore α) (events : List (Reading × DelayedEvent α)) :
    let run := delayedStores.run s events
    (run.1.flatMap taken ++ run.2.2.items).Perm (s.2.items ++ broughtAll events run.1) := by
  induction events generalizing s with
  | nil => simp [broughtAll]
  | cons event rest ih =>
    have now := stores_balance s event
    have later := ih (delayedStores.step s event).2
    simp only [run_cons,List.flatMap_cons,broughtAll,List.zip_cons_cons,List.append_assoc] at now later ⊢
    refine (later.append_left _).trans ?_
    rw [← List.append_assoc,← List.append_assoc]
    exact now.append_right _

-- Any number of lives of the queue: it answers as the store does, which knows
-- no files; it loses nothing and gives nothing twice; and after a restart
-- nothing waits any longer.
theorem delayed_lives {coder : BiCoder α} (faithful : coder.Faithful) {place : Place} {files : FileSystem}
    (vacant : Vacant place files) {events : List (Reading × DelayedEvent α)}
    (admitted : (delayedLives coder place).Admits (FiledAfresh coder) (.absent files) events) :
    let run := (delayedLives coder place).run (.absent files) events
    let stores := delayedStores.run (false,.fresh) events
    run.1 = stores.1 ∧ StandsFor coder place run.2 stores.2 ∧
      (run.1.flatMap taken ++ stores.2.2.items).Perm (broughtAll events run.1) := by
  have start : StandsFor coder place (.absent files) (false,⟨[],[]⟩) := .absent (vacant_leaves coder vacant)
  obtain ⟨answers,follows⟩ := run_simulates (fun _ _ _ => follows_lives faithful) start admitted
  refine ⟨answers,follows,?_⟩
  rw [answers]
  exact stores_conserve (false,.fresh) events

-- An item that was to wait for a minute is there at once after a restart.
def minuteLives : List (Reading × DelayedEvent Bool) :=
  let r : Reading := ⟨1500000000,1500000000,fun _ => 1500000000⟩
  [(r,.construct 1),(r,.call (.push true 60)),(r,.call .pop),(r,.destroy),(r,.construct 1),(r,.call .pop)]

theorem delayed_lives_minute :
    ((delayedLives flagCoder tmpPlace).run (.absent ∅) minuteLives).1 =
      [some .done,some .done,some (.item none),none,some .done,some (.item (some true))] := by
  have admitted : (delayedLives flagCoder tmpPlace).Admits (FiledAfresh flagCoder) (.absent ∅) minuteLives := by
    decide +kernel
  exact (delayed_lives flagCoder_faithful (vacant_empty tmpPlace) admitted).1.trans (by decide)

end Kisscpp
