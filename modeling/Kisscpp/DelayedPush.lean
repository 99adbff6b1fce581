import Kisscpp.SafeDelayedQueue

namespace Kisscpp
open TextLines DecimalText Stepping KeyedLists PersistedQueue

variable {α : Type}

theorem storedItems_shelved {coder : BiCoder α} {place : Place} {files : FileSystem} {order : List Text}
    (rack : Rack coder place files order) (noState : order = [] → place.stateFilePath ∉ files) :
    storedItems coder place (shelved place order files) = some (pagesOf coder files order) := by
  by_cases nothing : order = []
  · simp [storedItems,shelved,nothing,stateNames_absent (noState nothing)]
  · have names : stateNames place (shelved place order files) = order :=
      stateNames_shelved nothing fun name member => named_oneLine (rack.named name member)
    have loads : ∀ rest : List Text, (∀ name ∈ rest, name ∈ order) →
        (rest.mapM (pageAt coder (shelved place order files))).map List.flatten = some (pagesOf coder files rest) := by
      intro rest within
      induction rest with
      | nil => rfl
      | cons name rest ih =>
        obtain ⟨page,found,_⟩ := rack.filled name (within name List.mem_cons_self)
        have here : pageAt coder (shelved place order files) name = some page := by
          rw [shelved,if_neg nothing,pageAt_insert_ne (named_ne_state (rack.named name (within name List.mem_cons_self))),found]
        have later := ih fun other member => within other (List.mem_cons_of_mem _ member)
        obtain ⟨pages,loaded,same⟩ := Option.map_eq_some_iff.mp later
        rw [List.mapM_cons,here,loaded,pagesOf_cons found,← same]
        rfl
    rw [storedItems,names]
    exact loads order fun _ member => member

theorem shutdown_stored {coder : BiCoder α} (faithful : coder.Faithful) {now : Nat} (ten : TenDigits now) {place : Place}
    {q : PersistedQueue α} (live : Live coder place q) (fresh : q.pages.same = false → q.Fresh now) :
    storedItems coder place (q.shutdown (.healthy now) coder).2.files = some (q.content coder) := by
  obtain ⟨front,back,holdsFront,holdsBack,shut⟩ := shutdown_shelved faithful ten q
  obtain ⟨shelf,pages,noState⟩ := closed_shelf ten live.stored fresh holdsFront holdsBack
  rw [shut,← live.placed,← pages]
  exact storedItems_shelved shelf.rack fun _ => noState

structure Shut (coder : BiCoder α) (place : Place) (q : PersistedQueue α) : Prop where
  down : q.shutDown = true
  placed : q.place = place
  unlisted : q.persistedFileNames = []
  lastFilled : q.pages.same = false → q.pages.last ≠ []
  noState : q.pages.same = true → q.pages.first = [] → place.stateFilePath ∉ q.files
  stored : storedItems coder place q.files = some (q.content coder)

theorem unlisted_rack {coder : BiCoder α} {now : Nat} (ten : TenDigits now) {front back : Text} {q : PersistedQueue α}
    (unlisted : q.persistedFileNames = []) (lastFilled : q.pages.same = false → q.pages.last ≠ [])
    (holdsFront : coder.decodePage front = some q.pages.first) (holdsBack : coder.decodePage back = some q.pages.last) :
    Rack coder q.place (q.closed now front back).files (q.closingOrder now) ∧
      pagesOf coder (q.closed now front back).files (q.closingOrder now) = q.content coder := by
  -- Whether the object is shut down is no matter to what it writes.
  have paged : ({q with shutDown := false}).Paged coder := by
    refine ⟨rfl,fun _ => unlisted,?_,?_,?_⟩ <;> simp [unlisted]
  have fresh : ({q with shutDown := false}).Fresh now := by simp [Fresh,unlisted]
  have written := closed_rack ten paged lastFilled (fun _ => fresh) holdsFront holdsBack
  rw [closed_shutDown] at written
  exact written

theorem shutdown_unlisted {coder : BiCoder α} (faithful : coder.Faithful) {now : Nat} (ten : TenDigits now) {place : Place}
    {q : PersistedQueue α} (placed : q.place = place) (unlisted : q.persistedFileNames = [])
    (lastFilled : q.pages.same = false → q.pages.last ≠ [])
    (noState : q.pages.same = true → q.pages.first = [] → place.stateFilePath ∉ q.files) :
    ∃ after, q.shutdown (.healthy now) coder = (.ok (),after) ∧ Shut coder place after ∧
      after.content coder = q.content coder := by
  subst placed
  obtain ⟨front,back,holdsFront,holdsBack,shut⟩ := shutdown_shelved faithful ten q
  obtain ⟨rack,items⟩ := unlisted_rack ten unlisted lastFilled holdsFront holdsBack
  have pages := closed_pages now front back q
  have samePlace := q.closed_place now front back
  have drainedFiles : q.pages.same = true → q.pages.first = [] →
      q.place.stateFilePath ∉ (q.closed now front back).files := by
    intro shared empty
    simpa [closed,shared,empty] using noState shared empty
  refine ⟨_,shut,⟨rfl,samePlace,rfl,?_,?_,?_⟩,?_⟩
  · rw [pages]
    exact lastFilled
  · rw [pages]
    intro shared empty
    simp only [shared_order unlisted shared,if_pos empty,shelved,if_true]
    exact drainedFiles shared empty
  · rw [storedItems_shelved rack,items]
    · simp [content,pages,unlisted]
    · intro nothing
      cases same : q.pages.same with
      | true =>
        refine drainedFiles same ?_
        by_contra filled
        simp [shared_order unlisted same,filled] at nothing
      | false => simp [closingOrder,same] at nothing
  · simp [content,pages,unlisted]

namespace SafeDelayedQueue

def MovesFresh (coder : BiCoder α) (ios : Nat → Io) (forceMove : Bool) (now : Nat) (m : List (Nat × List α))
    (q : SafeDelayedQueue α) : Prop :=
  (forceMove || q.persistedQ.empty) = true → EachPush FilesFresh coder ios 0 (moves forceMove now m) q.persistedQ

def MovesThrough (coder : BiCoder α) (ios : Nat → Io) (forceMove : Bool) (now : Nat) (m : List (Nat × List α))
    (q : SafeDelayedQueue α) : Prop :=
  (forceMove || q.persistedQ.empty) = true → EachPush Opens coder ios 0 (moves forceMove now m) q.persistedQ

def InMemory (coder : BiCoder α) (ios : Nat → Io) (now : Nat) (q : SafeDelayedQueue α) : Prop :=
  q.persistedQ.persistedFileNames = [] ∧
    EachPush (fun _ inner => ¬ inner.Spills) coder ios 0 (moves true now q.delayedMap) q.persistedQ

instance (coder : BiCoder α) (ios : Nat → Io) (forceMove : Bool) (now : Nat) (m : List (Nat × List α))
    (q : SafeDelayedQueue α) : Decidable (q.MovesFresh coder ios forceMove now m) := inferInstanceAs (Decidable (_ → _))
instance (coder : BiCoder α) (ios : Nat → Io) (forceMove : Bool) (now : Nat) (m : List (Nat × List α))
    (q : SafeDelayedQueue α) : Decidable (q.MovesThrough coder ios forceMove now m) := inferInstanceAs (Decidable (_ → _))
instance (coder : BiCoder α) (ios : Nat → Io) (now : Nat) (q : SafeDelayedQueue α) : Decidable (q.InMemory coder ios now) :=
  inferInstanceAs (Decidable (_ ∧ _))

structure Closing (coder : BiCoder α) (now : Nat) (q : SafeDelayedQueue α) : Prop where
  moves : q.MovesFresh coder (fun _ => .healthy now) true now q.delayedMap
  last : (q.moveExpired coder (fun _ => .healthy now) true now).2.persistedQ.pages.same = false →
    (q.moveExpired coder (fun _ => .healthy now) true now).2.persistedQ.Fresh now

def Standing (coder : BiCoder α) (place : Place) (q : SafeDelayedQueue α) : Prop :=
  Live coder place q.persistedQ ∨ Shut coder place q.persistedQ ∧ q.delayedMap = []

theorem moveExpired_moved {coder : BiCoder α} (faithful : coder.Faithful) {place : Place} {ios : Nat → Io} {forceMove : Bool}
    {now : Nat} {q : SafeDelayedQueue α} (live : Live coder place q.persistedQ)
    (files : q.MovesFresh coder ios forceMove now q.delayedMap) :
    Live coder place (q.moveExpired coder ios forceMove now).2.persistedQ ∧
      ((q.moveExpired coder ios forceMove now).2.items coder).Perm (q.items coder) ∧
      (forceMove = true → (q.moveExpired coder ios forceMove now).1 = none →
        (q.moveExpired coder ios forceMove now).2.delayedMap = []) ∧
      ((q.moveExpired coder ios forceMove now).1 = none ↔ q.MovesThrough coder ios forceMove now q.delayedMap) := by
  unfold moveExpired
  by_cases sets : (forceMove || q.persistedQ.empty) = true
  · obtain ⟨kept,permuted,cleared,goes⟩ := moveKeys_moved faithful live (files sets)
    rw [if_pos sets]
    refine ⟨kept,permuted,cleared,goes.trans ?_⟩
    exact ⟨fun each _ => each,fun through => through sets⟩
  · rw [if_neg sets]
    refine ⟨live,.refl _,?_,iff_of_true rfl fun moving => absurd moving sets⟩
    intro force
    simp [force] at sets

theorem moveKeys_down (coder : BiCoder α) (ios : Nat → Io) (forceMove : Bool) (now pushes : Nat) (m : List (Nat × List α))
    {q : PersistedQueue α} (down : q.shutDown = true) :
    (moveKeys coder ios forceMove now pushes m q).2.persistedQ = q ∧
      held (moveKeys coder ios forceMove now pushes m q).2.delayedMap = held m := by
  induction m generalizing pushes with
  | nil => exact ⟨rfl,rfl⟩
  | cons e rest ih =>
    obtain ⟨key,items⟩ := e
    by_cases expired : (forceMove || decide (key < now)) = true
    · simp only [moveKeys,if_pos expired]
      cases items with
      | nil => simpa [moveList] using ih pushes
      | cons front items => simp [moveList,PersistedQueue.pushBack,down]
    · obtain ⟨same,left⟩ := ih pushes
      simp only [moveKeys,if_neg expired]
      exact ⟨same,congrArg (items ++ ·) left⟩

theorem moveExpired_down (coder : BiCoder α) (ios : Nat → Io) (forceMove : Bool) (now : Nat)
    {q : SafeDelayedQueue α} (down : q.persistedQ.shutDown = true) :
    (q.moveExpired coder ios forceMove now).2.persistedQ = q.persistedQ ∧
      held (q.moveExpired coder ios forceMove now).2.delayedMap = held q.delayedMap := by
  unfold moveExpired
  split
  · exact moveKeys_down coder ios forceMove now 0 q.delayedMap down
  · exact ⟨rfl,rfl⟩

theorem pushBack_unspilled (io : Io) (coder : BiCoder α) (p : α) {q : PersistedQueue α} (within : ¬ q.Spills) :
    (q.pushBack io coder p).2.persistedFileNames = q.persistedFileNames := by
  unfold pushBack
  split
  · rfl
  · split
    · next full =>
      have shared : q.pages.same = true := by
        by_contra separate
        exact within ⟨Bool.eq_false_iff.mpr separate,full⟩
      rw [if_pos shared]
    · rfl

theorem moveList_unspilled {coder : BiCoder α} {ios : Nat → Io} {l : List α} {pushes : Nat} {q : PersistedQueue α}
    (within : EachPush (fun _ inner => ¬ inner.Spills) coder ios pushes l q) :
    (moveList coder ios pushes l q).persistedQ.persistedFileNames = q.persistedFileNames := by
  induction l generalizing pushes q with
  | nil => rfl
  | cons front rest ih =>
    have same := pushBack_unspilled (ios pushes) coder front within.1
    have later := within.2
    simp only [moveList]
    revert same later
    generalize q.pushBack (ios pushes) coder front = result
    intro same later
    obtain ⟨reply,after⟩ := result
    cases reply with
    | error e => exact same
    | ok => exact (ih (later rfl)).trans same

theorem moveKeys_unspilled {coder : BiCoder α} {ios : Nat → Io} {now : Nat} {m : List (Nat × List α)} {pushes : Nat}
    {q : PersistedQueue α} (within : EachPush (fun _ inner => ¬ inner.Spills) coder ios pushes (moves true now m) q) :
    (moveKeys coder ios true now pushes m q).2.persistedQ.persistedFileNames = q.persistedFileNames := by
  induction m generalizing pushes q with
  | nil => rfl
  | cons e rest ih =>
    obtain ⟨key,items⟩ := e
    rw [moves_expired (Bool.true_or _),eachPush_append] at within
    have same := moveList_unspilled within.1
    have later := within.2
    simp only [moveKeys,Bool.true_or,if_true]
    revert same later
    generalize moveList coder ios pushes items q = moving
    intro same later
    obtain ⟨thrown,count,left,after⟩ := moving
    cases thrown with
    | some e => exact same
    | none => exact (ih (later rfl)).trans same

theorem InMemory.moved {coder : BiCoder α} {ios : Nat → Io} {now : Nat} {q : SafeDelayedQueue α}
    (memory : q.InMemory coder ios now) : (q.moveExpired coder ios true now).2.persistedQ.persistedFileNames = [] := by
  simp only [moveExpired,Bool.true_or,if_true]
  rw [moveKeys_unspilled memory.2]
  exact memory.1

theorem items_shared {coder : BiCoder α} (m : List (Nat × List α)) {q after : PersistedQueue α}
    (content : after.content coder = q.content coder) :
    SafeDelayedQueue.items coder ⟨after,m⟩ = SafeDelayedQueue.items coder ⟨q,m⟩ := by
  rw [items,items,content]

theorem push_now {coder : BiCoder α} (faithful : coder.Faithful) {place : Place} {ios : Nat → Io} (p : α) (time now : Nat)
    {q : SafeDelayedQueue α} (live : Live coder place q.persistedQ) (files : FilesFresh (ios 0) q.persistedQ) :
    Live coder place (q.push coder ios p 0 time now).2.persistedQ ∧
      ((q.push coder ios p 0 time now).1 = none →
        ((q.push coder ios p 0 time now).2.items coder).Perm (p :: q.items coder)) ∧
      ((q.push coder ios p 0 time now).1 ≠ none →
        ((q.push coder ios p 0 time now).2.items coder).Perm (q.items coder)) := by
  have pushed := pushBack_pushedTo faithful p live files
  simp only [push,if_true]
  revert pushed
  generalize q.persistedQ.pushBack (ios 0) coder p = result
  intro pushed
  cases pushed with
  | @answered after opens next content =>
    have some : after.empty = false := by
      rw [← Bool.not_eq_true,empty_content next.stored.paged,content]
      simp
    have waits : moveExpired coder (fun pushes => ios (pushes + 1)) false now ⟨after,q.delayedMap⟩ =
        (none,⟨after,q.delayedMap⟩) := by simp [moveExpired,some]
    simp only [waits]
    refine ⟨next,?_,fun threw => absurd rfl threw⟩
    intro _
    simp only [items,content,List.append_assoc]
    exact List.perm_middle
  | threw closed next content =>
    refine ⟨next,fun none => (by cases none),?_⟩
    intro _
    rw [items_shared q.delayedMap content]

-- A push with a delay has put the item into the map before anything can throw.
theorem push_later {coder : BiCoder α} (faithful : coder.Faithful) {place : Place} {ios : Nat → Io} (p : α)
    {seconds2delay : Nat} (delayed : seconds2delay ≠ 0) (time now : Nat) {q : SafeDelayedQueue α}
    (live : Live coder place q.persistedQ)
    (files : q.MovesFresh coder ios false now (pushAt (time + seconds2delay) p q.delayedMap)) :
    Live coder place (q.push coder ios p seconds2delay time now).2.persistedQ ∧
      ((q.push coder ios p seconds2delay time now).2.items coder).Perm (p :: q.items coder) ∧
      ((q.push coder ios p seconds2delay time now).1 = none ↔
        q.MovesThrough coder ios false now (pushAt (time + seconds2delay) p q.delayedMap)) := by
  let filed : SafeDelayedQueue α := {q with delayedMap := pushAt (time + seconds2delay) p q.delayedMap}
  obtain ⟨kept,permuted,_,goes⟩ := moveExpired_moved faithful (q := filed) live files
  rw [push,if_neg delayed]
  refine ⟨kept,permuted.trans ?_,goes⟩
  exact ((held_pushAt _ p _).append_left _).trans List.perm_middle

theorem push_down (coder : BiCoder α) (ios : Nat → Io) (p : α) {seconds2delay : Nat} (delayed : seconds2delay ≠ 0)
    (time now : Nat) {q : SafeDelayedQueue α} (down : q.persistedQ.shutDown = true) :
    ((q.push coder ios p seconds2delay time now).2.items coder).Perm (p :: q.items coder) := by
  let filed : SafeDelayedQueue α := {q with delayedMap := pushAt (time + seconds2delay) p q.delayedMap}
  obtain ⟨same,left⟩ := moveExpired_down coder ios false now (q := filed) down
  rw [push,if_neg delayed,items]
  rw [same,left]
  exact ((held_pushAt _ p _).append_left _).trans List.perm_middle

theorem head_tail (l : List α) : l.head?.toList ++ l.tail = l := by cases l <;> rfl

theorem popFront_live {coder : BiCoder α} (faithful : coder.Faithful) {place : Place} {now : Nat} (ten : TenDigits now)
    {q : PersistedQueue α} (live : Live coder place q) :
    (q.popFront (.healthy now) coder).1 = .ok (q.content coder).head? ∧
      Live coder place (q.popFront (.healthy now) coder).2 ∧
      (q.popFront (.healthy now) coder).2.content coder = (q.content coder).tail := by
  obtain ⟨after,popped,_,left⟩ := paged_popFront live.stored.paged now
  have called := call_called faithful ten live.stored.live .popFront
  obtain ⟨stored,_⟩ := stored_called live.stored ten (fun saves => (by cases saves)) called
  have placed := (called_frame called).1.trans live.placed
  refine ⟨congrArg Prod.fst popped,⟨stored,placed⟩,?_⟩
  rw [popped]
  exact left

theorem pop_live {coder : BiCoder α} (faithful : coder.Faithful) {place : Place} {ios : Nat → Io} {now : Nat}
    (ten : TenDigits now) {q : SafeDelayedQueue α} (live : Live coder place q.persistedQ)
    (files : q.MovesFresh coder ios false now q.delayedMap) :
    Live coder place (q.pop coder ios now).2.persistedQ ∧
      match (q.pop coder ios now).1 with
      | .error _ => ((q.pop coder ios now).2.items coder).Perm (q.items coder)
      | .ok item => (item.toList ++ (q.pop coder ios now).2.items coder).Perm (q.items coder) := by
  obtain ⟨kept,permuted,_,_⟩ := moveExpired_moved faithful live files
  unfold pop
  revert kept permuted
  generalize q.moveExpired coder ios false now = moved
  intro kept permuted
  obtain ⟨thrown,after⟩ := moved
  cases thrown with
  | some e => exact ⟨kept,permuted⟩
  | none =>
    obtain ⟨found,next,left⟩ := popFront_live faithful ten kept
    simp only [found]
    refine ⟨next,?_⟩
    simp only [items,left,← List.append_assoc,head_tail]
    exact permuted

theorem shutdown_live {coder : BiCoder α} (faithful : coder.Faithful) {place : Place} {ios : Nat → Io} {now : Nat}
    (ten : TenDigits now) {q : SafeDelayedQueue α} (live : Live coder place q.persistedQ)
    (files : q.MovesFresh coder ios true now q.delayedMap)
    (memory : q.MovesThrough coder ios true now q.delayedMap → q.InMemory coder ios now) :
    Standing coder place (q.shutdown coder ios now).2 ∧ ((q.shutdown coder ios now).2.items coder).Perm (q.items coder) := by
  obtain ⟨kept,permuted,cleared,goes⟩ := moveExpired_moved faithful live files
  unfold shutdown
  cases moved : q.moveExpired coder ios true now with
  | mk thrown after =>
    rw [moved] at kept permuted cleared goes
    cases thrown with
    | some e => exact ⟨.inl kept,permuted⟩
    | none =>
      have unlisted := (memory (goes.mp rfl)).moved
      rw [moved] at unlisted
      have stored := kept.stored
      obtain ⟨closed,shut,down,content⟩ := shutdown_unlisted faithful ten kept.placed unlisted stored.lastFilled
        (fun _ _ => kept.placed ▸ stored.noState)
      simp only [shut]
      refine ⟨.inr ⟨down,cleared rfl rfl⟩,?_⟩
      rw [items_shared after.delayedMap content]
      exact permuted

theorem healthy_opens (coder : BiCoder α) (now pushes : Nat) (l : List α) (q : PersistedQueue α) :
    EachPush Opens coder (fun _ => .healthy now) pushes l q := by
  induction l generalizing pushes q with
  | nil => trivial
  | cons front rest ih => exact ⟨fun _ => rfl,fun _ => ih _ _⟩

theorem destroyed_closed {coder : BiCoder α} (faithful : coder.Faithful) {place : Place} {now : Nat}
    {q : SafeDelayedQueue α} (live : Live coder place q.persistedQ) (closing : q.Closing coder now) :
    ∃ inner, Live coder place inner ∧ (inner.content coder).Perm (q.items coder) ∧
      (inner.pages.same = false → inner.Fresh now) ∧
      q.destroyed coder now = (inner.shutdown (.healthy now) coder).2.files := by
  obtain ⟨kept,permuted,cleared,goes⟩ := moveExpired_moved faithful live closing.moves
  have through := goes.mpr fun _ => healthy_opens _ _ _ _ _
  have drained := cleared rfl through
  have fresh := closing.last
  unfold destroyed
  cases moved : q.moveExpired coder (fun _ => .healthy now) true now with
  | mk thrown after =>
    rw [moved] at kept permuted through drained fresh
    cases through
    rw [items,drained,held_nil,List.append_nil] at permuted
    exact ⟨_,kept,permuted,fresh,rfl⟩

theorem destroyed_live {coder : BiCoder α} (faithful : coder.Faithful) {place : Place} {now : Nat} (ten : TenDigits now)
    {q : SafeDelayedQueue α} (live : Live coder place q.persistedQ) (closing : q.Closing coder now) :
    ∃ stored, storedItems coder place (q.destroyed coder now) = some stored ∧ stored.Perm (q.items coder) := by
  obtain ⟨inner,kept,permuted,fresh,files⟩ := destroyed_closed faithful live closing
  rw [files]
  exact ⟨_,shutdown_stored faithful ten kept fresh,permuted⟩

theorem destroyed_reopens {coder : BiCoder α} (faithful : coder.Faithful) {place : Place} {now : Nat} (ten : TenDigits now)
    {q : SafeDelayedQueue α} (live : Live coder place q.persistedQ) (closing : q.Closing coder now)
    (opening maxItemsPerPage : Nat) :
    ∃ next, construct (.healthy opening) coder place maxItemsPerPage (q.destroyed coder now) = (.ok (),next) ∧
      Live coder place next ∧ (next.content coder).Perm (q.items coder) := by
  obtain ⟨inner,kept,permuted,fresh,files⟩ := destroyed_closed faithful live closing
  obtain ⟨after,shut,_,reopens⟩ := shutdown_reopens faithful ten kept.stored fresh
  obtain ⟨next,constructed,stored,content,placed,_⟩ := reopens opening maxItemsPerPage
  rw [kept.placed] at constructed placed
  rw [files,shut]
  exact ⟨next,constructed,⟨stored,placed⟩,content ▸ permuted⟩

theorem moveExpired_empty (coder : BiCoder α) (ios : Nat → Io) (forceMove : Bool) (now : Nat) (inner : PersistedQueue α) :
    moveExpired coder ios forceMove now ⟨inner,[]⟩ = (none,⟨inner,[]⟩) := by
  unfold moveExpired
  split <;> rfl

theorem push_shut (coder : BiCoder α) (ios : Nat → Io) (p : α) (time now : Nat) {inner : PersistedQueue α}
    (down : inner.shutDown = true) (m : List (Nat × List α)) :
    push coder ios p 0 time now ⟨inner,m⟩ = (some .queueShutDown,⟨inner,m⟩) := by
  simp [push,PersistedQueue.pushBack,down]

theorem pop_shut (coder : BiCoder α) (ios : Nat → Io) (now : Nat) {inner : PersistedQueue α} (down : inner.shutDown = true) :
    pop coder ios now ⟨inner,[]⟩ = (.error .queueShutDown,⟨inner,[]⟩) := by
  simp [pop,moveExpired_empty,PersistedQueue.popFront,down]

theorem shutdown_shut {coder : BiCoder α} (faithful : coder.Faithful) {place : Place} (ios : Nat → Io) {now : Nat}
    (ten : TenDigits now) {inner : PersistedQueue α} (shut : Shut coder place inner) :
    ∃ after, shutdown coder ios now ⟨inner,[]⟩ = (none,⟨after,[]⟩) ∧ Shut coder place after ∧
      after.content coder = inner.content coder := by
  obtain ⟨after,again,still,content⟩ := shutdown_unlisted faithful ten shut.placed shut.unlisted shut.lastFilled
    shut.noState
  refine ⟨after,?_,still,content⟩
  simp [shutdown,moveExpired_empty,again]

theorem destroyed_shut {coder : BiCoder α} (faithful : coder.Faithful) {place : Place} {now : Nat} (ten : TenDigits now)
    {inner : PersistedQueue α} (shut : Shut coder place inner) :
    storedItems coder place (destroyed coder now ⟨inner,[]⟩) = some (inner.content coder) := by
  obtain ⟨after,again,still,content⟩ := shutdown_unlisted faithful ten shut.placed shut.unlisted shut.lastFilled
    shut.noState
  have closed : destroyed coder now ⟨inner,[]⟩ = after.files := by simp [destroyed,moveExpired_empty,again]
  rw [closed,still.stored,content]

end SafeDelayedQueue

inductive Visit (α : Type) where
  | push (ios : Nat → Io) (p : α) (seconds2delay time now : Nat)
  | pop (ios : Nat → Io) (now : Nat)
  | empty (ios : Nat → Io) (now : Nat)
  | shutdown (ios : Nat → Io) (now : Nat)

structure Ledgered (α : Type) where
  queue : SafeDelayedQueue α
  accepted : List α
  popped : List α

def ledgering (coder : BiCoder α) : Machine (Ledgered α) (Visit α) (Option QueueError) where
  step s
    | .push ios p seconds2delay time now =>
      let done := s.queue.push coder ios p seconds2delay time now
      (done.1,{s with queue := done.2,accepted := if done.1 = none then s.accepted ++ [p] else s.accepted})
    | .pop ios now =>
      match s.queue.pop coder ios now with
      | (.error e,after) => (some e,{s with queue := after})
      | (.ok item,after) => (none,{s with queue := after,popped := s.popped ++ item.toList})
    | .empty ios now => ((s.queue.moveExpired coder ios false now).1,{s with queue := s.queue.emptied coder ios now})
    | .shutdown ios now =>
      let done := s.queue.shutdown coder ios now
      (done.1,{s with queue := done.2})

-- What a push has to do: where it returns one item more is held, where it
-- throws none is, and it always throws after the shutdown.
def TellsTruth (coder : BiCoder α) (s : Ledgered α) : Visit α → Prop
  | .push ios p seconds2delay time now =>
    ((s.queue.push coder ios p seconds2delay time now).1 = none →
      ((s.queue.push coder ios p seconds2delay time now).2.items coder).Perm (p :: s.queue.items coder)) ∧
    ((s.queue.push coder ios p seconds2delay time now).1 ≠ none →
      ((s.queue.push coder ios p seconds2delay time now).2.items coder).Perm (s.queue.items coder)) ∧
    (s.queue.persistedQ.shutDown = true → (s.queue.push coder ios p seconds2delay time now).1 ≠ none)
  | _ => True

def Filing (coder : BiCoder α) (s : Ledgered α) : Visit α → Prop
  | .push ios p seconds2delay time now =>
    if seconds2delay = 0 then FilesFresh (ios 0) s.queue.persistedQ
    else s.queue.MovesFresh coder ios false now (pushAt (time + seconds2delay) p s.queue.delayedMap)
  | .pop ios now => TenDigits now ∧ s.queue.MovesFresh coder ios false now s.queue.delayedMap
  | .empty ios now => s.queue.MovesFresh coder ios false now s.queue.delayedMap
  | .shutdown ios now => TenDigits now ∧ s.queue.MovesFresh coder ios true now s.queue.delayedMap

-- A push with a delay comes before the shutdown and no page write of its move
-- fails. A shutdown whose move goes through leaves no page file between the
-- pages in memory, as the destructor's shutdown would not list it again.
def Heard (coder : BiCoder α) (s : Ledgered α) : Visit α → Prop
  | .push ios p seconds2delay time now => seconds2delay = 0 ∨ s.queue.persistedQ.shutDown = false ∧
      s.queue.MovesThrough coder ios false now (pushAt (time + seconds2delay) p s.queue.delayedMap)
  | .shutdown ios now => s.queue.MovesThrough coder ios true now s.queue.delayedMap → s.queue.InMemory coder ios now
  | _ => True

instance (coder : BiCoder α) (s : Ledgered α) (visit : Visit α) : Decidable (Filing coder s visit) := by
  cases visit <;> unfold Filing <;> infer_instance

instance (coder : BiCoder α) (s : Ledgered α) (visit : Visit α) : Decidable (Heard coder s visit) := by
  cases visit <;> unfold Heard <;> infer_instance

structure Booked (coder : BiCoder α) (place : Place) (s : Ledgered α) : Prop where
  ledger : s.accepted.Perm (s.popped ++ s.queue.items coder)
  stores : ∀ now, TenDigits now → s.queue.Closing coder now →
    ∃ stored, storedItems coder place (s.queue.destroyed coder now) = some stored ∧ stored.Perm (s.queue.items coder)

structure Proper (coder : BiCoder α) (place : Place) (s : Ledgered α) : Prop where
  standing : s.queue.Standing coder place
  ledger : s.accepted.Perm (s.popped ++ s.queue.items coder)

theorem Proper.booked {coder : BiCoder α} (faithful : coder.Faithful) {place : Place} {s : Ledgered α}
    (proper : Proper coder place s) : Booked coder place s := by
  refine ⟨proper.ledger,?_⟩
  intro now ten closing
  obtain ⟨⟨⟨inner,m⟩,accepted,popped⟩,standing,_⟩ := s,proper
  rcases standing with live | ⟨shut,none⟩
  · exact SafeDelayedQueue.destroyed_live faithful ten live closing
  · have drained : m = [] := none
    subst drained
    refine ⟨_,SafeDelayedQueue.destroyed_shut faithful ten shut,?_⟩
    simp [SafeDelayedQueue.items]

theorem push_tells {coder : BiCoder α} (faithful : coder.Faithful) {place : Place} {s : Ledgered α}
    (standing : s.queue.Standing coder place) {ios : Nat → Io} {p : α} {seconds2delay time now : Nat}
    (filing : Filing coder s (.push ios p seconds2delay time now)) :
    TellsTruth coder s (.push ios p seconds2delay time now) ↔ Heard coder s (.push ios p seconds2delay time now) := by
  have longer : ∀ {l : List α} {held : List α}, l.Perm (p :: held) → ¬ l.Perm held := by
    intro l held more same
    have lengths := more.length_eq.symm.trans same.length_eq
    simp at lengths
  by_cases immediate : seconds2delay = 0
  · subst immediate
    refine iff_of_true ?_ (.inl rfl)
    rcases standing with live | ⟨shut,_⟩
    · obtain ⟨_,returned,threw⟩ := SafeDelayedQueue.push_now faithful p time now live filing
      refine ⟨returned,threw,?_⟩
      intro down
      rw [live.stored.live] at down
      cases down
    · have threw := SafeDelayedQueue.push_shut coder ios p time now shut.down s.queue.delayedMap
      simp [TellsTruth,threw]
  · simp only [Filing,if_neg immediate] at filing
    simp only [Heard,immediate,false_or]
    rcases standing with live | ⟨shut,_⟩
    · obtain ⟨_,more,goes⟩ := SafeDelayedQueue.push_later faithful p immediate time now live filing
      rw [← goes]
      constructor
      · rintro ⟨_,threw,_⟩
        refine ⟨live.stored.live,?_⟩
        by_contra thrown
        exact longer more (threw thrown)
      · rintro ⟨_,none⟩
        refine ⟨fun _ => more,fun thrown => absurd none thrown,?_⟩
        intro down
        rw [live.stored.live] at down
        cases down
    · have more := SafeDelayedQueue.push_down coder ios p immediate time now shut.down
      refine iff_of_false ?_ ?_
      · rintro ⟨_,threw,always⟩
        exact longer more (threw (always shut.down))
      · rintro ⟨running,_⟩
        rw [shut.down] at running
        cases running

theorem standing_push {coder : BiCoder α} (faithful : coder.Faithful) {place : Place} {s : Ledgered α}
    (standing : s.queue.Standing coder place) {ios : Nat → Io} {p : α} {seconds2delay time now : Nat}
    (filing : Filing coder s (.push ios p seconds2delay time now))
    (heard : Heard coder s (.push ios p seconds2delay time now)) :
    (s.queue.push coder ios p seconds2delay time now).2.Standing coder place := by
  by_cases immediate : seconds2delay = 0
  · subst immediate
    rcases standing with live | ⟨shut,none⟩
    · exact .inl (SafeDelayedQueue.push_now faithful p time now live filing).1
    · rw [SafeDelayedQueue.push_shut coder ios p time now shut.down s.queue.delayedMap]
      exact .inr ⟨shut,none⟩
  · simp only [Filing,if_neg immediate] at filing
    obtain ⟨running,_⟩ := heard.resolve_left immediate
    rcases standing with live | ⟨shut,_⟩
    · exact .inl (SafeDelayedQueue.push_later faithful p immediate time now live filing).1
    · rw [shut.down] at running
      cases running

theorem proper_push {coder : BiCoder α} (faithful : coder.Faithful) {place : Place} {s : Ledgered α}
    (proper : Proper coder place s) {ios : Nat → Io} {p : α} {seconds2delay time now : Nat}
    (filing : Filing coder s (.push ios p seconds2delay time now))
    (heard : Heard coder s (.push ios p seconds2delay time now)) :
    Proper coder place ((ledgering coder).step s (.push ios p seconds2delay time now)).2 := by
  obtain ⟨returned,threw,_⟩ := (push_tells faithful proper.standing filing).mpr heard
  refine ⟨standing_push faithful proper.standing filing heard,?_⟩
  simp only [ledgering]
  split
  · next none =>
    have more := (returned none).append_left s.popped
    have filed : (s.accepted ++ [p]).Perm (p :: (s.popped ++ s.queue.items coder)) :=
      (List.perm_append_singleton p s.accepted).trans (proper.ledger.cons p)
    exact filed.trans (List.perm_middle.symm.trans more.symm)
  · next thrown => exact proper.ledger.trans ((threw thrown).append_left s.popped).symm

theorem proper_pop {coder : BiCoder α} (faithful : coder.Faithful) {place : Place} {s : Ledgered α}
    (proper : Proper coder place s) {ios : Nat → Io} {now : Nat} (filing : Filing coder s (.pop ios now)) :
    Proper coder place ((ledgering coder).step s (.pop ios now)).2 := by
  obtain ⟨⟨⟨inner,m⟩,accepted,popped⟩,standing,ledger⟩ := s,proper
  rcases standing with live | ⟨shut,none⟩
  · obtain ⟨next,moved⟩ := SafeDelayedQueue.pop_live faithful filing.1 live filing.2
    simp only [ledgering]
    revert next moved
    generalize SafeDelayedQueue.pop coder ios now ⟨inner,m⟩ = result
    intro next moved
    obtain ⟨reply,after⟩ := result
    cases reply with
    | error e => exact ⟨.inl next,ledger.trans (moved.append_left popped).symm⟩
    | ok item =>
      refine ⟨.inl next,ledger.trans ?_⟩
      simp only [List.append_assoc]
      exact (moved.append_left popped).symm
  · have drained : m = [] := none
    subst drained
    simp only [ledgering,SafeDelayedQueue.pop_shut coder ios now shut.down]
    exact ⟨.inr ⟨shut,rfl⟩,ledger⟩

theorem proper_empty {coder : BiCoder α} (faithful : coder.Faithful) {place : Place} {s : Ledgered α}
    (proper : Proper coder place s) {ios : Nat → Io} {now : Nat} (filing : Filing coder s (.empty ios now)) :
    Proper coder place ((ledgering coder).step s (.empty ios now)).2 := by
  obtain ⟨⟨⟨inner,m⟩,accepted,popped⟩,standing,ledger⟩ := s,proper
  rcases standing with live | ⟨shut,none⟩
  · obtain ⟨next,moved,_⟩ := SafeDelayedQueue.moveExpired_moved faithful live filing
    exact ⟨.inl next,ledger.trans (moved.append_left popped).symm⟩
  · have drained : m = [] := none
    subst drained
    simp only [ledgering,SafeDelayedQueue.emptied,SafeDelayedQueue.moveExpired_empty]
    exact ⟨.inr ⟨shut,rfl⟩,ledger⟩

theorem proper_shutdown {coder : BiCoder α} (faithful : coder.Faithful) {place : Place} {s : Ledgered α}
    (proper : Proper coder place s) {ios : Nat → Io} {now : Nat} (filing : Filing coder s (.shutdown ios now))
    (heard : Heard coder s (.shutdown ios now)) : Proper coder place ((ledgering coder).step s (.shutdown ios now)).2 := by
  obtain ⟨⟨⟨inner,m⟩,accepted,popped⟩,standing,ledger⟩ := s,proper
  rcases standing with live | ⟨shut,none⟩
  · obtain ⟨next,moved⟩ := SafeDelayedQueue.shutdown_live faithful filing.1 live filing.2 heard
    exact ⟨next,ledger.trans (moved.append_left popped).symm⟩
  · have drained : m = [] := none
    subst drained
    obtain ⟨after,again,still,content⟩ := SafeDelayedQueue.shutdown_shut faithful ios filing.1 shut
    simp only [ledgering,again]
    refine ⟨.inr ⟨still,rfl⟩,?_⟩
    rw [SafeDelayedQueue.items_shared [] content]
    exact ledger

theorem proper_step {coder : BiCoder α} (faithful : coder.Faithful) {place : Place} {s : Ledgered α} {visit : Visit α}
    (proper : Proper coder place s) (admitted : Filing coder s visit ∧ Heard coder s visit) :
    Proper coder place ((ledgering coder).step s visit).2 := by
  cases visit with
  | push ios p seconds2delay time now => exact proper_push faithful proper admitted.1 admitted.2
  | pop ios now => exact proper_pop faithful proper admitted.1
  | empty ios now => exact proper_empty faithful proper admitted.1
  | shutdown ios now => exact proper_shutdown faithful proper admitted.1 admitted.2

theorem tells_step {coder : BiCoder α} (faithful : coder.Faithful) {place : Place} {s : Ledgered α} {visit : Visit α}
    (proper : Proper coder place s) (admitted : Filing coder s visit ∧ Heard coder s visit) : TellsTruth coder s visit := by
  cases visit with
  | push ios p seconds2delay time now => exact (push_tells faithful proper.standing admitted.1).mpr admitted.2
  | pop => trivial
  | empty => trivial
  | shutdown => trivial

theorem push_tells_truth {coder : BiCoder α} (faithful : coder.Faithful) {place : Place} {q : PersistedQueue α}
    (live : Live coder place q) {visits : List (Visit α)}
    (filing : (ledgering coder).Admits (Filing coder) ⟨⟨q,[]⟩,q.content coder,[]⟩ visits)
    (heard : (ledgering coder).Admits (Heard coder) ⟨⟨q,[]⟩,q.content coder,[]⟩ visits) :
    (ledgering coder).Admits (TellsTruth coder) ⟨⟨q,[]⟩,q.content coder,[]⟩ visits ∧
      Booked coder place ((ledgering coder).run ⟨⟨q,[]⟩,q.content coder,[]⟩ visits).2 ∧
      ∀ ios p seconds2delay time now,
        Filing coder ((ledgering coder).run ⟨⟨q,[]⟩,q.content coder,[]⟩ visits).2 (.push ios p seconds2delay time now) →
        (TellsTruth coder ((ledgering coder).run ⟨⟨q,[]⟩,q.content coder,[]⟩ visits).2 (.push ios p seconds2delay time now) ↔
          Heard coder ((ledgering coder).run ⟨⟨q,[]⟩,q.content coder,[]⟩ visits).2 (.push ios p seconds2delay time now)) := by
  have start : Proper coder place ⟨⟨q,[]⟩,q.content coder,[]⟩ := by
    refine ⟨.inl live,?_⟩
    simp [SafeDelayedQueue.items]
  have admitted := admits_and.mpr ⟨filing,heard⟩
  have kept : ∀ s visit, Proper coder place s → Filing coder s visit ∧ Heard coder s visit →
      Proper coder place ((ledgering coder).step s visit).2 := fun _ _ proper => proper_step faithful proper
  have reached := run_preserves kept start admitted
  refine ⟨admits_each kept (fun _ _ proper => tells_step faithful proper) start admitted,reached.booked faithful,?_⟩
  exact fun ios p seconds2delay time now => push_tells faithful reached.standing

theorem opened_live (coder : BiCoder α) {place : Place} {files : FileSystem} (vacant : Vacant place files)
    (io : Io) (maxItemsPerPage : Nat) :
    ∃ q, construct io coder place maxItemsPerPage files = (.ok (),q) ∧ Live coder place q :=
  ⟨_,construct_vacant coder vacant io maxItemsPerPage,opened_stored coder vacant maxItemsPerPage,rfl⟩

theorem push_tells_truth_paged :
    ∃ s, ((ledgering flagCoder).run ⟨⟨opened tmpPlace 1 ∅,[]⟩,(opened tmpPlace 1 ∅).content flagCoder,[]⟩
        [.push (fun _ => .healthy 1500000000) true 5 1500000000 1500000000,
          .push (fun _ => .healthy 1500000000) false 5 1500000000 1500000000,
          .push (fun _ => .healthy 1500000000) true 5 1500000000 1500000000,
          .push (fun _ => .healthy 1500000010) false 9 1500000010 1500000010]).2 = s ∧
      s.queue.persistedQ.persistedFileNames.length = 1 ∧ s.queue.items flagCoder = [true,false,true,false] ∧
      Booked flagCoder tmpPlace s := by
  have live : Live flagCoder tmpPlace (opened tmpPlace 1 ∅) := ⟨opened_stored flagCoder (vacant_empty tmpPlace) 1,rfl⟩
  obtain ⟨_,booked,_⟩ := @push_tells_truth Bool flagCoder flagCoder_faithful tmpPlace _ live
    [.push (fun _ => .healthy 1500000000) true 5 1500000000 1500000000,
      .push (fun _ => .healthy 1500000000) false 5 1500000000 1500000000,
      .push (fun _ => .healthy 1500000000) true 5 1500000000 1500000000,
      .push (fun _ => .healthy 1500000010) false 9 1500000010 1500000010]
    (by decide +kernel) (by decide +kernel)
  exact ⟨_,rfl,by decide +kernel,by decide +kernel,booked⟩

-- After shutdown() a push with a delay returns, and its item is gone with the
-- object. Before it, one whose move cannot write a page throws and keeps its item.
theorem delayed_push_untrue :
    (∃ s, ((ledgering flagCoder).run ⟨⟨opened tmpPlace 2 ∅,[]⟩,[],[]⟩
        [.push (fun _ => .healthy 1500000000) true 0 1500000000 1500000000,
          .shutdown (fun _ => .healthy 1500000001) 1500000001]).2 = s ∧ s.queue.persistedQ.shutDown = true ∧
      (s.queue.push flagCoder (fun _ => .healthy 1500000002) false 5 1500000002 1500000002).1 = none ∧
      storedItems flagCoder tmpPlace ((s.queue.push flagCoder (fun _ => .healthy 1500000002) false 5 1500000002
        1500000002).2.destroyed flagCoder 1500000003) = some [true]) ∧
    ∃ s, ((ledgering flagCoder).run ⟨⟨opened tmpPlace 1 ∅,[]⟩,[],[]⟩
        [.push (fun _ => .healthy 1500000000) true 5 1500000000 1500000000,
          .push (fun _ => .healthy 1500000000) true 5 1500000000 1500000000,
          .push (fun _ => .healthy 1500000000) true 5 1500000000 1500000000]).2 = s ∧
      (s.queue.push flagCoder (fun _ => ⟨1500000010,fun _ => false,[]⟩) false 5 1500000010 1500000010).1 ≠ none ∧
      s.queue.items flagCoder = [true,true,true] ∧
      (s.queue.push flagCoder (fun _ => ⟨1500000010,fun _ => false,[]⟩) false 5 1500000010 1500000010).2.items
        flagCoder = [true,true,true,false] := by
  refine ⟨⟨_,rfl,rfl,rfl,?_⟩,_,rfl,?_⟩
  · decide +kernel
  · decide +kernel

end Kisscpp
