import Kisscpp.KeyedLists
import Kisscpp.QueuePushFailures
import Kisscpp.QueueShutdownTwice

namespace Kisscpp
open TextLines DecimalText Stepping KeyedLists PersistedQueue

variable {α : Type}

-- The delayed queue over the queue as it is, whose calls can throw.
structure SafeDelayedQueue (α : Type) where
  persistedQ : PersistedQueue α
  delayedMap : List (Nat × List α) := []

structure Moving (α : Type) where
  thrown : Option QueueError
  pushes : Nat
  left : List α
  persistedQ : PersistedQueue α

namespace SafeDelayedQueue

-- The while loop over one list. What the system does is given push by push.
def moveList (coder : BiCoder α) (ios : Nat → Io) : Nat → List α → PersistedQueue α → Moving α
  | pushes,[],persistedQ => ⟨none,pushes,[],persistedQ⟩
  | pushes,front :: rest,persistedQ =>
    match persistedQ.pushBack (ios pushes) coder front with
    | (.error e,after) => ⟨some e,pushes + 1,front :: rest,after⟩
    | (.ok (),after) => moveList coder ios (pushes + 1) rest after

-- The loop over the keys; it ends with the first throw.
def moveKeys (coder : BiCoder α) (ios : Nat → Io) (forceMove : Bool) (now : Nat) :
    Nat → List (Nat × List α) → PersistedQueue α → Option QueueError × SafeDelayedQueue α
  | _,[],persistedQ => (none,⟨persistedQ,[]⟩)
  | pushes,(key,items) :: rest,persistedQ =>
    if forceMove || key < now then
      match moveList coder ios pushes items persistedQ with
      | ⟨some e,_,left,after⟩ => (some e,⟨after,(key,left) :: rest⟩)
      | ⟨none,pushes,_,after⟩ => moveKeys coder ios forceMove now pushes rest after
    else
      let later := moveKeys coder ios forceMove now pushes rest persistedQ
      (later.1,⟨later.2.persistedQ,(key,items) :: later.2.delayedMap⟩)

def moveExpired (coder : BiCoder α) (ios : Nat → Io) (forceMove : Bool) (now : Nat) (q : SafeDelayedQueue α) :
    Option QueueError × SafeDelayedQueue α :=
  if forceMove || q.persistedQ.empty then moveKeys coder ios forceMove now 0 q.delayedMap q.persistedQ else (none,q)

-- The clock is read for the release time and again in moveExpired.
def push (coder : BiCoder α) (ios : Nat → Io) (p : α) (seconds2delay time now : Nat) (q : SafeDelayedQueue α) :
    Option QueueError × SafeDelayedQueue α :=
  if seconds2delay = 0 then
    match q.persistedQ.pushBack (ios 0) coder p with
    | (.error e,after) => (some e,{q with persistedQ := after})
    | (.ok (),after) => moveExpired coder (fun pushes => ios (pushes + 1)) false now {q with persistedQ := after}
  else moveExpired coder ios false now {q with delayedMap := pushAt (time + seconds2delay) p q.delayedMap}

def shutdown (coder : BiCoder α) (ios : Nat → Io) (now : Nat) (q : SafeDelayedQueue α) :
    Option QueueError × SafeDelayedQueue α :=
  match moveExpired coder ios true now q with
  | (some e,after) => (some e,after)
  | (none,after) =>
    match after.persistedQ.shutdown (.healthy now) coder with
    | (.error e,closed) => (some e,{after with persistedQ := closed})
    | (.ok (),closed) => (none,{after with persistedQ := closed})

def pop (coder : BiCoder α) (ios : Nat → Io) (now : Nat) (q : SafeDelayedQueue α) :
    Except QueueError (Option α) × SafeDelayedQueue α :=
  match moveExpired coder ios false now q with
  | (some e,after) => (.error e,after)
  | (none,after) =>
    ((after.persistedQ.popFront (.healthy now) coder).1,
      {after with persistedQ := (after.persistedQ.popFront (.healthy now) coder).2})

def emptied (coder : BiCoder α) (ios : Nat → Io) (now : Nat) (q : SafeDelayedQueue α) : SafeDelayedQueue α :=
  (moveExpired coder ios false now q).2

-- Where the destructor's move throws, the program ends there and the inner
-- queue is not closed.
def destroyed (coder : BiCoder α) (now : Nat) (q : SafeDelayedQueue α) : FileSystem :=
  match moveExpired coder (fun _ => .healthy now) true now q with
  | (some _,after) => after.persistedQ.files
  | (none,after) => (after.persistedQ.shutdown (.healthy now) coder).2.files

def items (coder : BiCoder α) (q : SafeDelayedQueue α) : List α := q.persistedQ.content coder ++ held q.delayedMap

end SafeDelayedQueue

def EachPush (fact : Io → PersistedQueue α → Prop) (coder : BiCoder α) (ios : Nat → Io) :
    Nat → List α → PersistedQueue α → Prop
  | _,[],_ => True
  | pushes,front :: rest,q => fact (ios pushes) q ∧
      ((q.pushBack (ios pushes) coder front).1 = .ok () →
        EachPush fact coder ios (pushes + 1) rest (q.pushBack (ios pushes) coder front).2)

instance eachPushDecidable (fact : Io → PersistedQueue α → Prop) [∀ io q, Decidable (fact io q)] (coder : BiCoder α)
    (ios : Nat → Io) : (pushes : Nat) → (l : List α) → (q : PersistedQueue α) →
      Decidable (EachPush fact coder ios pushes l q)
  | _,[],_ => isTrue trivial
  | pushes,front :: rest,q =>
    match ran : (q.pushBack (ios pushes) coder front).1 with
    | .ok () =>
      have := eachPushDecidable fact coder ios (pushes + 1) rest (q.pushBack (ios pushes) coder front).2
      decidable_of_iff (fact (ios pushes) q ∧
          EachPush fact coder ios (pushes + 1) rest (q.pushBack (ios pushes) coder front).2)
        ⟨fun both => ⟨both.1,fun _ => both.2⟩,fun each => ⟨each.1,each.2 ran⟩⟩
    | .error e =>
      decidable_of_iff (fact (ios pushes) q)
        ⟨fun here => ⟨here,fun answered => (by rw [ran] at answered; cases answered)⟩,fun each => each.1⟩

-- A push that files a page finds its file writable; it does so at a second of
-- ten digits and under a name that is not on the list.
def Opens (io : Io) (q : PersistedQueue α) : Prop :=
  q.Spills → io.opens (q.place.pagePath (q.nextSeq io.now).text) = true

def FilesFresh (io : Io) (q : PersistedQueue α) : Prop := TenDigits io.now ∧ (q.Spills → q.Fresh io.now)

instance (io : Io) (q : PersistedQueue α) : Decidable (Opens io q) := inferInstanceAs (Decidable (_ → _))
instance (io : Io) (q : PersistedQueue α) : Decidable (FilesFresh io q) := inferInstanceAs (Decidable (_ ∧ (_ → _)))

theorem BiCoder.Faithful.honest {coder : BiCoder α} (faithful : coder.Faithful) : coder.Honest := by
  constructor
  intro x row encoded
  obtain ⟨text,same,back,line,noNul⟩ := faithful.roundTrip x
  rw [encoded] at same
  cases same
  exact ⟨back,line,noNul⟩

structure Live (coder : BiCoder α) (place : Place) (q : PersistedQueue α) : Prop where
  stored : q.Stored coder
  placed : q.place = place

inductive PushedTo (coder : BiCoder α) (place : Place) (io : Io) (p : α) (q : PersistedQueue α) :
    Except QueueError Unit × PersistedQueue α → Prop where
  | answered {after : PersistedQueue α} (opens : Opens io q) (live : Live coder place after)
      (content : after.content coder = q.content coder ++ [p]) : PushedTo coder place io p q (.ok (),after)
  | threw {e : QueueError} {after : PersistedQueue α} (closed : ¬ Opens io q) (live : Live coder place after)
      (content : after.content coder = q.content coder) : PushedTo coder place io p q (.error e,after)

theorem pushBack_opens {coder : BiCoder α} {io : Io} {p : α} {q after : PersistedQueue α} (live : q.shutDown = false)
    (answered : q.pushBack io coder p = (.ok (),after)) : Opens io q := by
  intro spills
  by_contra closed
  have failed : (q.numbered io.now).persistToFile io coder (q.nextSeq io.now).text q.pages.last =
      (.error (.couldNotWriteQueueFile (q.place.pagePath (q.nextSeq io.now).text) io.strerror),q.numbered io.now) :=
    if_neg closed
  rw [pushBack_unfiled live spills failed] at answered
  cases answered

theorem pushBack_pushedTo {coder : BiCoder α} (faithful : coder.Faithful) {place : Place} {io : Io} (p : α)
    {q : PersistedQueue α} (live : Live coder place q) (files : FilesFresh io q) :
    PushedTo coder place io p q (q.pushBack io coder p) := by
  have running := live.stored.live
  cases ran : q.pushBack io coder p with
  | mk result after =>
    cases result with
    | ok =>
      have pushed := pushBack_answered faithful.honest files.1 running ran
      have stays : after.place = q.place := by cases pushed <;> rfl
      exact .answered (pushBack_opens running ran)
        ⟨stored_pushed live.stored files.1 files.2 pushed,stays.trans live.placed⟩
        (content_pushed live.stored.paged files.2 pushed)
    | error e =>
      cases pushBack_threw ran with
      | down shut =>
        rw [running] at shut
        cases shut
      | refused _ _ _ refuses =>
        rw [(faithful.page q.pages.last).1] at refuses
        cases refuses
      | closed _ spills unopened =>
        have stored : (q.numbered io.now).Stored coder :=
          ⟨live.stored.live,live.stored.alone,live.stored.lastFilled,live.stored.distinct,live.stored.filled,
            live.stored.named,live.stored.listed,live.stored.noState⟩
        refine .threw ?_ ⟨stored,live.placed⟩ rfl
        intro opens
        rw [opens spills] at unopened
        cases unopened

namespace SafeDelayedQueue

theorem eachPush_append (fact : Io → PersistedQueue α → Prop) (coder : BiCoder α) (ios : Nat → Io) (l more : List α)
    (pushes : Nat) (q : PersistedQueue α) : EachPush fact coder ios pushes (l ++ more) q ↔
      EachPush fact coder ios pushes l q ∧ ((moveList coder ios pushes l q).thrown = none →
        EachPush fact coder ios (moveList coder ios pushes l q).pushes more (moveList coder ios pushes l q).persistedQ) := by
  induction l generalizing pushes q with
  | nil => simp [EachPush,moveList]
  | cons front rest ih =>
    cases ran : q.pushBack (ios pushes) coder front with
    | mk result after =>
      cases result with
      | error e => simp [EachPush,moveList,ran]
      | ok => simp only [List.cons_append,EachPush,moveList,ran,ih,forall_const,and_assoc]

theorem moveList_moved {coder : BiCoder α} (faithful : coder.Faithful) {place : Place} {ios : Nat → Io} {l : List α}
    {pushes : Nat} {q : PersistedQueue α} (live : Live coder place q) (files : EachPush FilesFresh coder ios pushes l q) :
    Live coder place (moveList coder ios pushes l q).persistedQ ∧
      (moveList coder ios pushes l q).persistedQ.content coder ++ (moveList coder ios pushes l q).left =
        q.content coder ++ l ∧
      ((moveList coder ios pushes l q).thrown = none → (moveList coder ios pushes l q).left = []) ∧
      ((moveList coder ios pushes l q).thrown = none ↔ EachPush Opens coder ios pushes l q) := by
  induction l generalizing pushes q with
  | nil => exact ⟨live,rfl,fun _ => rfl,iff_of_true rfl trivial⟩
  | cons front rest ih =>
    have pushed := pushBack_pushedTo faithful front live files.1
    have later := files.2
    simp only [moveList,EachPush]
    revert pushed later
    generalize q.pushBack (ios pushes) coder front = result
    intro pushed later
    cases pushed with
    | answered opens next content =>
      obtain ⟨kept,moved,drained,through⟩ := ih next (later rfl)
      refine ⟨kept,?_,drained,?_⟩
      · rw [moved,content,List.append_assoc,List.singleton_append]
      · rw [through]
        simp [opens]
    | threw closed next content =>
      refine ⟨next,by rw [content],fun none => (by cases none),?_⟩
      refine iff_of_false (fun none => (by cases none)) ?_
      exact fun each => closed each.1

def moves (forceMove : Bool) (now : Nat) (m : List (Nat × List α)) : List α :=
  held (m.filter fun e => forceMove || e.1 < now)

theorem moves_expired {forceMove : Bool} {now key : Nat} (expired : (forceMove || decide (key < now)) = true)
    (items : List α) (rest : List (Nat × List α)) :
    moves forceMove now ((key,items) :: rest) = items ++ moves forceMove now rest := by
  rw [moves,List.filter_cons_of_pos (by simpa using expired),held_cons]
  rfl

theorem moves_kept {forceMove : Bool} {now key : Nat} (kept : ¬ (forceMove || decide (key < now)) = true)
    (items : List α) (rest : List (Nat × List α)) :
    moves forceMove now ((key,items) :: rest) = moves forceMove now rest := by
  rw [moves,List.filter_cons_of_neg (by simpa using kept)]
  rfl

theorem moveKeys_moved {coder : BiCoder α} (faithful : coder.Faithful) {place : Place} {ios : Nat → Io} {forceMove : Bool}
    {now : Nat} {m : List (Nat × List α)} {pushes : Nat} {q : PersistedQueue α} (live : Live coder place q)
    (files : EachPush FilesFresh coder ios pushes (moves forceMove now m) q) :
    Live coder place (moveKeys coder ios forceMove now pushes m q).2.persistedQ ∧
      ((moveKeys coder ios forceMove now pushes m q).2.items coder).Perm (q.content coder ++ held m) ∧
      (forceMove = true → (moveKeys coder ios forceMove now pushes m q).1 = none →
        (moveKeys coder ios forceMove now pushes m q).2.delayedMap = []) ∧
      ((moveKeys coder ios forceMove now pushes m q).1 = none ↔
        EachPush Opens coder ios pushes (moves forceMove now m) q) := by
  induction m generalizing pushes q with
  | nil => exact ⟨live,.refl _,fun _ _ => rfl,iff_of_true rfl trivial⟩
  | cons e rest ih =>
    obtain ⟨key,items⟩ := e
    by_cases expired : (forceMove || decide (key < now)) = true
    · rw [moves_expired expired,eachPush_append] at files ⊢
      obtain ⟨next,moved,drained,through⟩ := moveList_moved faithful live files.1
      have later := files.2
      simp only [moveKeys,if_pos expired]
      rw [← through]
      revert next moved drained later
      generalize moveList coder ios pushes items q = moving
      intro next moved drained later
      obtain ⟨thrown,count,left,after⟩ := moving
      cases thrown with
      | some e =>
        refine ⟨next,?_,fun _ none => (by cases none),?_⟩
        · have same : after.content coder ++ left = q.content coder ++ items := moved
          simp only [SafeDelayedQueue.items,held_cons,← List.append_assoc]
          rw [same]
        · exact iff_of_false (fun none => (by cases none)) (fun both => (by cases both.1))
      | none =>
        obtain ⟨kept,permuted,cleared,goes⟩ := ih next (later rfl)
        refine ⟨kept,?_,cleared,?_⟩
        · have same : after.content coder ++ left = q.content coder ++ items := moved
          have nothing : left = [] := drained rfl
          rw [nothing,List.append_nil] at same
          rw [same,List.append_assoc] at permuted
          exact permuted
        · rw [goes]
          simp
    · rw [moves_kept expired] at files ⊢
      obtain ⟨kept,permuted,_,goes⟩ := ih live files
      simp only [moveKeys,if_neg expired]
      refine ⟨kept,?_,?_,goes⟩
      · simp only [SafeDelayedQueue.items,held_cons] at permuted ⊢
        exact (List.perm_append_comm_assoc _ items _).trans
          ((permuted.append_left items).trans (List.perm_append_comm_assoc _ items _).symm)
      · intro force
        simp [force] at expired

end SafeDelayedQueue
end Kisscpp
