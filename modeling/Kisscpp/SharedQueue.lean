import Kisscpp.QueueSizes

namespace Kisscpp
open TextLines Stepping PersistedQueue

variable {α τ : Type}

-- The methods that take the lock of the object; shutdown takes none.
inductive SafeCall (α : Type) where
  | push (p : α)
  | pop
  | front
  | empty
  | size

inductive SafeReply (α : Type) where
  | reply (r : Reply α)
  | empty (b : Bool)
  | size (n : Nat)
  deriving DecidableEq

structure Turn (τ α : Type) where
  thread : τ
  now : Nat
  call : SafeCall α

namespace ThreadsafePersistedQueue

def call (io : Io) (coder : BiCoder α) (persistedQ : PersistedQueue α) : SafeCall α → SafeReply α × PersistedQueue α
  | .push p => (persistedQ.call io coder (.pushBack p)).map .reply id
  | .pop => (persistedQ.call io coder .popFront).map .reply id
  | .front => (persistedQ.call io coder .front).map .reply id
  | .empty => (.empty persistedQ.empty,persistedQ)
  | .size => (.size persistedQ.size,persistedQ)

end ThreadsafePersistedQueue

def threads (coder : BiCoder α) : Machine (Session α) (Turn τ α) (SafeReply α) where
  step s t :=
    let called := ThreadsafePersistedQueue.call (.healthy t.now) coder s.queue t.call
    (called.1,⟨t.now,called.2⟩)

def SafeCall.pushes : SafeCall α → Option α
  | .push p => some p
  | _ => none

def SafeCall.takes : SafeCall α → SafeReply α → Option α
  | .pop,.reply (.item found) => found
  | _,_ => none

def pushed (turns : List (Turn τ α)) : List α := turns.filterMap fun t => t.call.pushes

def popped (turns : List (Turn τ α)) (answers : List (SafeReply α)) : List α :=
  (turns.zip answers).filterMap fun e => e.1.call.takes e.2

def poppedBy [DecidableEq τ] (thread : τ) (turns : List (Turn τ α)) (answers : List (SafeReply α)) : List α :=
  ((turns.zip answers).filter fun e => e.1.thread = thread).filterMap fun e => e.1.call.takes e.2

def told (content : List α) : SafeCall α → SafeReply α
  | .push _ => .reply .done
  | .pop => .reply (.item content.head?)
  | .front => .reply (.item content.head?)
  | .empty => .empty content.isEmpty
  | .size => .size content.length

def stored (content : List α) : SafeCall α → List α
  | .push p => content ++ [p]
  | .pop => content.tail
  | _ => content

def heldList : Machine (List α) (SafeCall α) (SafeReply α) where
  step content c := (told content c,stored content c)

theorem pushed_cons (t : Turn τ α) (rest : List (Turn τ α)) : pushed (t :: rest) = t.call.pushes.toList ++ pushed rest := by
  unfold pushed
  cases found : t.call.pushes <;> simp [found]

theorem popped_cons (t : Turn τ α) (rest : List (Turn τ α)) (answer : SafeReply α) (answers : List (SafeReply α)) :
    popped (t :: rest) (answer :: answers) = (t.call.takes answer).toList ++ popped rest answers := by
  unfold popped
  cases found : t.call.takes answer <;> simp [found]

theorem stored_balance (content : List α) (c : SafeCall α) :
    (c.takes (told content c)).toList ++ stored content c = content ++ c.pushes.toList := by
  cases c with
  | pop => cases content <;> simp [told,SafeCall.takes,SafeCall.pushes,stored]
  | push p => rfl
  | front => simp [SafeCall.takes,SafeCall.pushes,stored]
  | empty => simp [SafeCall.takes,SafeCall.pushes,stored]
  | size => simp [SafeCall.takes,SafeCall.pushes,stored]

theorem heldList_balance (content : List α) (turns : List (Turn τ α)) :
    let run := heldList.run content (turns.map Turn.call)
    popped turns run.1 ++ run.2 = content ++ pushed turns := by
  induction turns generalizing content with
  | nil => simp [popped,pushed]
  | cons t rest ih =>
    have later := ih (stored content t.call)
    have now := stored_balance content t.call
    simp only [List.map_cons,run_cons,popped_cons,pushed_cons] at later ⊢
    change (t.call.takes (told content t.call)).toList ++ popped rest (heldList.run (stored content t.call) _).1 ++
      (heldList.run (stored content t.call) _).2 = _
    rw [List.append_assoc,later,← List.append_assoc,now,List.append_assoc]

theorem poppedBy_sublist [DecidableEq τ] (thread : τ) (turns : List (Turn τ α)) (answers : List (SafeReply α)) :
    (poppedBy thread turns answers).Sublist (popped turns answers) :=
  List.filter_sublist.filterMap _

structure Unlisted (s : Session α) (t : Turn τ α) : Prop where
  ten : TenDigits t.now
  fresh : ∀ p ∈ t.call.pushes, s.queue.Saves (.pushBack p) → s.queue.Fresh t.now

instance (s : Session α) (t : Turn τ α) : Decidable (Unlisted s t) :=
  decidable_of_iff (TenDigits t.now ∧ ∀ p ∈ t.call.pushes, s.queue.Saves (.pushBack p) → s.queue.Fresh t.now)
    ⟨fun both => ⟨both.1,both.2⟩,fun unlisted => ⟨unlisted.ten,unlisted.fresh⟩⟩

theorem safe_called (op : Op α) {coder : BiCoder α} (faithful : coder.Faithful) {now : Nat} {q : PersistedQueue α}
    (sized : Sized coder q) (ten : TenDigits now) (fresh : q.Saves op → q.Fresh now) :
    let called := q.call (.healthy now) coder op
    Sized coder called.2 ∧ (called.1,called.2.content coder) = applied (q.content coder) op :=
  sized.called ten fresh (call_called faithful ten sized.paged.live op)

theorem threads_step {coder : BiCoder α} (faithful : coder.Faithful) {s : Session α} {t : Turn τ α}
    (sized : Sized coder s.queue) (unlisted : Unlisted s t) :
    let stepped := (threads coder).step s t
    Sized coder stepped.2.queue ∧ stepped.1 = told (s.queue.content coder) t.call ∧
      stepped.2.queue.content coder = stored (s.queue.content coder) t.call := by
  obtain ⟨thread,now,c⟩ := t
  cases c with
  | push p =>
    obtain ⟨kept,answered⟩ := safe_called (.pushBack p) faithful sized unlisted.ten (unlisted.fresh p rfl)
    exact ⟨kept,congrArg SafeReply.reply (congrArg Prod.fst answered),congrArg Prod.snd answered⟩
  | pop =>
    obtain ⟨kept,answered⟩ := safe_called (.popFront) faithful sized unlisted.ten nofun
    exact ⟨kept,congrArg SafeReply.reply (congrArg Prod.fst answered),congrArg Prod.snd answered⟩
  | front =>
    obtain ⟨kept,answered⟩ := safe_called (.front) faithful sized unlisted.ten nofun
    exact ⟨kept,congrArg SafeReply.reply (congrArg Prod.fst answered),congrArg Prod.snd answered⟩
  | empty =>
    have same : s.queue.empty = (s.queue.content coder).isEmpty := by
      rw [Bool.eq_iff_iff,empty_content sized.paged,List.isEmpty_iff]
    exact ⟨sized,congrArg SafeReply.empty same,rfl⟩
  | size => exact ⟨sized,congrArg SafeReply.size (size_content sized.paged sized.full),rfl⟩

def threadsRefinement {coder : BiCoder α} (faithful : coder.Faithful) :
    Refinement (threads (τ := τ) coder) (heldList (α := α)) Unlisted where
  invariant s := Sized coder s.queue
  state s := s.queue.content coder
  input := Turn.call
  output := id
  preserved _ _ sized unlisted := (threads_step faithful sized unlisted).1
  answered _ _ sized unlisted := (threads_step faithful sized unlisted).2.1
  followed _ _ sized unlisted := (threads_step faithful sized unlisted).2.2

-- However the threads interleave: what has been popped and what is left are
-- together what was there and what was pushed, in this order; every call is
-- told what is true at its turn; and each thread gets its share in order.
theorem threads_share [DecidableEq τ] {coder : BiCoder α} (faithful : coder.Faithful) {s : Session α}
    (sized : Sized coder s.queue) {turns : List (Turn τ α)} (admitted : (threads coder).Admits Unlisted s turns) :
    let run := (threads coder).run s turns
    popped turns run.1 ++ run.2.queue.content coder = s.queue.content coder ++ pushed turns ∧
      (∀ earlier t later, turns = earlier ++ t :: later →
        let before := (threads coder).run s earlier
        ((threads coder).step before.2 t).1 =
          told ((s.queue.content coder ++ pushed earlier).drop (popped earlier before.1).length) t.call) ∧
      ∀ thread, (poppedBy thread turns run.1).Sublist (s.queue.content coder ++ pushed turns) := by
  have balance : ∀ earlier : List (Turn τ α), (threads coder).Admits Unlisted s earlier →
      let before := (threads coder).run s earlier
      Sized coder before.2.queue ∧
        popped earlier before.1 ++ before.2.queue.content coder = s.queue.content coder ++ pushed earlier := by
    intro earlier admittedEarlier
    obtain ⟨kept,answers,reached⟩ := (threadsRefinement faithful).run sized admittedEarlier
    refine ⟨kept,?_⟩
    have held := heldList_balance (s.queue.content coder) earlier
    have answers : ((threads coder).run s earlier).1 = (heldList.run (s.queue.content coder) (earlier.map Turn.call)).1 :=
      answers.trans (List.map_id _)
    have reached : ((threads coder).run s earlier).2.queue.content coder =
      (heldList.run (s.queue.content coder) (earlier.map Turn.call)).2 := reached
    rw [answers,reached]
    exact held
  obtain ⟨_,conserved⟩ := balance turns admitted
  refine ⟨conserved,?_,?_⟩
  · rintro earlier t later rfl
    obtain ⟨admittedEarlier,unlisted,_⟩ := (admits_append ..).mp admitted
    obtain ⟨kept,stored⟩ := balance earlier admittedEarlier
    dsimp only
    rw [(threads_step faithful kept unlisted).2.1,← stored,List.drop_left]
  · intro thread
    rw [← conserved]
    exact (poppedBy_sublist thread turns _).trans (List.sublist_append_left ..)

def shareTurns : List (Turn Nat Bool) :=
  [⟨0,1500000000,.push true⟩,⟨0,1500000000,.push false⟩,⟨1,1500000000,.empty⟩,⟨0,1500000000,.push true⟩,
    ⟨2,1500000001,.pop⟩,⟨1,1500000001,.pop⟩]

theorem threads_share_pages :
    let run := (threads flagCoder).run ⟨1500000000,opened tmpPlace 1 ∅⟩ shareTurns
    popped shareTurns run.1 = [true,false] ∧ [true,false] ++ run.2.queue.content flagCoder = [true,false,true] := by
  have single : 0 < 1 := Nat.one_pos
  have taken : popped shareTurns ((threads flagCoder).run ⟨1500000000,opened tmpPlace 1 ∅⟩ shareTurns).1 =
    [true,false] := by decide +kernel
  have admitted : (threads flagCoder).Admits Unlisted ⟨1500000000,opened tmpPlace 1 ∅⟩ shareTurns := by decide +kernel
  have shared := threads_share flagCoder_faithful (opened_sized flagCoder (vacant_empty tmpPlace) single) admitted
  exact ⟨taken,taken ▸ shared.1⟩

end Kisscpp
