import Kisscpp.Machine
import Kisscpp.QueueInvariant

namespace Kisscpp
open TextLines DecimalText Stepping PersistedQueue

variable {α : Type}

structure Session (α : Type) where
  clock : Nat
  queue : PersistedQueue α

structure Call (α : Type) where
  now : Nat
  op : Op α

def session (coder : BiCoder α) : Machine (Session α) (Call α) (Reply α) where
  step s c := ((s.queue.call (.healthy c.now) coder c.op).1,⟨c.now,(s.queue.call (.healthy c.now) coder c.op).2⟩)

def OnClock (s : Session α) (c : Call α) : Prop := s.clock ≤ c.now ∧ TenDigits c.now

instance (s : Session α) (c : Call α) : Decidable (OnClock s c) := inferInstanceAs (Decidable (_ ∧ _))

def WithinSecond (bound now : Nat) (q : PersistedQueue α) : Prop :=
  q.lastSeqNum = now → q.seqNumCount + 1 < bound

instance (bound now : Nat) (q : PersistedQueue α) : Decidable (WithinSecond bound now q) :=
  inferInstanceAs (Decidable (_ → _))

structure Bounded (bound : Nat) (s : Session α) (c : Call α) : Prop where
  onClock : OnClock s c
  within : s.queue.Saves c.op → WithinSecond bound c.now s.queue

instance (bound : Nat) (s : Session α) (c : Call α) : Decidable (Bounded bound s c) :=
  decidable_of_iff (OnClock s c ∧ (s.queue.Saves c.op → WithinSecond bound c.now s.queue))
    ⟨fun both => ⟨both.1,both.2⟩,fun bounded => ⟨bounded.onClock,bounded.within⟩⟩

namespace PersistedQueue

def Issued (bound : Nat) (q : PersistedQueue α) (name : Text) : Prop :=
  ∃ s : SeqNumber, TenDigits s.second ∧ s.counter < bound ∧ name = q.place.pagePath s.text ∧
    (s.second < q.lastSeqNum ∨ s.second = q.lastSeqNum ∧ s.counter ≤ q.seqNumCount)

structure Counted (bound : Nat) (inherited : List Text) (clock : Nat) (q : PersistedQueue α) : Prop where
  behind : q.lastSeqNum ≤ clock
  small : q.seqNumCount < bound
  own : ∀ name ∈ q.persistedFileNames, name ∈ inherited ∨ q.Issued bound name

theorem nextSeq_small {bound now : Nat} {q : PersistedQueue α} (positive : 0 < bound)
    (fits : bound ≤ counterModulus) (within : WithinSecond bound now q) : (q.nextSeq now).counter < bound := by
  unfold nextSeq
  split
  · next same =>
    have small := within same
    rw [Nat.mod_eq_of_lt (by omega)]
    exact small
  · exact positive

theorem issued_before {bound clock now : Nat} {q : PersistedQueue α} (behind : q.lastSeqNum ≤ clock)
    (fits : bound ≤ counterModulus) (forward : clock ≤ now) (within : WithinSecond bound now q) {s : SeqNumber}
    (own : s.second < q.lastSeqNum ∨ s.second = q.lastSeqNum ∧ s.counter ≤ q.seqNumCount) :
    s.Before (q.nextSeq now) := by
  unfold SeqNumber.Before nextSeq
  by_cases same : q.lastSeqNum = now
  · have small := within same
    rw [if_pos same,Nat.mod_eq_of_lt (by omega)]
    dsimp only
    omega
  · dsimp only
    omega

theorem issued_numbered {bound clock now : Nat} {q : PersistedQueue α} {name : Text}
    (behind : q.lastSeqNum ≤ clock) (fits : bound ≤ counterModulus) (forward : clock ≤ now)
    (within : WithinSecond bound now q) (issued : q.Issued bound name) {files : FileSystem}
    {names : List Text} {pages : Pages α} :
    ({q.numbered now with persistedFileNames := names,files := files,pages := pages}).Issued bound name := by
  obtain ⟨s,ten,small,rfl,own⟩ := issued
  have before := issued_before behind fits forward within own
  unfold SeqNumber.Before at before
  refine ⟨s,ten,small,rfl,?_⟩
  change s.second < now ∨ s.second = now ∧ s.counter ≤ (q.nextSeq now).counter
  have second : (q.nextSeq now).second = now := rfl
  omega

theorem Counted.refilled {bound clock : Nat} {inherited : List Text} {coder : BiCoder α}
    {q : PersistedQueue α} {result : Result α Unit} (counted : q.Counted bound inherited clock)
    (refilled : Refilled coder q result) : result.2.Counted bound inherited clock := by
  cases refilled with
  | kept => exact counted
  | joined => exact ⟨counted.behind,counted.small,counted.own⟩
  | loaded drained listed found =>
    exact ⟨counted.behind,counted.small,fun name member => counted.own name (listed ▸ List.mem_cons_of_mem _ member)⟩
  | failed e drained listed missing =>
    exact ⟨counted.behind,counted.small,fun name member => counted.own name (listed ▸ List.mem_cons_of_mem _ member)⟩

theorem Counted.later {bound clock now : Nat} {inherited : List Text} {q : PersistedQueue α}
    (counted : q.Counted bound inherited clock) (forward : clock ≤ now) : q.Counted bound inherited now :=
  ⟨Nat.le_trans counted.behind forward,counted.small,counted.own⟩

theorem Counted.called {bound clock now : Nat} {inherited : List Text} {coder : BiCoder α}
    {q after : PersistedQueue α} {op : Op α} {reply : Reply α} (counted : q.Counted bound inherited clock)
    (fits : bound ≤ counterModulus) (forward : clock ≤ now) (ten : TenDigits now)
    (within : q.Saves op → WithinSecond bound now q) (called : Called coder now q op reply after) :
    after.Counted bound inherited now := by
  cases called with
  | pushedBack pushed =>
    cases pushed with
    | room free => exact ⟨(counted.later forward).behind,counted.small,counted.own⟩
    | opened full shared => exact ⟨(counted.later forward).behind,counted.small,counted.own⟩
    | spilled spills holds =>
      have inSecond : WithinSecond bound now q := within spills
      have small := nextSeq_small (Nat.lt_of_le_of_lt (Nat.zero_le _) counted.small) fits inSecond
      refine ⟨Nat.le_refl _,small,?_⟩
      intro name member
      rcases List.mem_append.mp member with old | new
      · rcases counted.own name old with earlier | issued
        · exact .inl earlier
        · exact .inr (issued_numbered counted.behind fits forward inSecond issued)
      · exact .inr ⟨q.nextSeq now,ten,small,List.mem_singleton.mp new,.inr ⟨rfl,Nat.le_refl _⟩⟩
  | pushedFront => exact ⟨(counted.later forward).behind,counted.small,counted.own⟩
  | popped refilled =>
    have kept := (counted.refilled refilled).later forward
    exact ⟨kept.behind,kept.small,kept.own⟩
  | seen refilled => exact (counted.refilled refilled).later forward
  | popFailed refilled => exact (counted.refilled refilled).later forward
  | frontFailed refilled => exact (counted.refilled refilled).later forward

theorem Counted.fresh {bound clock now : Nat} {q : PersistedQueue α} (counted : q.Counted bound [] clock)
    (fits : bound ≤ counterModulus) (forward : clock ≤ now) (ten : TenDigits now)
    (within : WithinSecond bound now q) : q.Fresh now := by
  intro member
  rcases counted.own _ member with inherited | ⟨s,tenOld,_,equal,own⟩
  · cases inherited
  · have same := SeqNumber.text_injective (s := q.nextSeq now) ten tenOld (q.place.pagePath_injective equal)
    exact (issued_before counted.behind fits forward within own).ne same.symm

theorem called_frame {coder : BiCoder α} {now : Nat} {q after : PersistedQueue α} {op : Op α} {reply : Reply α}
    (called : Called coder now q op reply after) :
    after.place = q.place ∧ after.maxItemsPerPage = q.maxItemsPerPage := by
  cases called with
  | pushedBack pushed => cases pushed <;> exact ⟨rfl,rfl⟩
  | pushedFront => exact ⟨rfl,rfl⟩
  | popped refilled => cases refilled <;> exact ⟨rfl,rfl⟩
  | seen refilled => cases refilled <;> exact ⟨rfl,rfl⟩
  | popFailed refilled => cases refilled; exact ⟨rfl,rfl⟩
  | frontFailed refilled => cases refilled; exact ⟨rfl,rfl⟩

end PersistedQueue

structure Vacant (place : Place) (files : FileSystem) : Prop where
  noPage : ∀ path ∈ files, place.isQueueFile path = false
  noState : place.stateFilePath ∉ files

theorem vacant_empty (place : Place) : Vacant place ∅ := ⟨by simp,by simp⟩

def tmpPlace : Place := ⟨⟨['q'],List.forall_mem_singleton.mpr rfl⟩,⟨['/','t','m','p'],by decide⟩⟩

def PersistedQueue.opened (place : Place) (maxItemsPerPage : Nat) (files : FileSystem) : PersistedQueue α :=
  fresh place maxItemsPerPage files

theorem construct_vacant (coder : BiCoder α) {place : Place} {files : FileSystem} (vacant : Vacant place files)
    (io : Io) (maxItemsPerPage : Nat) :
    construct io coder place maxItemsPerPage files = (.ok (),opened place maxItemsPerPage files) := by
  have absent : files.lookup place.stateFilePath = none := AList.lookup_eq_none.mpr vacant.noState
  have none : files.keys.filter place.isQueueFile = [] := by
    refine List.filter_eq_nil_iff.mpr fun path member => ?_
    simp [vacant.noPage path (AList.mem_keys.mpr member)]
  simp [construct,opened,fresh,loadPersistedFileNames,absent,loadOrphanedQueueFiles,none,loadFirstAndLastPage]

theorem opened_stored (coder : BiCoder α) {place : Place} {files : FileSystem} (vacant : Vacant place files)
    (maxItemsPerPage : Nat) : (opened (α := α) place maxItemsPerPage files).Stored coder where
  live := rfl
  alone _ := rfl
  lastFilled separate := by cases separate
  distinct := List.nodup_nil
  filled _ member := by cases member
  named _ member := by cases member
  listed path present queueFile := by
    have foreign := vacant.noPage path present
    change place.isQueueFile path = true at queueFile
    rw [foreign] at queueFile
    cases queueFile
  noState := vacant.noState

theorem opened_counted {place : Place} {files : FileSystem} (maxItemsPerPage : Nat) {bound : Nat}
    (positive : 0 < bound) (inherited : List Text) (clock : Nat) :
    (opened (α := α) place maxItemsPerPage files).Counted bound inherited clock :=
  ⟨Nat.zero_le _,positive,fun _ member => by cases member⟩

structure Sound (bound : Nat) (coder : BiCoder α) (s : Session α) : Prop where
  stored : s.queue.Stored coder
  counted : s.queue.Counted bound [] s.clock

theorem opened_sound {coder : BiCoder α} {place : Place} {files : FileSystem} (vacant : Vacant place files)
    (maxItemsPerPage : Nat) {bound : Nat} (positive : 0 < bound) (opening : Nat) :
    Sound bound coder ⟨opening,opened place maxItemsPerPage files⟩ :=
  ⟨opened_stored coder vacant maxItemsPerPage,opened_counted maxItemsPerPage positive [] opening⟩

theorem Sound.fresh {bound : Nat} {coder : BiCoder α} {s : Session α} {c : Call α} (sound : Sound bound coder s)
    (fits : bound ≤ counterModulus) (bounded : Bounded bound s c) (saves : s.queue.Saves c.op) :
    s.queue.Fresh c.now :=
  sound.counted.fresh fits bounded.onClock.1 bounded.onClock.2 (bounded.within saves)

theorem session_called {coder : BiCoder α} (faithful : coder.Faithful) {s : Session α} {c : Call α}
    (live : s.queue.shutDown = false) (ten : TenDigits c.now) :
    Called coder c.now s.queue c.op ((session coder).step s c).1 ((session coder).step s c).2.queue :=
  call_called faithful ten live c.op

theorem sound_step {bound : Nat} {coder : BiCoder α} (faithful : coder.Faithful) (fits : bound ≤ counterModulus)
    {s : Session α} {c : Call α} (sound : Sound bound coder s) (bounded : Bounded bound s c) :
    Sound bound coder ((session coder).step s c).2 ∧
      (((session coder).step s c).1,((session coder).step s c).2.queue.content coder) =
        applied (s.queue.content coder) c.op := by
  have called := session_called faithful sound.stored.live bounded.onClock.2
  have stored := stored_called sound.stored bounded.onClock.2 (sound.fresh fits bounded) called
  have counted := sound.counted.called fits bounded.onClock.1 bounded.onClock.2 bounded.within called
  exact ⟨⟨stored.1,counted⟩,stored.2⟩

theorem sound_run {bound : Nat} {coder : BiCoder α} (faithful : coder.Faithful) (fits : bound ≤ counterModulus)
    {s : Session α} {calls : List (Call α)} (sound : Sound bound coder s)
    (admitted : (session coder).Admits (Bounded bound) s calls) :
    Sound bound coder ((session coder).run s calls).2 ∧
      ((session coder).run s calls).2.queue.place = s.queue.place := by
  have kept : ∀ t c, (Sound bound coder t ∧ t.queue.place = s.queue.place) → Bounded bound t c →
      Sound bound coder ((session coder).step t c).2 ∧
        ((session coder).step t c).2.queue.place = s.queue.place := by
    intro t c here bounded
    have called := session_called faithful here.1.stored.live bounded.onClock.2
    exact ⟨(sound_step faithful fits here.1 bounded).1,(called_frame called).1.trans here.2⟩
  exact run_preserves kept ⟨sound,rfl⟩ admitted

end Kisscpp
