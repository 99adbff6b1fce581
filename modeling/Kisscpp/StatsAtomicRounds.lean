import Kisscpp.StatsGathering

namespace Kisscpp
open TextLines Stepping

-- How a counter stands to a keeper whose rounds are one step: level with it,
-- read but not yet zero, or behind it, for its history is still to be trimmed.
inductive RoundStage where
  | level
  | read
  | behind
  deriving DecidableEq

def Cursor.stage (id : Text) : Cursor → RoundStage
  | .asleep => .level
  | .push own => if id < own then .behind else .level
  | .zero own => if id < own then .behind else if id = own then .read else .level
  | .queue _ => .behind
  | .trim own => if id < own then .level else .behind

def Cursor.owed (id : Text) : Cursor → Nat
  | .push own | .zero own => if id < own then 0 else 1
  | _ => 0

def RoundStage.Agrees {ν Q : Type*} (id : Text) (s k : StatsKeeper ν Q) : RoundStage → Prop
  | .level => k.gatheredStatsMap.find id = s.gatheredStatsMap.find id
  | .read => ∃ value, s.statsMap.find id = some value ∧
    s.gatheredStatsMap.find id = some (value :: (k.gatheredStatsMap.find id).getD [])
  | .behind => k.gatheredStatsMap.find id = (s.gatheredStatsMap.find id).map (StatsKeeper.trim k.historyLength)

def Cursor.Present {ν Q : Type*} (k : StatsKeeper ν Q) : Cursor → Prop
  | .push own => (k.statsMap.find own).isSome = true
  | .queue own => (k.queueStatsMap.find own).isSome = true
  | .trim own => (k.gatheredStatsMap.find own).isSome = true
  | .asleep | .zero _ => True

structure Shared {ν Q : Type*} (id : Text) (s k : StatsKeeper ν Q) : Prop where
  length : k.historyLength = s.historyLength
  value : k.statsMap.find id = s.statsMap.find id
  thread : s.queueStatsMap.find id = none
  whole : k.queueStatsMap.find id = none

structure Linear {ν Q : Type*} (id : Text) (s : StatsThread ν Q) (k : StatsKeeper ν Q) : Prop
    extends Shared id s.keeper k where
  agrees : (s.cursor.stage id).Agrees id s.keeper k
  present : s.cursor.Present s.keeper

def LeftAlone {ν Q : Type*} (id : Text) (s : StatsThread ν Q) : GatheringEvent ν Q → Prop
  | .call (.addStatableQueue other _) => other ≠ id
  | .call c => c.counter = some id → s.cursor ≠ .zero id
  | _ => True

theorem RoundStage.Agrees.congr {ν Q : Type*} {id : Text} {stage : RoundStage} {s k thread whole : StatsKeeper ν Q}
    (agrees : stage.Agrees id s k) (value : stage = .read → thread.statsMap.find id = s.statsMap.find id)
    (pushed : thread.gatheredStatsMap.find id = s.gatheredStatsMap.find id)
    (gathered : whole.gatheredStatsMap.find id = k.gatheredStatsMap.find id)
    (length : whole.historyLength = k.historyLength) : stage.Agrees id thread whole := by
  cases stage with
  | level => exact gathered.trans (Eq.trans agrees pushed.symm)
  | read =>
    obtain ⟨current,here,front⟩ := agrees
    exact ⟨current,(value rfl).trans here,by rw [pushed,gathered,front]⟩
  | behind =>
    change whole.gatheredStatsMap.find id = (thread.gatheredStatsMap.find id).map (StatsKeeper.trim whole.historyLength)
    rw [gathered,pushed,length]
    exact agrees

namespace StatsKeeper
variable {ν Q : Type*}

section Round
variable [Zero ν] {id : Text} (own : id ≠ uptimeId) {k : StatsKeeper ν Q} (noQueue : k.queueStatsMap.find id = none)
  (uptime : ν) (size : Q → ν)
include own

theorem gather_value : (k.gather uptime size).statsMap.find id = (k.statsMap.find id).map fun _ => 0 := by
  simp only [gather,OrderedMap.find_mapValues,OrderedMap.find_put_ne own]

include noQueue

theorem gather_gathered : (k.gather uptime size).gatheredStatsMap.find id =
    (match k.statsMap.find id with
      | some value => some (value :: (k.gatheredStatsMap.find id).getD [])
      | none => k.gatheredStatsMap.find id).map (trim k.historyLength) := by
  simp only [gather]
  rw [OrderedMap.find_mapValues,find_pushFronts,OrderedMap.find_mapValues,noQueue,find_pushFronts,
    OrderedMap.find_put_ne own]
  rfl

end Round

theorem gather_absent [Zero ν] {id : Text} (own : id ≠ uptimeId) {s k : StatsKeeper ν Q} (shared : Shared id s k)
    (absent : s.statsMap.find id = none) (agrees : RoundStage.Agrees id s k .level) (uptime : ν) (size : Q → ν) :
    Shared id s (k.gather uptime size) ∧ RoundStage.Agrees id s (k.gather uptime size) .behind := by
  have nothing : k.statsMap.find id = none := shared.value.trans absent
  refine ⟨⟨shared.length,?_,shared.thread,shared.whole⟩,?_⟩
  · rw [gather_value own,nothing,absent]
    rfl
  · have gathered := gather_gathered own shared.whole uptime size
    rw [nothing] at gathered
    exact gathered.trans (congrArg (Option.map (trim k.historyLength)) agrees)

end StatsKeeper

section Enter
variable {ν Q : Type*} {id : Text} {s k : StatsKeeper ν Q} (shared : Shared id s k)
  (behind : RoundStage.Agrees id s k .behind)
include shared behind

omit shared in
theorem untrimmed (absent : s.gatheredStatsMap.find id = none) : RoundStage.Agrees id s k .level := by
  change k.gatheredStatsMap.find id = _ at behind
  change k.gatheredStatsMap.find id = _
  rw [behind,absent]
  rfl

theorem enterTrims_linear : Linear id ⟨s,s.enterTrims⟩ k ∧ s.enterTrims.owed id = 0 := by
  unfold StatsKeeper.enterTrims
  cases start : s.gatheredStatsMap.first with
  | none => exact ⟨⟨shared,untrimmed behind (OrderedMap.first_none start id),trivial⟩,rfl⟩
  | some own =>
    refine ⟨⟨shared,?_,(OrderedMap.first_some start).1⟩,rfl⟩
    by_cases skipped : id < own
    · have absent : s.gatheredStatsMap.find id = none := by
        refine OrderedMap.first_past fun front here => ?_
        cases start.symm.trans here
        exact skipped
      simp only [Cursor.stage,if_pos skipped]
      exact untrimmed behind absent
    · simp only [Cursor.stage,if_neg skipped]
      exact behind

theorem enterQueues_linear : Linear id ⟨s,s.enterQueues⟩ k ∧ s.enterQueues.owed id = 0 := by
  unfold StatsKeeper.enterQueues
  cases start : s.queueStatsMap.first with
  | none => exact enterTrims_linear shared behind
  | some own => exact ⟨⟨shared,behind,(OrderedMap.first_some start).1⟩,rfl⟩

end Enter

section Steps
variable {ν Q : Type*} [AddGroup ν] {id : Text}

def StatsCall.gathers {ν Q : Type*} : StatsCall ν Q → Bool
  | .gather _ _ => true
  | _ => false

def GatheringEvent.calls {ν Q : Type*} : GatheringEvent ν Q → List (StatsCall ν Q)
  | .call c => [c.call]
  | _ => []

def StatsThread.starts {ν Q : Type*} (s : StatsThread ν Q) : GatheringEvent ν Q → Nat
  | .turn _ _ => if s.cursor = .asleep then 1 else 0
  | _ => 0

def Followed (id : Text) (s : StatsThread ν Q) (event : GatheringEvent ν Q) (k : StatsKeeper ν Q) : Prop :=
  ∃ more : List (StatsCall ν Q), Linear id (s.step event).2 (more.foldl StatsKeeper.apply k) ∧
    more.filter (fun c => !c.gathers) = event.calls ∧
    more.countP StatsCall.gathers + (s.step event).2.cursor.owed id = s.cursor.owed id + s.starts event

theorem put_present {μ : Type*} {m : OrderedMap Text μ} {own : Text} (known : (m.find own).isSome = true) (other : Text)
    (value : μ) : ((m.put other value).find own).isSome = true := by
  rw [StatsKeeper.isSome_put,known]
  rfl

theorem stage_read {cursor : Cursor} (read : cursor.stage id = .read) : cursor = .zero id := by
  cases cursor with
  | asleep => cases read
  | queue own => cases read
  | push own =>
    simp only [Cursor.stage] at read
    split at read <;> cases read
  | trim own =>
    simp only [Cursor.stage] at read
    split at read <;> cases read
  | zero own =>
    simp only [Cursor.stage] at read
    split at read
    · cases read
    · split at read
      · next same => rw [same]
      · cases read

section Calls
variable (c : CounterCall ν Q) {k other : StatsKeeper ν Q}

theorem apply_value (same : k.statsMap.find id = other.statsMap.find id) :
    (k.apply c.call).statsMap.find id = (other.apply c.call).statsMap.find id := by
  by_cases mine : c.counter = some id
  · cases c with
    | setStatValue own value =>
      cases Option.some.inj mine
      simp only [CounterCall.call,StatsKeeper.apply,StatsKeeper.setStatValue,OrderedMap.find_put_self]
    | increment own value =>
      cases Option.some.inj mine
      simp only [CounterCall.call,StatsKeeper.apply,StatsKeeper.increment,same]
      split <;> simp only [OrderedMap.find_put_self]
    | decrement own value =>
      cases Option.some.inj mine
      simp only [CounterCall.call,StatsKeeper.apply,StatsKeeper.decrement,same]
      split <;> simp only [OrderedMap.find_put_self]
    | addStatableQueue own ssq => cases mine
  · rw [k.apply_counter mine,other.apply_counter mine,same]

theorem apply_gathered : (k.apply c.call).gatheredStatsMap = k.gatheredStatsMap ∧
    (k.apply c.call).historyLength = k.historyLength := by
  rcases k.apply_cases c with ⟨own,value,_,applied⟩ | ⟨own,ssq,_,applied⟩
  · rw [applied]
    exact ⟨rfl,rfl⟩
  · rw [applied]
    exact ⟨rfl,rfl⟩

theorem apply_queue {own : Text} (noQueue : ∀ ssq, c ≠ .addStatableQueue own ssq) :
    (k.apply c.call).queueStatsMap.find own = k.queueStatsMap.find own := by
  rcases k.apply_cases c with ⟨other,value,_,applied⟩ | ⟨other,ssq,added,applied⟩
  · rw [applied]
  · rw [applied]
    exact OrderedMap.find_put_ne (fun same => noQueue ssq (by rw [added,same])) ssq _

theorem apply_present (cursor : Cursor) (present : cursor.Present k) : cursor.Present (k.apply c.call) := by
  rcases k.apply_cases c with ⟨other,value,_,applied⟩ | ⟨other,ssq,_,applied⟩
  · rw [applied]
    cases cursor with
    | push own => exact put_present present other value
    | _ => exact present
  · rw [applied]
    cases cursor with
    | queue own => exact put_present present other ssq
    | _ => exact present

end Calls

theorem call_followed {s : StatsThread ν Q} {k : StatsKeeper ν Q} (linear : Linear id s k) (c : CounterCall ν Q)
    (left : LeftAlone id s (.call c)) : Followed id s (.call c) k := by
  obtain ⟨⟨length,value,thread,whole⟩,agrees,present⟩ := linear
  have queues : ∀ ssq, c ≠ .addStatableQueue id ssq := by
    rintro ssq rfl
    exact left rfl
  have alone : s.cursor.stage id = .read → c.counter ≠ some id := by
    intro read mine
    have here := stage_read read
    cases c with
    | addStatableQueue other ssq => cases mine
    | setStatValue other value => exact left mine here
    | increment other value => exact left mine here
    | decrement other value => exact left mine here
  obtain ⟨threadGathered,threadLength⟩ := apply_gathered c (k := s.keeper)
  obtain ⟨wholeGathered,wholeLength⟩ := apply_gathered c (k := k)
  refine ⟨[c.call],⟨⟨?_,apply_value c value,?_,?_⟩,?_,apply_present c _ present⟩,?_,?_⟩
  · exact wholeLength.trans (length.trans threadLength.symm)
  · exact (apply_queue c queues).trans thread
  · exact (apply_queue c queues).trans whole
  · exact agrees.congr (fun read => s.keeper.apply_counter (alone read)) (congrArg (OrderedMap.find id) threadGathered)
      (congrArg (OrderedMap.find id) wholeGathered) wholeLength
  · cases c <;> rfl
  · cases c <;> exact Nat.zero_add _

section Turns
variable (own : id ≠ StatsKeeper.uptimeId) {s k : StatsKeeper ν Q}

include own in
theorem report_followed {s : StatsThread ν Q} {k : StatsKeeper ν Q} (linear : Linear id s k) (uptime : ν)
    (size : Q → ν) : Followed id s (.report uptime size) k := by
  obtain ⟨⟨length,value,thread,whole⟩,agrees,present⟩ := linear
  have apart : (s.keeper.statsMap.put StatsKeeper.uptimeId uptime).find id = s.keeper.statsMap.find id :=
    OrderedMap.find_put_ne own uptime _
  refine ⟨[],⟨⟨length,value.trans apart.symm,thread,whole⟩,?_,?_⟩,rfl,Nat.zero_add _⟩
  · exact agrees.congr (fun _ => apart) rfl rfl rfl
  · change s.cursor.Present _
    cases cursor : s.cursor with
    | push key =>
      rw [cursor] at present
      exact put_present present _ uptime
    | asleep => trivial
    | zero key => trivial
    | queue key =>
      rw [cursor] at present
      exact present
    | trim key =>
      rw [cursor] at present
      exact present

-- The iterator goes to an id or to the loop of the queues: where it passes the
-- counter by, the counter is not there, and the round is over for it.
def moved (s : StatsKeeper ν Q) : Option Text → Cursor
  | some key => .push key
  | none => s.enterQueues

include own in
theorem moved_followed (shared : Shared id s k) (agrees : RoundStage.Agrees id s k .level) (uptime : ν) (size : Q → ν)
    (next : Option Text) (known : ∀ key, next = some key → (s.statsMap.find key).isSome = true)
    (passed : (∀ key, next = some key → id < key) → s.statsMap.find id = none) :
    ∃ more : List (StatsCall ν Q), Linear id ⟨s,moved s next⟩ (more.foldl StatsKeeper.apply k) ∧
      more.filter (fun c => !c.gathers) = [] ∧ more.countP StatsCall.gathers + (moved s next).owed id = 1 := by
  cases next with
  | none =>
    obtain ⟨after,behind⟩ := StatsKeeper.gather_absent own shared (passed nofun) agrees uptime size
    obtain ⟨linear,owed⟩ := enterQueues_linear after behind
    refine ⟨[.gather uptime size],linear,rfl,?_⟩
    rw [moved,owed]
    rfl
  | some key =>
    by_cases skipped : id < key
    · have absent := passed fun other same => Option.some.inj same ▸ skipped
      obtain ⟨after,behind⟩ := StatsKeeper.gather_absent own shared absent agrees uptime size
      refine ⟨[.gather uptime size],⟨after,?_,known key rfl⟩,rfl,?_⟩
      · simp only [moved,Cursor.stage,if_pos skipped]
        exact behind
      · simp only [moved,Cursor.owed,if_pos skipped]
        rfl
    · refine ⟨[],⟨shared,?_,known key rfl⟩,rfl,?_⟩
      · simp only [moved,Cursor.stage,if_neg skipped]
        exact agrees
      · simp only [moved,Cursor.owed,if_neg skipped]
        rfl

include own in
theorem asleep_followed (linear : Linear id ⟨s,.asleep⟩ k) (uptime : ν) (size : Q → ν) :
    Followed id ⟨s,.asleep⟩ (.turn uptime size) k := by
  obtain ⟨⟨length,value,thread,whole⟩,agrees,_⟩ := linear
  have apart : (s.statsMap.put StatsKeeper.uptimeId uptime).find id = s.statsMap.find id :=
    OrderedMap.find_put_ne own uptime _
  let after : StatsKeeper ν Q := {s with statsMap := s.statsMap.put StatsKeeper.uptimeId uptime}
  have shared : Shared id after k := ⟨length,value.trans apart.symm,thread,whole⟩
  refine moved_followed own shared agrees uptime size after.statsMap.first ?_ OrderedMap.first_past
  intro key start
  exact (OrderedMap.first_some start).1

theorem push_followed {key : Text} (linear : Linear id ⟨s,.push key⟩ k) (uptime : ν) (size : Q → ν) :
    Followed id ⟨s,.push key⟩ (.turn uptime size) k := by
  obtain ⟨⟨length,value,thread,whole⟩,agrees,present⟩ := linear
  refine ⟨[],⟨⟨length,value,thread,whole⟩,?_,trivial⟩,rfl,Nat.zero_add _⟩
  by_cases same : id = key
  · subst same
    obtain ⟨current,here⟩ := Option.isSome_iff_exists.mp present
    have level : Cursor.stage id (.push id) = .level := if_neg (lt_irrefl id)
    have read : Cursor.stage id (.zero id) = .read := by rw [Cursor.stage,if_neg (lt_irrefl id),if_pos rfl]
    change RoundStage.Agrees id s k (Cursor.stage id (.push id)) at agrees
    rw [level] at agrees
    change RoundStage.Agrees id _ k (Cursor.stage id (.zero id))
    rw [read]
    refine ⟨current,here,?_⟩
    have gathered : k.gatheredStatsMap.find id = s.gatheredStatsMap.find id := agrees
    have front : (StatsKeeper.pushFront s.gatheredStatsMap (id,s.counter id)).find id =
        some (s.counter id :: (s.gatheredStatsMap.find id).getD []) := OrderedMap.find_put_self _ _ _
    have counted : s.counter id = current := by
      rw [StatsKeeper.counter,here]
      rfl
    exact front.trans (by rw [counted,gathered])
  · have stays : Cursor.stage id (.zero key) = Cursor.stage id (.push key) := by simp [Cursor.stage,same]
    change RoundStage.Agrees id _ k (Cursor.stage id (.zero key))
    rw [stays]
    exact agrees.congr (fun _ => rfl) (OrderedMap.find_put_ne same _ _) rfl rfl

omit [AddGroup ν] in
theorem moved_behind (shared : Shared id s k) (behind : RoundStage.Agrees id s k .behind) (next : Option Text)
    (later : ∀ key, next = some key → id < key ∧ (s.statsMap.find key).isSome = true) :
    Linear id ⟨s,moved s next⟩ k ∧ (moved s next).owed id = 0 := by
  cases next with
  | none => exact enterQueues_linear shared behind
  | some key =>
    obtain ⟨skipped,known⟩ := later key rfl
    refine ⟨⟨shared,?_,known⟩,if_pos skipped⟩
    simp only [moved,Cursor.stage,if_pos skipped]
    exact behind

theorem zero_behind {key : Text} (ahead : id < key) (linear : Linear id ⟨s,.zero key⟩ k) (uptime : ν) (size : Q → ν) :
    Followed id ⟨s,.zero key⟩ (.turn uptime size) k := by
  obtain ⟨⟨length,value,thread,whole⟩,agrees,_⟩ := linear
  let after : StatsKeeper ν Q := {s with statsMap := s.statsMap.put key 0}
  have apart : after.statsMap.find id = s.statsMap.find id := OrderedMap.find_put_ne (ne_of_lt ahead) _ _
  have shared : Shared id after k := ⟨length,value.trans apart.symm,thread,whole⟩
  change RoundStage.Agrees id s k (Cursor.stage id (.zero key)) at agrees
  rw [show Cursor.stage id (.zero key) = .behind from if_pos ahead] at agrees
  obtain ⟨linear,owed⟩ := moved_behind shared (agrees.congr nofun rfl rfl rfl) (after.statsMap.next key)
    fun next step => ⟨lt_trans ahead (OrderedMap.next_some step).1,(OrderedMap.next_some step).2.1⟩
  refine ⟨[],linear,rfl,?_⟩
  change 0 + (moved after (after.statsMap.next key)).owed id = Cursor.owed id (.zero key) + 0
  rw [owed,show Cursor.owed id (.zero key) = 0 from if_pos ahead]

include own in
theorem zero_read (linear : Linear id ⟨s,.zero id⟩ k) (uptime : ν) (size : Q → ν) :
    Followed id ⟨s,.zero id⟩ (.turn uptime size) k := by
  obtain ⟨⟨length,value,thread,whole⟩,agrees,_⟩ := linear
  let after : StatsKeeper ν Q := {s with statsMap := s.statsMap.put id 0}
  have read : Cursor.stage id (.zero id) = .read := by rw [Cursor.stage,if_neg (lt_irrefl id),if_pos rfl]
  change RoundStage.Agrees id s k (Cursor.stage id (.zero id)) at agrees
  rw [read] at agrees
  obtain ⟨current,here,front⟩ := agrees
  have known : k.statsMap.find id = some current := value.trans here
  have zeroed : (k.gather uptime size).statsMap.find id = some 0 := by
    rw [StatsKeeper.gather_value own,known]
    rfl
  have gathered := StatsKeeper.gather_gathered own whole uptime size
  rw [known] at gathered
  have shared : Shared id after (k.gather uptime size) :=
    ⟨length,zeroed.trans (OrderedMap.find_put_self id 0 s.statsMap).symm,thread,whole⟩
  have behind : RoundStage.Agrees id after (k.gather uptime size) .behind := by
    change _ = (s.gatheredStatsMap.find id).map _
    rw [gathered,front]
    rfl
  obtain ⟨linear,owed⟩ := moved_behind shared behind (after.statsMap.next id)
    fun next step => ⟨(OrderedMap.next_some step).1,(OrderedMap.next_some step).2.1⟩
  refine ⟨[.gather uptime size],linear,rfl,?_⟩
  change 1 + (moved after (after.statsMap.next id)).owed id = Cursor.owed id (.zero id) + 0
  rw [owed,show Cursor.owed id (.zero id) = 1 from if_neg (lt_irrefl id)]

include own in
theorem zero_level {key : Text} (earlier : key < id) (linear : Linear id ⟨s,.zero key⟩ k) (uptime : ν) (size : Q → ν) :
    Followed id ⟨s,.zero key⟩ (.turn uptime size) k := by
  obtain ⟨⟨length,value,thread,whole⟩,agrees,_⟩ := linear
  let after : StatsKeeper ν Q := {s with statsMap := s.statsMap.put key 0}
  have level : Cursor.stage id (.zero key) = .level := by
    rw [Cursor.stage,if_neg (lt_asymm earlier),if_neg (ne_of_gt earlier)]
  change RoundStage.Agrees id s k (Cursor.stage id (.zero key)) at agrees
  rw [level] at agrees
  have apart : after.statsMap.find id = s.statsMap.find id := OrderedMap.find_put_ne (ne_of_gt earlier) _ _
  have shared : Shared id after k := ⟨length,value.trans apart.symm,thread,whole⟩
  obtain ⟨more,linear,calls,rounds⟩ := moved_followed own shared (agrees.congr nofun rfl rfl rfl) uptime size
    (after.statsMap.next key) (fun next step => (OrderedMap.next_some step).2.1) (OrderedMap.next_past earlier)
  exact ⟨more,linear,calls,rounds.trans (show Cursor.owed id (.zero key) = 1 from if_neg (lt_asymm earlier)).symm⟩

include own in
theorem zero_followed {key : Text} (linear : Linear id ⟨s,.zero key⟩ k) (uptime : ν) (size : Q → ν) :
    Followed id ⟨s,.zero key⟩ (.turn uptime size) k := by
  rcases lt_trichotomy id key with ahead | same | earlier
  · exact zero_behind ahead linear uptime size
  · subst same
    exact zero_read own linear uptime size
  · exact zero_level own earlier linear uptime size

theorem queue_followed {key : Text} (linear : Linear id ⟨s,.queue key⟩ k) (uptime : ν) (size : Q → ν) :
    Followed id ⟨s,.queue key⟩ (.turn uptime size) k := by
  obtain ⟨⟨length,value,thread,whole⟩,agrees,present⟩ := linear
  obtain ⟨ssq,queue⟩ := Option.isSome_iff_exists.mp present
  have apart : id ≠ key := by
    rintro rfl
    cases queue.symm.trans thread
  let after : StatsKeeper ν Q :=
    {s with gatheredStatsMap := StatsKeeper.pushFront s.gatheredStatsMap (key,size ssq)}
  have shared : Shared id after k := ⟨length,value,thread,whole⟩
  have behind : RoundStage.Agrees id after k .behind :=
    RoundStage.Agrees.congr agrees nofun (OrderedMap.find_put_ne apart _ _) rfl rfl
  have turned : StatsThread.turn uptime size ⟨s,.queue key⟩ = ⟨after,match after.queueStatsMap.next key with
      | some id => .queue id
      | none => after.enterTrims⟩ := by
    change s.queueStatsMap.find key = some ssq at queue
    simp only [StatsThread.turn,queue]
    rfl
  have ends : Linear id (StatsThread.turn uptime size ⟨s,.queue key⟩) k ∧
      (StatsThread.turn uptime size ⟨s,.queue key⟩).cursor.owed id = 0 := by
    rw [turned]
    cases step : after.queueStatsMap.next key with
    | none => exact enterTrims_linear shared behind
    | some next => exact ⟨⟨shared,behind,(OrderedMap.next_some step).2.1⟩,rfl⟩
  exact ⟨[],ends.1,rfl,(Nat.zero_add _).trans ends.2⟩

theorem trim_followed {key : Text} (linear : Linear id ⟨s,.trim key⟩ k) (uptime : ν) (size : Q → ν) :
    Followed id ⟨s,.trim key⟩ (.turn uptime size) k := by
  obtain ⟨⟨length,value,thread,whole⟩,agrees,present⟩ := linear
  let history := StatsKeeper.trim s.historyLength ((s.gatheredStatsMap.find key).getD [])
  let after : StatsKeeper ν Q := {s with gatheredStatsMap := s.gatheredStatsMap.put key history}
  let cursor : Cursor := match after.gatheredStatsMap.next key with
    | some id => .trim id
    | none => .asleep
  have shared : Shared id after k := ⟨length,value,thread,whole⟩
  change RoundStage.Agrees id s k (Cursor.stage id (.trim key)) at agrees
  -- Level as soon as the iterator is at the counter, or past where it would be.
  have level (early : id ≤ key) : RoundStage.Agrees id after k .level := by
    rcases eq_or_lt_of_le early with same | ahead
    · subst same
      obtain ⟨values,here⟩ := Option.isSome_iff_exists.mp present
      change s.gatheredStatsMap.find id = some values at here
      change k.gatheredStatsMap.find id = (s.gatheredStatsMap.put id history).find id
      rw [show Cursor.stage id (.trim id) = .behind from if_neg (lt_irrefl id)] at agrees
      have trimmed : k.gatheredStatsMap.find id = (s.gatheredStatsMap.find id).map (StatsKeeper.trim k.historyLength) :=
        agrees
      rw [trimmed,OrderedMap.find_put_self,here,length]
      simp only [history,here]
      rfl
    · rw [show Cursor.stage id (.trim key) = .level from if_pos ahead] at agrees
      exact agrees.congr nofun (OrderedMap.find_put_ne (ne_of_lt ahead) _ _) rfl rfl
  have behind (later : key < id) : RoundStage.Agrees id after k .behind := by
    rw [show Cursor.stage id (.trim key) = .behind from if_neg (lt_asymm later)] at agrees
    exact agrees.congr nofun (OrderedMap.find_put_ne (ne_of_gt later) _ _) rfl rfl
  have past (skips : ∀ next, after.gatheredStatsMap.next key = some next → id < next) :
      RoundStage.Agrees id after k .level := by
    rcases le_or_gt id key with early | later
    · exact level early
    · exact untrimmed (behind later) (OrderedMap.next_past later skips)
  have ends : Linear id ⟨after,cursor⟩ k ∧ cursor.owed id = 0 := by
    simp only [cursor]
    cases step : after.gatheredStatsMap.next key with
    | none =>
      refine ⟨⟨shared,past fun next here => ?_,trivial⟩,rfl⟩
      cases step.symm.trans here
    | some next =>
      obtain ⟨forward,known,_⟩ := OrderedMap.next_some step
      refine ⟨⟨shared,?_,known⟩,rfl⟩
      change RoundStage.Agrees id after k (Cursor.stage id (.trim next))
      by_cases skipped : id < next
      · rw [show Cursor.stage id (.trim next) = .level from if_pos skipped]
        refine past fun other here => ?_
        cases step.symm.trans here
        exact skipped
      · rw [show Cursor.stage id (.trim next) = .behind from if_neg skipped]
        exact behind (lt_of_lt_of_le forward (not_lt.mp skipped))
  exact ⟨[],ends.1,rfl,(Nat.zero_add _).trans ends.2⟩

include own in
theorem step_followed {s : StatsThread ν Q} (linear : Linear id s k) (event : GatheringEvent ν Q)
    (left : LeftAlone id s event) : Followed id s event k := by
  cases event with
  | call c => exact call_followed linear c left
  | report uptime size => exact report_followed own linear uptime size
  | turn uptime size =>
    obtain ⟨keeper,cursor⟩ := s
    cases cursor with
    | asleep => exact asleep_followed own linear uptime size
    | push key => exact push_followed linear uptime size
    | zero key => exact zero_followed own linear uptime size
    | queue key => exact queue_followed linear uptime size
    | trim key => exact trim_followed linear uptime size

end Turns

end Steps

section Runs
variable {ν Q : Type*} [AddGroup ν] {id : Text}

def StatsThread.begun (s : StatsThread ν Q) : List (GatheringEvent ν Q) → Nat
  | [] => 0
  | event :: rest => s.starts event + (s.step event).2.begun rest

theorem begun_append (s : StatsThread ν Q) (earlier later : List (GatheringEvent ν Q)) :
    s.begun (earlier ++ later) = s.begun earlier + (gatherStats.run s earlier).2.begun later := by
  induction earlier generalizing s with
  | nil => exact (Nat.zero_add _).symm
  | cons event rest ih =>
    change s.starts event + (s.step event).2.begun (rest ++ later) = _
    rw [ih]
    exact (Nat.add_assoc _ _ _).symm

structure Along (id : Text) (k : StatsKeeper ν Q) (events : List (GatheringEvent ν Q)) (whole : List (StatsCall ν Q)) :
    Prop where
  linear : Linear id (gatherStats.run ⟨k,.asleep⟩ events).2 (whole.foldl StatsKeeper.apply k)
  calls : whole.filter (fun c => !c.gathers) = events.flatMap GatheringEvent.calls
  rounds : whole.countP StatsCall.gathers + (gatherStats.run ⟨k,.asleep⟩ events).2.cursor.owed id =
    StatsThread.begun ⟨k,.asleep⟩ events

theorem along_step (own : id ≠ StatsKeeper.uptimeId) {k : StatsKeeper ν Q} {events : List (GatheringEvent ν Q)}
    {whole : List (StatsCall ν Q)} (along : Along id k events whole) {event : GatheringEvent ν Q}
    (left : LeftAlone id (gatherStats.run ⟨k,.asleep⟩ events).2 event) :
    ∃ more, Along id k (events ++ [event]) (whole ++ more) := by
  obtain ⟨more,linear,calls,rounds⟩ := step_followed own along.linear event left
  have last : (gatherStats.run ⟨k,.asleep⟩ (events ++ [event])).2 =
      ((gatherStats.run ⟨k,.asleep⟩ events).2.step event).2 := by
    rw [run_append]
    rfl
  refine ⟨more,?_,?_,?_⟩
  · rw [last,List.foldl_append]
    exact linear
  · rw [List.filter_append,along.calls,calls,List.flatMap_append,List.flatMap_singleton]
  · have before := along.rounds
    rw [last,List.countP_append,begun_append]
    change _ = _ + ((gatherStats.run ⟨k,.asleep⟩ events).2.starts event + 0)
    omega

theorem run_along (own : id ≠ StatsKeeper.uptimeId) {k : StatsKeeper ν Q} (counter : k.queueStatsMap.find id = none)
    (events : List (GatheringEvent ν Q)) (left : gatherStats.Admits (LeftAlone id) ⟨k,.asleep⟩ events) :
    ∃ blocks : List (List (StatsCall ν Q)), blocks.length = events.length ∧
      ∀ n, Along id k (events.take n) (blocks.take n).flatten := by
  induction events using List.reverseRecOn with
  | nil =>
    refine ⟨[],rfl,fun n => ?_⟩
    rw [List.take_nil,List.take_nil]
    exact ⟨⟨⟨rfl,rfl,counter,counter⟩,rfl,trivial⟩,rfl,rfl⟩
  | append_singleton events event ih =>
    obtain ⟨earlier,here⟩ := (admits_append gatherStats (LeftAlone id) _ _ _).mp left
    obtain ⟨blocks,long,along⟩ := ih earlier
    have before := along events.length
    rw [List.take_length,← long,List.take_length] at before
    obtain ⟨more,after⟩ := along_step own before here.1
    refine ⟨blocks ++ [more],by simp [long],fun n => ?_⟩
    rcases le_or_gt n events.length with inside | past
    · rw [List.take_append_of_le_length inside,List.take_append_of_le_length (long ▸ inside)]
      exact along n
    · rw [List.take_of_length_le (by simpa using Nat.succ_le_of_lt past),
        List.take_of_length_le (by simpa [long] using Nat.succ_le_of_lt past)]
      simpa using after

theorem owed_one (id : Text) (cursor : Cursor) : cursor.owed id ≤ 1 := by
  cases cursor with
  | push own =>
    change (if id < own then 0 else 1) ≤ 1
    split
    · exact Nat.zero_le 1
    · exact le_rfl
  | zero own =>
    change (if id < own then 0 else 1) ≤ 1
    split
    · exact Nat.zero_le 1
    · exact le_rfl
  | _ => exact Nat.zero_le 1

-- The statements of the rounds and the calls of the other threads come in any
-- order. For a counter, a keeper whose rounds are one step goes along: it takes
-- the calls as they come and one round between the start and the end of each,
-- its value is always the same, and its history whenever the thread sleeps.
theorem rounds_atomic (own : id ≠ StatsKeeper.uptimeId) (k : StatsKeeper ν Q) (counter : k.queueStatsMap.find id = none)
    (events : List (GatheringEvent ν Q)) (left : gatherStats.Admits (LeftAlone id) ⟨k,.asleep⟩ events) :
    ∃ blocks : List (List (StatsCall ν Q)), blocks.length = events.length ∧ ∀ n,
      let thread := (gatherStats.run ⟨k,.asleep⟩ (events.take n)).2
      let calls := (blocks.take n).flatten
      let whole := calls.foldl StatsKeeper.apply k
      let begun := StatsThread.begun ⟨k,.asleep⟩ (events.take n)
      calls.filter (fun c => !c.gathers) = (events.take n).flatMap GatheringEvent.calls ∧
      calls.countP StatsCall.gathers ≤ begun ∧ begun ≤ calls.countP StatsCall.gathers + 1 ∧
      whole.statsMap.find id = thread.keeper.statsMap.find id ∧
      (thread.cursor = .asleep → calls.countP StatsCall.gathers = begun ∧
        whole.gatheredStatsMap.find id = thread.keeper.gatheredStatsMap.find id) := by
  obtain ⟨blocks,long,along⟩ := run_along own counter events left
  refine ⟨blocks,long,fun n => ?_⟩
  obtain ⟨linear,calls,rounds⟩ := along n
  have one := owed_one id (gatherStats.run ⟨k,.asleep⟩ (events.take n)).2.cursor
  refine ⟨calls,by omega,by omega,linear.value,fun asleep => ?_⟩
  have agrees := linear.agrees
  rw [asleep] at rounds agrees
  exact ⟨rounds,agrees⟩

instance (s : StatsThread ν Q) (event : GatheringEvent ν Q) : Decidable (LeftAlone id s event) :=
  match event with
  | .call (.setStatValue own _) => inferInstanceAs (Decidable (some own = some id → s.cursor ≠ .zero id))
  | .call (.increment own _) => inferInstanceAs (Decidable (some own = some id → s.cursor ≠ .zero id))
  | .call (.decrement own _) => inferInstanceAs (Decidable (some own = some id → s.cursor ≠ .zero id))
  | .call (.addStatableQueue own _) => inferInstanceAs (Decidable (own ≠ id))
  | .report _ _ => isTrue trivial
  | .turn _ _ => isTrue trivial

def lateCounter : Text := "requests".toList

def lateCalls : List (GatheringEvent Int Unit) :=
  let turn : GatheringEvent Int Unit := .turn 60 fun _ => 0
  [turn,turn,.call (.increment lateCounter 1),turn,.call (.increment lateCounter 2),turn,turn,
    .call (.increment lateCounter 4),turn,turn,.call (.increment lateCounter 8),turn]

theorem rounds_atomic_late : ∃ calls : List (StatsCall Int Unit),
    calls.filter (fun c => !c.gathers) =
      [.increment lateCounter 1,.increment lateCounter 2,.increment lateCounter 4,.increment lateCounter 8] ∧
    calls.countP StatsCall.gathers = 1 ∧
    (calls.foldl StatsKeeper.apply (StatsKeeper.fresh 2)).statsMap.find lateCounter = some 12 ∧
    (calls.foldl StatsKeeper.apply (StatsKeeper.fresh 2)).gatheredStatsMap.find lateCounter = some [3] := by
  obtain ⟨blocks,_,along⟩ := rounds_atomic (show lateCounter ≠ StatsKeeper.uptimeId by decide)
    (StatsKeeper.fresh 2 : StatsKeeper Int Unit) rfl lateCalls (by decide)
  obtain ⟨calls,_,_,value,asleep⟩ := along 11
  obtain ⟨rounds,history⟩ := asleep (by decide)
  exact ⟨_,calls,rounds,value.trans (by decide),history.trans (by decide)⟩

end Runs

end Kisscpp
