import Mathlib.Algebra.Group.Defs
import Kisscpp.StatsHistory

namespace Kisscpp
open TextLines
namespace StatsKeeper
variable {ν Q : Type*}

def brought (k : StatsKeeper ν Q) (id : Text) (uptime : ν) (size : Q → ν) : List ν :=
  ((k.queueStatsMap.find id).map size).toList ++ ((k.statsMap.put uptimeId uptime).find id).toList

def history (k : StatsKeeper ν Q) (id : Text) : List ν := (k.gatheredStatsMap.find id).getD []

-- The rounds of a run, those since an id first took part in one, and every
-- value that came in for the id with the number of its round, newest first.
structure Ledger (ν : Type*) where
  rounds : Nat
  since : Nat
  arrivals : List (Nat × ν)

def Ledger.round (l : Ledger ν) (values : List ν) : Ledger ν where
  rounds := l.rounds + 1
  since := if values.isEmpty && l.since == 0 then 0 else l.since + 1
  arrivals := values.map (fun value => (l.rounds,value)) ++ l.arrivals

def Ledger.step (id : Text) (k : StatsKeeper ν Q) (l : Ledger ν) : StatsCall ν Q → Ledger ν
  | .gather uptime size => l.round (k.brought id uptime size)
  | _ => l

theorem trim_nil (historyLength : Nat) : trim historyLength ([] : List ν) = [] := by simp [trim]

theorem trim_front (historyLength : Nat) (values : List ν) : trim historyLength values <+: values := by
  unfold trim
  split
  · exact List.dropLast_prefix values
  · exact List.prefix_rfl

theorem trim_entry {historyLength i : Nat} {values : List ν} {value : ν}
    (found : (trim historyLength values)[i]? = some value) : values[i]? = some value := by
  obtain ⟨last,rest⟩ := trim_front historyLength values
  rw [← rest,List.getElem?_append_left (List.getElem?_eq_some_iff.mp found).1]
  exact found

structure Numbered (historyLength : Nat) (l : Ledger ν) (history : List ν) : Prop where
  counted : history.length = min historyLength l.since
  aligned : ∀ i value, history[i]? = some value → ∃ round, l.arrivals[i]? = some (round,value) ∧
    round + i + 1 = l.rounds

theorem numbered_one {historyLength : Nat} {l : Ledger ν} {history : List ν} (numbered : Numbered historyLength l history)
    (value : ν) : Numbered historyLength (l.round [value]) (trim historyLength (value :: history)) := by
  constructor
  · have before := numbered.counted
    have since : (l.round [value]).since = l.since + 1 := by simp [Ledger.round]
    rw [trim_length,since,List.length_cons]
    split <;> omega
  · intro i entry found
    have whole := trim_entry found
    cases i with
    | zero =>
      cases whole
      exact ⟨l.rounds,rfl,rfl⟩
    | succ i =>
      obtain ⟨round,arrived,place⟩ := numbered.aligned i entry whole
      refine ⟨round,arrived,?_⟩
      change round + (i + 1) + 1 = l.rounds + 1
      omega

theorem numbered_two {l : Ledger ν} (unseen : l.since = 0) (newer older : ν) :
    Numbered 1 (l.round [newer,older]) (trim 1 [newer,older]) := by
  constructor
  · simp [trim,Ledger.round,unseen]
  · intro i entry found
    match i with
    | 0 =>
      cases found
      exact ⟨l.rounds,rfl,rfl⟩
    | i + 1 => cases found

theorem brought_cases (k : StatsKeeper ν Q) (id : Text) (uptime : ν) (size : Q → ν) {t : Tally} (tells : Tells id k t) :
    (k.brought id uptime size = [] ∧ (t.stated || t.queued) = false) ∨
    ((∃ value, k.brought id uptime size = [value]) ∧ (t.stated || t.queued) = true) ∨
    ∃ newer older, k.brought id uptime size = [newer,older] ∧ t.stated = true ∧ t.queued = true := by
  have stated := stats_found tells uptime
  have queued := tells.queued
  unfold brought
  cases queue : k.queueStatsMap.find id with
  | none =>
    rw [queue] at queued
    cases stat : (k.statsMap.put uptimeId uptime).find id with
    | none =>
      rw [stat] at stated
      exact .inl ⟨rfl,by rw [queued,← stated]; rfl⟩
    | some value =>
      rw [stat] at stated
      exact .inr (.inl ⟨⟨value,rfl⟩,by rw [← stated]; rfl⟩)
  | some ssq =>
    rw [queue] at queued
    cases stat : (k.statsMap.put uptimeId uptime).find id with
    | none => exact .inr (.inl ⟨⟨size ssq,rfl⟩,by rw [queued]; exact Bool.or_true _⟩)
    | some value =>
      rw [stat] at stated
      exact .inr (.inr ⟨size ssq,value,rfl,stated.symm,queued⟩)

theorem unseen_rounds {id : Text} {k : StatsKeeper ν Q} {t : Tally} (tells : Tells id k t)
    (absent : (t.stated || t.queued) = false) : t.rounds = 0 := by
  by_contra positive
  have known := tells.kept (Nat.pos_of_ne_zero positive)
  rw [absent] at known
  cases known

theorem unseen_history {id : Text} {k : StatsKeeper ν Q} {t : Tally} (tells : Tells id k t) (never : t.rounds = 0) :
    k.history id = [] := by
  have absent : (k.gatheredStatsMap.find id).isSome = false := by rw [tells.gathered,never]; rfl
  rw [Option.isSome_eq_false_iff,Option.isNone_iff_eq_none] at absent
  rw [history,absent]
  rfl

theorem depth_history (k : StatsKeeper ν Q) (id : Text) : depth k.gatheredStatsMap id = (k.history id).length := by
  rw [depth,history]
  cases k.gatheredStatsMap.find id <;> rfl

theorem brought_both {id : Text} {k : StatsKeeper ν Q} {t : Tally} (tells : Tells id k t) (uptime : ν) (size : Q → ν)
    (stated : t.stated = true) (queued : t.queued = true) : ∃ newer older, k.brought id uptime size = [newer,older] := by
  obtain ⟨older,stat⟩ := Option.isSome_iff_exists.mp ((stats_found tells uptime).trans stated)
  obtain ⟨ssq,queue⟩ := Option.isSome_iff_exists.mp (tells.queued.symm.trans queued)
  exact ⟨size ssq,older,by rw [brought,queue,stat]; rfl⟩

theorem history_found {id : Text} {k : StatsKeeper ν Q} (some : k.history id ≠ []) :
    k.gatheredStatsMap.find id = .some (k.history id) := by
  rw [history] at some ⊢
  cases found : k.gatheredStatsMap.find id with
  | none => simp [found] at some
  | some history => rfl

section Recorded
variable [AddGroup ν]

def recorded (id : Text) (s : StatsKeeper ν Q × Ledger ν) (c : StatsCall ν Q) : StatsKeeper ν Q × Ledger ν :=
  (s.1.apply c,s.2.step id s.1 c)

def ledger (id : Text) (historyLength : Nat) (calls : List (StatsCall ν Q)) : Ledger ν :=
  (calls.foldl (recorded id) (fresh historyLength,⟨0,0,[]⟩)).2

-- What a counter has come to since the latest round, or since it was set.
def total (id : Text) (sum : ν) : StatsCall ν Q → ν
  | .setStatValue other value => if other = id then value else sum
  | .increment other value => if other = id then sum + value else sum
  | .decrement other value => if other = id then sum - value else sum
  | .addStatableQueue _ _ => sum
  | .gather _ _ => 0

def accumulated (id : Text) (calls : List (StatsCall ν Q)) : ν := calls.foldl (total id) 0

def totals (id : Text) (calls : List (StatsCall ν Q)) : List ν :=
  (calls.foldl (fun s c => (total id s.1 c,match c with | .gather _ _ => s.1 :: s.2 | _ => s.2)) ((0 : ν),[])).2

structure OneEach (historyLength : Nat) (calls : List (StatsCall ν Q)) : Prop where
  counted : ∀ id history, (after historyLength calls).gatheredStatsMap.find id = some history →
    history.length = min historyLength (ledger id historyLength calls).since
  aligned : ∀ id history, (after historyLength calls).gatheredStatsMap.find id = some history →
    ∀ i value, history[i]? = some value → ∃ round, (ledger id historyLength calls).arrivals[i]? = some (round,value) ∧
      round + i + 1 = (ledger id historyLength calls).rounds
  counters : ∀ id history, (after historyLength calls).gatheredStatsMap.find id = some history → id ≠ uptimeId →
    (tally id calls).queued = false → history <+: totals id calls

def OnePerRound (historyLength : Nat) (calls : List (StatsCall ν Q)) : Prop :=
  ∀ earlier uptime size, earlier ++ [.gather uptime size] <+: calls →
    OneEach historyLength (earlier ++ [.gather uptime size])

def Apart (historyLength : Nat) (calls : List (StatsCall ν Q)) : Prop :=
  ∀ earlier uptime size, earlier ++ [.gather uptime size] <+: calls →
    ∀ id, (tally id earlier).stated = true → (tally id earlier).queued = true →
      historyLength = 1 ∧ (tally id earlier).rounds = 0

theorem recorded_keeper (id : Text) (historyLength : Nat) (calls : List (StatsCall ν Q)) :
    (calls.foldl (recorded id) (fresh historyLength,⟨0,0,[]⟩)).1 = after historyLength calls := by
  induction calls using List.reverseRecOn with
  | nil => rfl
  | append_singleton earlier c ih =>
    rw [after_snoc,← ih,List.foldl_append]
    rfl

theorem ledger_snoc (id : Text) (historyLength : Nat) (earlier : List (StatsCall ν Q)) (c : StatsCall ν Q) :
    ledger id historyLength (earlier ++ [c]) =
      (ledger id historyLength earlier).step id (after historyLength earlier) c := by
  rw [← recorded_keeper id,ledger,List.foldl_append]
  rfl

theorem accumulated_snoc (id : Text) (earlier : List (StatsCall ν Q)) (c : StatsCall ν Q) :
    accumulated id (earlier ++ [c]) = total id (accumulated id earlier) c := by
  simp only [accumulated,List.foldl_append,List.foldl_cons,List.foldl_nil]

theorem totals_snoc (id : Text) (earlier : List (StatsCall ν Q)) (c : StatsCall ν Q) :
    totals id (earlier ++ [c]) =
      match c with
      | .gather _ _ => accumulated id earlier :: totals id earlier
      | _ => totals id earlier := by
  have sums : ∀ calls : List (StatsCall ν Q), (calls.foldl (fun s c => (total id s.1 c,match c with
      | .gather _ _ => s.1 :: s.2 | _ => s.2)) ((0 : ν),[])).1 = accumulated id calls := by
    intro calls
    induction calls using List.reverseRecOn with
    | nil => rfl
    | append_singleton earlier c ih =>
      rw [accumulated_snoc,← ih,List.foldl_append]
      rfl
  rw [← sums earlier,totals,List.foldl_append]
  rfl

theorem gather_history (k : StatsKeeper ν Q) (id : Text) (uptime : ν) (size : Q → ν) :
    (k.gather uptime size).history id = trim k.historyLength (k.brought id uptime size ++ k.history id) := by
  simp only [history,gather,brought]
  rw [OrderedMap.find_mapValues,find_pushFronts,OrderedMap.find_mapValues,find_pushFronts]
  cases k.queueStatsMap.find id <;> cases (k.statsMap.put uptimeId uptime).find id <;>
    cases k.gatheredStatsMap.find id <;> simp [trim_nil]

theorem since_after (id : Text) (historyLength : Nat) (calls : List (StatsCall ν Q)) :
    (ledger id historyLength calls).since = (tally id calls).rounds := by
  induction calls using List.reverseRecOn with
  | nil => rfl
  | append_singleton earlier c ih =>
    have tells := tells_after id historyLength earlier
    rw [ledger_snoc,tally_snoc]
    cases c with
    | gather uptime size =>
      simp only [Ledger.step,Ledger.round,Tally.step]
      rw [ih]
      rcases brought_cases _ id uptime size tells with ⟨brings,absent⟩ | ⟨⟨value,brings⟩,present⟩ |
        ⟨newer,older,brings,stated,queued⟩
      · rw [brings,absent,unseen_rounds tells absent]
        rfl
      · rw [brings,present]
        rfl
      · rw [brings,stated]
        rfl
    | _ => exact ih

theorem history_kept (k : StatsKeeper ν Q) (id : Text) {c : StatsCall ν Q} (quiet : ∀ uptime size, c ≠ .gather uptime size) :
    (k.apply c).history id = k.history id := by
  cases c with
  | gather uptime size => exact absurd rfl (quiet uptime size)
  | increment other value => simp only [apply,increment]; split <;> rfl
  | decrement other value => simp only [apply,decrement]; split <;> rfl
  | _ => rfl

theorem numbered_after (id : Text) (historyLength : Nat) (calls : List (StatsCall ν Q))
    (apart : ∀ earlier uptime size, earlier ++ [.gather uptime size] <+: calls →
      (tally id earlier).stated = true → (tally id earlier).queued = true →
        historyLength = 1 ∧ (tally id earlier).rounds = 0) :
    Numbered historyLength (ledger id historyLength calls) ((after historyLength calls).history id) := by
  induction calls using List.reverseRecOn with
  | nil => exact ⟨(Nat.min_zero historyLength).symm,fun _ _ impossible => by cases impossible⟩
  | append_singleton earlier c ih =>
    have before := ih fun first uptime size inside => apart first uptime size (inside.trans (List.prefix_append _ _))
    have tells := tells_after id historyLength earlier
    have since := since_after id historyLength earlier
    have length := historyLength_after historyLength earlier
    rw [after_snoc,ledger_snoc]
    cases c with
    | gather uptime size =>
      change Numbered historyLength ((ledger id historyLength earlier).round _)
        (((after historyLength earlier).gather uptime size).history id)
      rw [gather_history,length]
      rcases brought_cases _ id uptime size tells with ⟨brings,absent⟩ | ⟨⟨value,brings⟩,_⟩ |
        ⟨newer,older,brings,stated,queued⟩
      · have never := unseen_rounds tells absent
        rw [brings,unseen_history tells never,List.append_nil,trim_nil]
        refine ⟨?_,fun _ _ impossible => by cases impossible⟩
        simp [Ledger.round,since,never]
      · rw [brings]
        exact numbered_one before value
      · obtain ⟨rfl,never⟩ := apart earlier uptime size List.prefix_rfl stated queued
        rw [brings,unseen_history tells never,List.append_nil]
        exact numbered_two (since.trans never) newer older
    | _ =>
      rw [history_kept _ id (by simp)]
      exact before

theorem sum_apply (k : StatsKeeper ν Q) {id : Text} (own : id ≠ uptimeId) (c : StatsCall ν Q) :
    ((k.apply c).statsMap.find id).getD 0 = total id ((k.statsMap.find id).getD 0) c := by
  cases c with
  | setStatValue other value =>
    change ((k.statsMap.put other value).find id).getD 0 = if other = id then value else _
    split
    · next same => rw [same,OrderedMap.find_put_self]; rfl
    · next different => rw [OrderedMap.find_put_ne (Ne.symm different)]
  | increment other value =>
    simp only [apply,increment,total]
    by_cases same : other = id
    · subst same
      cases k.statsMap.find other <;> simp
    · cases k.statsMap.find other <;> simp [same,OrderedMap.find_put_ne (Ne.symm same)]
  | decrement other value =>
    simp only [apply,decrement,total]
    by_cases same : other = id
    · subst same
      cases k.statsMap.find other <;> simp
    · cases k.statsMap.find other <;> simp [same,OrderedMap.find_put_ne (Ne.symm same)]
  | addStatableQueue other ssq => rfl
  | gather uptime size =>
    change (((k.statsMap.put uptimeId uptime).mapValues fun _ => (0 : ν)).find id).getD 0 = 0
    rw [OrderedMap.find_mapValues,OrderedMap.find_put_ne own]
    cases k.statsMap.find id <;> rfl

theorem sum_after {id : Text} (own : id ≠ uptimeId) (historyLength : Nat) (calls : List (StatsCall ν Q)) :
    ((after historyLength calls).statsMap.find id).getD 0 = accumulated id calls := by
  induction calls using List.reverseRecOn with
  | nil => rfl
  | append_singleton earlier c ih => rw [after_snoc,accumulated_snoc,← ih,sum_apply _ own]

theorem totals_after {id : Text} (own : id ≠ uptimeId) (historyLength : Nat) (calls : List (StatsCall ν Q))
    (counter : (tally id calls).queued = false) : (after historyLength calls).history id <+: totals id calls := by
  induction calls using List.reverseRecOn with
  | nil => exact List.prefix_rfl
  | append_singleton earlier c ih =>
    have tells := tells_after id historyLength earlier
    rw [tally_snoc] at counter
    rw [after_snoc,totals_snoc]
    cases c with
    | gather uptime size =>
      have none := tells.queued.symm.trans counter
      rw [Option.isSome_eq_false_iff,Option.isNone_iff_eq_none] at none
      change ((after historyLength earlier).gather uptime size).history id <+: _
      rw [gather_history,historyLength_after,brought,none,OrderedMap.find_put_ne own,← sum_after own historyLength]
      cases stat : (after historyLength earlier).statsMap.find id with
      | none =>
        have absent : ((tally id earlier).stated || (tally id earlier).queued) = false := by
          rw [tells.stated,tells.queued,stat,none]
          simp [own]
        rw [unseen_history tells (unseen_rounds tells absent)]
        simp [trim_nil]
      | some value =>
        exact (trim_front historyLength _).trans ((List.prefix_cons_inj value).mpr (ih counter))
    | addStatableQueue other ssq =>
      rw [history_kept _ id (by simp)]
      exact ih (Bool.or_eq_false_iff.mp counter).1
    | _ =>
      rw [history_kept _ id (by simp)]
      exact ih counter

theorem both_once {id : Text} {historyLength : Nat} {earlier : List (StatsCall ν Q)} {uptime : ν} {size : Q → ν}
    (each : OneEach historyLength (earlier ++ [.gather uptime size])) (stated : (tally id earlier).stated = true)
    (queued : (tally id earlier).queued = true) : historyLength = 1 ∧ (tally id earlier).rounds = 0 := by
  have tells := tells_after id historyLength earlier
  obtain ⟨newer,older,brings⟩ := brought_both tells uptime size stated queued
  have whole : (after historyLength (earlier ++ [.gather uptime size])).history id =
      trim historyLength (newer :: older :: (after historyLength earlier).history id) := by
    rw [after_snoc]
    change ((after historyLength earlier).gather uptime size).history id = _
    rw [gather_history,historyLength_after,brings]
    rfl
  have length := congrArg List.length whole
  rw [trim_length,List.length_cons,List.length_cons] at length
  have some : (after historyLength (earlier ++ [.gather uptime size])).history id ≠ [] := by
    intro empty
    rw [empty,List.length_nil] at length
    split at length <;> omega
  have found := history_found some
  have counted := each.counted id _ found
  -- The second value that this round brought would belong to the round before.
  have single : ((after historyLength (earlier ++ [.gather uptime size])).history id).length ≤ 1 := by
    by_contra two
    obtain ⟨round,arrived,place⟩ := each.aligned id _ found 1 _ (List.getElem?_eq_getElem (Nat.lt_of_not_le two))
    rw [ledger_snoc] at arrived place
    simp only [Ledger.step,Ledger.round,brings] at arrived place
    cases arrived
    omega
  have lower := tells.lower
  have rounds := tells.rounds
  rw [historyLength_after,depth_history] at lower
  have first : historyLength = 1 ∧ ((after historyLength earlier).history id).length = 0 := by
    split at length <;> omega
  exact ⟨first.1,by omega⟩

theorem apart_each {historyLength : Nat} {calls : List (StatsCall ν Q)} (apart : Apart historyLength calls)
    {part : List (StatsCall ν Q)} (inside : part <+: calls) : OneEach historyLength part := by
  have numbered : ∀ id, Numbered historyLength (ledger id historyLength part) ((after historyLength part).history id) :=
    fun id => numbered_after id historyLength part fun earlier uptime size gathered =>
      apart earlier uptime size (gathered.trans inside) id
  refine ⟨?_,?_,?_⟩
  · intro id history found
    have own := (numbered id).counted
    rw [StatsKeeper.history,found] at own
    exact own
  · intro id history found
    have own := (numbered id).aligned
    rw [StatsKeeper.history,found] at own
    exact own
  · intro id history found own counter
    have totals := totals_after own historyLength _ counter
    rw [StatsKeeper.history,found] at totals
    exact totals

theorem history_one_per_round (historyLength : Nat) (calls : List (StatsCall ν Q)) :
    OnePerRound historyLength calls ↔ Apart historyLength calls := by
  constructor
  · intro one earlier uptime size inside id stated queued
    exact both_once (one earlier uptime size inside) stated queued
  · intro apart earlier uptime size inside
    exact apart_each apart inside

def countedQueue : List (StatsCall Int Unit) := [.increment "jobs".toList 3,.addStatableQueue "jobs".toList ()]

-- A counter and a queue of one name: two entries after one round.
theorem jobs_twice : ¬ OnePerRound 12 (countedQueue ++ [.gather 0 fun _ => 5]) := by
  intro one
  have counted := (one countedQueue 0 (fun _ => 5) List.prefix_rfl).counted "jobs".toList [5,3] (by decide +kernel)
  revert counted
  decide +kernel

end Recorded
end StatsKeeper
end Kisscpp
