import Mathlib.Algebra.Ring.Int.Defs
import Mathlib.Data.List.Induction
import Kisscpp.StatsKeeper

namespace Kisscpp
open TextLines
namespace StatsKeeper
variable {ν Q : Type*}

def depth (gathered : OrderedMap Text (List ν)) (id : Text) : Nat := (gathered.find id).elim 0 List.length

theorem find_pushed {es : List (Text × ν)} (distinct : (es.map Prod.fst).Nodup) (gathered : OrderedMap Text (List ν))
    (id : Text) : (es.foldl pushFront gathered).find id =
      match OrderedMap.lookup id es with
      | some value => some (value :: (gathered.find id).getD [])
      | none => gathered.find id := by
  induction es generalizing gathered with
  | nil => rfl
  | cons e rest ih =>
    obtain ⟨fresh,distinctRest⟩ := List.nodup_cons.mp distinct
    rw [List.foldl_cons,ih distinctRest,OrderedMap.lookup_cons]
    by_cases own : e.1 = id
    · subst own
      simp [OrderedMap.lookup_fresh fresh,pushFront]
    · rw [if_neg own,pushFront,OrderedMap.find_put_ne (Ne.symm own)]

theorem find_pushFronts (m : OrderedMap Text ν) (gathered : OrderedMap Text (List ν)) (id : Text) :
    (m.entries.foldl pushFront gathered).find id =
      match m.find id with
      | some value => some (value :: (gathered.find id).getD [])
      | none => gathered.find id := find_pushed m.keys_nodup gathered id

theorem depth_pushFronts (m : OrderedMap Text ν) (gathered : OrderedMap Text (List ν)) (id : Text) :
    depth (m.entries.foldl pushFront gathered) id = depth gathered id + (m.find id).isSome.toNat := by
  rw [depth,depth,find_pushFronts]
  cases m.find id with
  | none => rfl
  | some value => cases gathered.find id <;> rfl

theorem found_pushFronts (m : OrderedMap Text ν) (gathered : OrderedMap Text (List ν)) (id : Text) :
    ((m.entries.foldl pushFront gathered).find id).isSome = ((gathered.find id).isSome || (m.find id).isSome) := by
  rw [find_pushFronts]
  cases m.find id <;> simp

theorem trim_length (historyLength : Nat) (values : List ν) : (trim historyLength values).length =
    if historyLength < values.length then values.length - 1 else values.length := by
  unfold trim
  split
  · exact List.length_dropLast
  · rfl

theorem depth_trim (historyLength : Nat) (gathered : OrderedMap Text (List ν)) (id : Text) :
    depth (gathered.mapValues (trim historyLength)) id =
      if historyLength < depth gathered id then depth gathered id - 1 else depth gathered id := by
  rw [depth,depth,OrderedMap.find_mapValues]
  cases gathered.find id with
  | none => simp
  | some history =>
    exact trim_length historyLength history

-- What the calls say of one id: whether it is a statistic, whether it is a
-- queue, how often a value came in for it, and in how many rounds.
structure Tally where
  stated : Bool
  queued : Bool
  pushes : Nat
  rounds : Nat

def Tally.step (id : Text) (t : Tally) : StatsCall ν Q → Tally
  | .setStatValue other _ => {t with stated := t.stated || decide (other = id)}
  | .increment other _ => {t with stated := t.stated || decide (other = id)}
  | .decrement other _ => {t with stated := t.stated || decide (other = id)}
  | .addStatableQueue other _ => {t with queued := t.queued || decide (other = id)}
  | .gather _ _ =>
    {t with
      pushes := t.pushes + t.stated.toNat + t.queued.toNat
      rounds := t.rounds + (t.stated || t.queued).toNat}

-- The uptime is a statistic of its own in every round.
def tally (id : Text) (calls : List (StatsCall ν Q)) : Tally :=
  calls.foldl (Tally.step id) ⟨decide (id = uptimeId),false,0,0⟩

structure Tells (id : Text) (k : StatsKeeper ν Q) (t : Tally) : Prop where
  stated : t.stated = ((k.statsMap.find id).isSome || decide (id = uptimeId))
  queued : t.queued = (k.queueStatsMap.find id).isSome
  gathered : (k.gatheredStatsMap.find id).isSome = decide (0 < t.rounds)
  kept : 0 < t.rounds → (t.stated || t.queued) = true
  rounds : t.rounds ≤ t.pushes
  upper : depth k.gatheredStatsMap id ≤ t.pushes
  lower : min t.pushes k.historyLength ≤ depth k.gatheredStatsMap id
  short : k.historyLength = 0 → depth k.gatheredStatsMap id + t.rounds = t.pushes

theorem tells_fresh (id : Text) (historyLength : Nat) :
    Tells id (fresh historyLength : StatsKeeper ν Q) ⟨decide (id = uptimeId),false,0,0⟩ where
  stated := rfl
  queued := rfl
  gathered := rfl
  kept := fun impossible => absurd impossible (Nat.lt_irrefl 0)
  rounds := Nat.le_refl _
  upper := Nat.le_refl _
  lower := by simp
  short := fun _ => rfl

theorem isSome_put (m : OrderedMap Text ν) (other : Text) (value : ν) (id : Text) :
    ((m.put other value).find id).isSome = ((m.find id).isSome || decide (other = id)) := by
  by_cases same : id = other
  · subst same
    simp
  · simp [OrderedMap.find_put_ne same,Ne.symm same]

section Round
variable {id : Text} {k : StatsKeeper ν Q} {t : Tally} (tells : Tells id k t) (uptime : ν) (size : Q → ν)
include tells

theorem stats_found : ((k.statsMap.put uptimeId uptime).find id).isSome = t.stated := by
  rw [isSome_put,tells.stated]
  simp only [eq_comm]

theorem queues_found : ((k.queueStatsMap.mapValues size).find id).isSome = t.queued := by
  rw [OrderedMap.find_mapValues,Option.isSome_map,tells.queued]

variable [Zero ν]

theorem depth_gather : depth (k.gather uptime size).gatheredStatsMap id =
    if k.historyLength < depth k.gatheredStatsMap id + t.stated.toNat + t.queued.toNat then
      depth k.gatheredStatsMap id + t.stated.toNat + t.queued.toNat - 1
    else depth k.gatheredStatsMap id + t.stated.toNat + t.queued.toNat := by
  simp only [gather]
  rw [depth_trim,depth_pushFronts,depth_pushFronts,stats_found tells uptime,queues_found tells size]

theorem found_gather : ((k.gather uptime size).gatheredStatsMap.find id).isSome =
    (decide (0 < t.rounds) || t.stated || t.queued) := by
  simp only [gather]
  rw [OrderedMap.find_mapValues,Option.isSome_map,found_pushFronts,found_pushFronts,stats_found tells uptime,
    queues_found tells size,tells.gathered]

theorem stated_gather : ((k.gather uptime size).statsMap.find id).isSome = t.stated := by
  simp only [gather]
  rw [OrderedMap.find_mapValues,Option.isSome_map,stats_found tells uptime]

theorem short_gather (zero : k.historyLength = 0) : depth (k.gather uptime size).gatheredStatsMap id +
    (t.rounds + (t.stated || t.queued).toNat) = t.pushes + t.stated.toNat + t.queued.toNat := by
  have old := tells.short zero
  cases either : t.stated || t.queued with
  | true =>
    have one : 0 < t.stated.toNat + t.queued.toNat := by
      rcases (Bool.or_eq_true _ _).mp either with known | known
      · rw [known,Bool.toNat_true]; omega
      · rw [known,Bool.toNat_true]; omega
    rw [depth_gather tells,zero,Bool.toNat_true]
    split <;> omega
  | false =>
    obtain ⟨unstated,unqueued⟩ := Bool.or_eq_false_iff.mp either
    have nothing : depth k.gatheredStatsMap id = 0 := by
      have never : ¬ 0 < t.rounds := by
        intro positive
        rw [tells.kept positive] at either
        cases either
      have absent := tells.gathered
      rw [decide_eq_false never,Option.isSome_eq_false_iff,Option.isNone_iff_eq_none] at absent
      rw [depth,absent]
      rfl
    rw [nothing,Nat.zero_add] at old
    rw [depth_gather tells,nothing,unstated,unqueued,old]
    simp

theorem tells_gather : Tells id (k.gather uptime size) (t.step id (.gather uptime size : StatsCall ν Q)) := by
  have before := tells.rounds
  have upper := tells.upper
  have lower := tells.lower
  refine ⟨?_,tells.queued,?_,?_,?_,?_,?_,short_gather tells uptime size⟩
  · have own := tells.stated
    change t.stated = _
    rw [stated_gather tells]
    cases known : t.stated with
    | true => rfl
    | false =>
      rw [known] at own
      simpa using (Bool.or_eq_false_iff.mp own.symm).2
  · rw [found_gather tells]
    change _ = decide (0 < t.rounds + (t.stated || t.queued).toNat)
    cases t.stated <;> cases t.queued <;> simp
  · intro positive
    change 0 < t.rounds + (t.stated || t.queued).toNat at positive
    change (t.stated || t.queued) = true
    cases either : t.stated || t.queued with
    | true => rfl
    | false =>
      rw [either] at positive
      exact either.symm.trans (tells.kept positive)
  · change t.rounds + (t.stated || t.queued).toNat ≤ t.pushes + t.stated.toNat + t.queued.toNat
    cases t.stated <;> cases t.queued <;> simp <;> omega
  · change _ ≤ t.pushes + t.stated.toNat + t.queued.toNat
    rw [depth_gather tells]
    split <;> omega
  · change min (t.pushes + t.stated.toNat + t.queued.toNat) k.historyLength ≤ _
    rw [depth_gather tells]
    split <;> omega

end Round

theorem tells_put {id : Text} {k : StatsKeeper ν Q} {t : Tally} (tells : Tells id k t) (other : Text) (value : ν) :
    Tells id {k with statsMap := k.statsMap.put other value} {t with stated := t.stated || decide (other = id)} := by
  obtain ⟨stated,queued,gathered,kept,rounds,upper,lower,short⟩ := tells
  refine ⟨?_,queued,gathered,?_,rounds,upper,lower,short⟩
  · change (t.stated || decide (other = id)) = (((k.statsMap.put other value).find id).isSome || decide (id = uptimeId))
    rw [isSome_put,stated,Bool.or_right_comm]
  · intro positive
    change ((t.stated || decide (other = id)) || t.queued) = true
    rw [Bool.or_right_comm,kept positive]
    rfl

theorem tells_step [Zero ν] [Add ν] [Sub ν] {id : Text} {k : StatsKeeper ν Q} {t : Tally} (tells : Tells id k t)
    (c : StatsCall ν Q) : Tells id (k.apply c) (t.step id c) := by
  cases c with
  | setStatValue other value => exact tells_put tells other value
  | increment other value =>
    simp only [apply,increment]
    split
    · exact tells_put tells other _
    · exact tells_put tells other _
  | decrement other value =>
    simp only [apply,decrement]
    split
    · exact tells_put tells other _
    · exact tells_put tells other _
  | addStatableQueue other ssq =>
    obtain ⟨stated,queued,gathered,kept,rounds,upper,lower,short⟩ := tells
    refine ⟨stated,?_,gathered,?_,rounds,upper,lower,short⟩
    · change (t.queued || decide (other = id)) = ((k.queueStatsMap.put other ssq).find id).isSome
      rw [isSome_put,queued]
    · intro positive
      change (t.stated || (t.queued || decide (other = id))) = true
      rw [← Bool.or_assoc,kept positive]
      rfl
  | gather uptime size => exact tells_gather tells uptime size

theorem tally_snoc (id : Text) (earlier : List (StatsCall ν Q)) (c : StatsCall ν Q) :
    tally id (earlier ++ [c]) = (tally id earlier).step id c := by
  simp only [tally,List.foldl_append,List.foldl_cons,List.foldl_nil]

theorem after_snoc [Zero ν] [Add ν] [Sub ν] (historyLength : Nat) (earlier : List (StatsCall ν Q)) (c : StatsCall ν Q) :
    after historyLength (earlier ++ [c]) = (after historyLength earlier).apply c := by
  simp only [after,List.foldl_append,List.foldl_cons,List.foldl_nil]

theorem tells_after [Zero ν] [Add ν] [Sub ν] (id : Text) (historyLength : Nat) (calls : List (StatsCall ν Q)) :
    Tells id (after historyLength calls) (tally id calls) := by
  induction calls using List.reverseRecOn with
  | nil => exact tells_fresh id historyLength
  | append_singleton earlier c ih =>
    rw [after_snoc,tally_snoc]
    exact tells_step ih c

theorem historyLength_after [Zero ν] [Add ν] [Sub ν] (historyLength : Nat) (calls : List (StatsCall ν Q)) :
    (after historyLength calls).historyLength = historyLength := by
  induction calls using List.reverseRecOn with
  | nil => rfl
  | append_singleton earlier c ih =>
    have same : ((after historyLength earlier).apply c).historyLength = (after historyLength earlier).historyLength := by
      cases c with
      | increment other value => simp only [apply,increment]; split <;> rfl
      | decrement other value => simp only [apply,decrement]; split <;> rfl
      | _ => rfl
    rw [after_snoc]
    exact same.trans ih

theorem depth_found {gathered : OrderedMap Text (List ν)} {id : Text} {history : List ν}
    (found : gathered.find id = some history) : depth gathered id = history.length := by rw [depth,found]; rfl

theorem tells_entry [Zero ν] [Add ν] [Sub ν] {historyLength : Nat} {calls : List (StatsCall ν Q)} {id : Text}
    {history : List ν} (entry : (id,history) ∈ (after historyLength calls).gatheredStatsMap.entries) :
    0 < (tally id calls).rounds ∧ min (tally id calls).pushes historyLength ≤ history.length ∧
      (historyLength = 0 → history.length + (tally id calls).rounds = (tally id calls).pushes) := by
  have found := OrderedMap.mem_entries.mp entry
  have length := historyLength_after historyLength calls
  have tells := tells_after id historyLength calls
  have gathered := tells.gathered
  have lower := tells.lower
  have short := tells.short
  rw [found] at gathered
  rw [depth_found found,length] at lower
  rw [depth_found found,length] at short
  exact ⟨of_decide_eq_true gathered.symm,lower,short⟩

section Accesses
variable [Zero ν] [Add ν] [Sub ν] {historyLength : Nat} {calls : List (StatsCall ν Q)}

theorem inside_often (inside : ∀ a ∈ (after historyLength calls).fullAccesses ++ (after historyLength calls).lastAccesses,
      a.Inside) (id : Text) (positive : 0 < (tally id calls).rounds) :
    min historyLength (2 ^ 32) ≤ (tally id calls).pushes ∧
      (historyLength = 0 → (tally id calls).rounds < (tally id calls).pushes) := by
  have length := historyLength_after historyLength calls
  have tells := tells_after id historyLength calls
  obtain ⟨history,found⟩ : ∃ history, (after historyLength calls).gatheredStatsMap.find id = some history := by
    apply Option.isSome_iff_exists.mp
    rw [tells.gathered,decide_eq_true positive]
  have member := OrderedMap.mem_entries.mpr found
  have deep := depth_found found
  constructor
  · by_contra few
    have last : min historyLength (2 ^ 32) - 1 ∈ indices (after historyLength calls).historyLength := by
      rw [length,indices,List.mem_range]
      omega
    have access := inside _ (List.mem_append_left _ (List.mem_flatMap.mpr ⟨_,member,List.mem_map.mpr ⟨_,last,rfl⟩⟩))
    have upper := tells.upper
    rw [deep] at upper
    change min historyLength (2 ^ 32) - 1 < history.length at access
    omega
  · intro zero
    have access := inside _ (List.mem_append_right _ (List.mem_map.mpr ⟨_,member,rfl⟩))
    change 0 < history.length at access
    have short := tells.short (length.trans zero)
    omega

theorem often_inside (often : ∀ id, 0 < (tally id calls).rounds → min historyLength (2 ^ 32) ≤ (tally id calls).pushes ∧
      (historyLength = 0 → (tally id calls).rounds < (tally id calls).pushes)) {a : Access ν}
    (member : a ∈ (after historyLength calls).fullAccesses ++ (after historyLength calls).lastAccesses) : a.Inside := by
  rcases List.mem_append.mp member with full | last
  · obtain ⟨⟨id,history⟩,inMap,inIndices⟩ := List.mem_flatMap.mp full
    obtain ⟨i,isIndex,rfl⟩ := List.mem_map.mp inIndices
    obtain ⟨positive,lower,_⟩ := tells_entry inMap
    have enough := (often id positive).1
    rw [historyLength_after,indices,List.mem_range] at isIndex
    change i < history.length
    omega
  · obtain ⟨⟨id,history⟩,inMap,rfl⟩ := List.mem_map.mp last
    obtain ⟨positive,lower,short⟩ := tells_entry inMap
    obtain ⟨enough,more⟩ := often id positive
    have rounds := (tells_after id historyLength calls).rounds
    change 0 < history.length
    by_cases zero : historyLength = 0
    · have exceeds := more zero
      have left := short zero
      omega
    · omega

end Accesses

theorem accesses_inside [Zero ν] [Add ν] [Sub ν] (historyLength : Nat) (calls : List (StatsCall ν Q)) :
    (∀ a ∈ (after historyLength calls).fullAccesses ++ (after historyLength calls).lastAccesses, a.Inside) ↔
      ∀ id, 0 < (tally id calls).rounds → min historyLength (2 ^ 32) ≤ (tally id calls).pushes ∧
        (historyLength = 0 → (tally id calls).rounds < (tally id calls).pushes) := by
  constructor
  · intro inside id positive
    exact inside_often inside id positive
  · intro often a member
    exact often_inside often member

def oneRound : List (StatsCall Int Unit) := [.gather 0 fun _ => 0]

-- The first round leaves one value of the uptime, or none; the full report
-- reads the default twelve, and the last report the first.
theorem first_round_outside :
    ¬ (∀ a ∈ (after 12 oneRound).fullAccesses ++ (after 12 oneRound).lastAccesses, a.Inside) ∧
    (after 12 oneRound).getFullStatsHistory.isSome = false ∧ (after 0 oneRound).getLastGatheredStats.isSome = false := by
  refine ⟨?_,by decide +kernel,by decide +kernel⟩
  decide +kernel

end StatsKeeper
end Kisscpp
