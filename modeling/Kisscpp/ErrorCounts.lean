import Mathlib.Data.List.Induction
import Kisscpp.ErrorState

namespace Kisscpp
open TextLines PropertyTree DecimalText

def ErrorCall.id : ErrorCall → Text
  | .set id _ => id
  | .clear id _ => id
  | .clearAll id => id

def ErrorCall.isSet : ErrorCall → Bool
  | .set _ _ => true
  | _ => false

def LowerCase (text : Text) : Prop := toLower text = text

instance (text : Text) : Decidable (LowerCase text) := inferInstanceAs (Decidable (toLower text = text))

def ErrorCall.recount : ErrorCall → UInt32 → UInt32
  | .set _ _,count => count + 1
  | .clear _ amount,count => count - amount
  | .clearAll _,_ => 0

def ErrorCall.moves : ErrorCall → Nat → Nat
  | .set _ _,n => n + 1
  | .clear _ amount,n => n - amount.toNat
  | .clearAll _,_ => 0

def counter (calls : List ErrorCall) (id : Text) : Nat :=
  calls.foldl (fun n c => if c.id = id then c.moves n else n) 0

theorem counter_snoc (calls : List ErrorCall) (c : ErrorCall) (id : Text) :
    counter (calls ++ [c]) id = if c.id = id then c.moves (counter calls id) else counter calls id := by
  simp [counter]

theorem counter_le (calls : List ErrorCall) (id : Text) : counter calls id ≤ calls.countP ErrorCall.isSet := by
  induction calls using List.reverseRecOn with
  | nil => exact Nat.le_refl _
  | append_singleton earlier c ih =>
    rw [counter_snoc,List.countP_append,List.countP_singleton]
    split
    · cases c with
      | set other description => simp only [ErrorCall.moves,ErrorCall.isSet,if_true]; omega
      | clear other amount => simp only [ErrorCall.moves]; omega
      | clearAll other => exact Nat.zero_le _
    · omega

namespace ErrorStateList

def Keyed (list : ErrorStateList) : Prop := ∀ key e, list.find key = some e → e.id = toLower key

def Lowered (list : ErrorStateList) : Prop := ∀ key e, list.find key = some e → LowerCase key

def reported (list : ErrorStateList) : List (Text × Nat) := list.getStates.map fun e => (e.id,e.count.toNat)

theorem mem_getStates {list : ErrorStateList} {e : ErrorState} :
    e ∈ list.getStates ↔ ∃ key, list.find key = some e ∧ e.count ≠ 0 := by
  simp only [getStates,List.mem_filter,List.mem_map,Prod.exists,exists_eq_right,OrderedMap.mem_entries,ErrorState.isSet,
    decide_eq_true_eq,UInt32.pos_iff_ne_zero,exists_and_right]

theorem mem_reported {list : ErrorStateList} (keyed : Keyed list) {id : Text} {n : Nat} :
    (id,n) ∈ list.reported ↔ 0 < n ∧ ∃ key, toLower key = id ∧ (list.countAt key).toNat = n := by
  simp only [reported,List.mem_map,mem_getStates,Prod.mk.injEq]
  constructor
  · rintro ⟨e,⟨key,found,counted⟩,rfl,rfl⟩
    refine ⟨Nat.pos_of_ne_zero fun zero => counted (UInt32.toNat_inj.mp zero),key,(keyed key e found).symm,?_⟩
    rw [countAt_found found]
  · rintro ⟨positive,key,rfl,rfl⟩
    cases found : list.find key with
    | none => rw [countAt_absent found] at positive; exact absurd positive (Nat.lt_irrefl 0)
    | some e =>
      rw [countAt_found found] at positive ⊢
      refine ⟨e,⟨key,found,?_⟩,keyed key e found,rfl⟩
      intro zero
      rw [zero] at positive
      exact Nat.lt_irrefl 0 positive

theorem reported_entries (list : ErrorStateList) :
    list.reported = (list.entries.filter fun e => e.2.isSet).map fun e => (e.2.id,e.2.count.toNat) := by
  simp [reported,getStates,List.filter_map,Function.comp_def]

theorem reported_nodup {list : ErrorStateList} (keyed : Keyed list) (lowered : Lowered list) :
    (list.reported.map Prod.fst).Nodup := by
  have ids : list.reported.map Prod.fst = (list.entries.filter fun e => e.2.isSet).map Prod.fst := by
    rw [reported_entries,List.map_map]
    apply List.map_congr_left
    intro e member
    have found := OrderedMap.mem_entries.mp (List.mem_filter.mp member).1
    exact (keyed _ _ found).trans (lowered _ _ found)
  rw [ids]
  exact list.keys_nodup.sublist (List.filter_sublist.map Prod.fst)

theorem sum_set (es : List ErrorState) :
    ((es.filter ErrorState.isSet).map fun e => e.count.toNat).sum = (es.map fun e => e.count.toNat).sum := by
  induction es with
  | nil => rfl
  | cons e rest ih =>
    by_cases counted : e.isSet = true
    · rw [List.filter_cons_of_pos counted,List.map_cons,List.map_cons,List.sum_cons,List.sum_cons,ih]
    · have zero : e.count = 0 := by simpa [ErrorState.isSet] using counted
      rw [List.filter_cons_of_neg counted,List.map_cons,List.sum_cons,zero,ih]
      exact (Nat.zero_add _).symm

def total (list : ErrorStateList) : Nat := (list.entries.map fun e => e.2.count.toNat).sum

theorem total_reported (list : ErrorStateList) : (list.reported.map Prod.snd).sum = list.total := by
  have whole := sum_set (list.entries.map Prod.snd)
  simpa [reported,getStates,total,Function.comp_def] using whole

theorem total_put (list : ErrorStateList) (key : Text) (e : ErrorState) :
    total (list.put key e) + (list.countAt key).toNat = list.total + e.count.toNat := by
  have exchanged := list.sum_put (fun e => e.count.toNat) key e
  have old : (list.find key).elim 0 (fun e => e.count.toNat) = (list.countAt key).toNat := by
    rw [countAt]
    cases list.find key <;> rfl
  rwa [old] at exchanged

theorem keyed_put {list : ErrorStateList} (keyed : Keyed list) {key : Text} {e : ErrorState} (own : e.id = toLower key) :
    Keyed (list.put key e) := by
  intro other found here
  by_cases same : other = key
  · subst same
    rw [OrderedMap.find_put_self] at here
    cases here
    exact own
  · rw [OrderedMap.find_put_ne same] at here
    exact keyed other found here

theorem lowered_put {list : ErrorStateList} (lowered : Lowered list) {key : Text} (own : LowerCase key) (e : ErrorState) :
    Lowered (list.put key e) := by
  intro other found here
  by_cases same : other = key
  · rwa [same]
  · rw [OrderedMap.find_put_ne same] at here
    exact lowered other found here

theorem apply_lower {list : ErrorStateList} (keyed : Keyed list) {c : ErrorCall} (lower : LowerCase c.id) :
    ∃ e, list.apply c = some (list.put c.id e) ∧ e.id = toLower c.id ∧ e.count = c.recount (list.countAt c.id) := by
  cases c with
  | set id description =>
    change toLower id = id at lower
    simp only [apply,set,ErrorCall.id,lower]
    cases found : list.find id with
    | none => exact ⟨_,rfl,rfl,by rw [countAt_absent found]; rfl⟩
    | some e => exact ⟨e.set,rfl,(keyed id e found).trans lower,by rw [countAt_found found]; rfl⟩
  | clear id amount =>
    change toLower id = id at lower
    simp only [apply,clear,ErrorCall.id,lower]
    cases found : list.find id with
    | none => exact ⟨_,rfl,rfl,by rw [countAt_absent found]; rfl⟩
    | some e => exact ⟨e.clear amount,rfl,(keyed id e found).trans lower,by rw [countAt_found found]; rfl⟩
  | clearAll id =>
    change toLower id = id at lower
    simp only [apply,clearAll,ErrorCall.id,lower]
    cases found : list.find id with
    | none => exact ⟨_,rfl,rfl,rfl⟩
    | some e => exact ⟨e.clearAll,rfl,(keyed id e found).trans lower,rfl⟩

structure Follows (calls : List ErrorCall) (list : ErrorStateList) : Prop where
  keyed : Keyed list
  lowered : Lowered list
  counts : ∀ id, (list.countAt id).toNat = counter calls id
  total : list.total ≤ calls.countP ErrorCall.isSet

theorem follows_start : Follows [] OrderedMap.empty where
  keyed := by
    intro key e found
    simp at found
  lowered := by
    intro key e found
    simp at found
  counts := fun _ => rfl
  total := Nat.le_refl _

theorem follows_step {calls : List ErrorCall} {list : ErrorStateList} (follows : Follows calls list) {c : ErrorCall}
    (lower : LowerCase c.id) (few : (calls ++ [c]).countP ErrorCall.isSet < 2 ^ 32)
    (bounded : ∀ id amount, c = .clear id amount → amount.toNat ≤ counter calls id) :
    ∃ next, list.apply c = some next ∧ Follows (calls ++ [c]) next := by
  obtain ⟨e,stepped,own,count⟩ := apply_lower follows.keyed lower
  have here := follows.counts c.id
  have before := counter_le calls c.id
  rw [List.countP_append,List.countP_singleton] at few
  have recounted : e.count.toNat = c.moves (counter calls c.id) := by
    rw [count,← here]
    cases c with
    | set id description =>
      simp only [ErrorCall.isSet,if_true] at few
      refine (UInt32.toNat_add _ _).trans (Nat.mod_eq_of_lt ?_)
      change _ + 1 < _
      omega
    | clear id amount =>
      have within : amount ≤ list.countAt id := by
        rw [UInt32.le_iff_toNat_le]
        exact (bounded id amount rfl).trans (Nat.le_of_eq here.symm)
      exact UInt32.toNat_sub_of_le _ _ within
    | clearAll id => rfl
  refine ⟨list.put c.id e,stepped,keyed_put follows.keyed own,lowered_put follows.lowered lower e,?_,?_⟩
  · intro id
    rw [countAt_put,counter_snoc]
    by_cases same : c.id = id
    · subst same
      rw [Function.update_self,if_pos rfl,recounted]
    · rw [Function.update_of_ne (Ne.symm same),if_neg same,follows.counts]
  · have exchanged := total_put list c.id e
    have old := follows.total
    rw [recounted,here] at exchanged
    rw [List.countP_append,List.countP_singleton]
    cases c with
    | set id description => simp only [ErrorCall.moves,ErrorCall.isSet,if_true] at *; omega
    | clear id amount => simp only [ErrorCall.moves] at *; omega
    | clearAll id => simp only [ErrorCall.moves] at *; omega

theorem follows_after {calls : List ErrorCall} (lower : ∀ c ∈ calls, LowerCase c.id)
    (few : calls.countP ErrorCall.isSet < 2 ^ 32)
    (bounded : ∀ earlier id amount, earlier ++ [.clear id amount] <+: calls → amount.toNat ≤ counter earlier id)
    {earlier : List ErrorCall} (isPart : earlier <+: calls) : ∃ list, after earlier = some list ∧ Follows earlier list := by
  induction earlier using List.reverseRecOn with
  | nil => exact ⟨.empty,rfl,follows_start⟩
  | append_singleton earlier c ih =>
    obtain ⟨list,ran,follows⟩ := ih ((List.prefix_append _ _).trans isPart)
    have fewer : (earlier ++ [c]).countP ErrorCall.isSet < 2 ^ 32 :=
      Nat.lt_of_le_of_lt isPart.sublist.countP_le few
    obtain ⟨next,stepped,kept⟩ := follows_step follows (lower c (isPart.subset (by simp))) fewer
      (fun id amount clears => bounded earlier id amount (clears ▸ isPart))
    refine ⟨next,?_,kept⟩
    rw [after_snoc,ran]
    exact stepped

theorem Follows.listed {calls : List ErrorCall} {list : ErrorStateList} (follows : Follows calls list) (id : Text)
    (n : Nat) : (id,n) ∈ list.reported ↔ 0 < n ∧ counter calls id = n := by
  rw [mem_reported follows.keyed,← follows.counts id]
  refine and_congr_right fun positive => ⟨?_,?_⟩
  · rintro ⟨key,rfl,rfl⟩
    cases found : list.find key with
    | none => rw [countAt_absent found] at positive; exact absurd positive (Nat.lt_irrefl 0)
    | some e => rw [follows.lowered key e found]
  · rintro rfl
    cases found : list.find id with
    | none => rw [countAt_absent found] at positive; exact absurd positive (Nat.lt_irrefl 0)
    | some e => exact ⟨id,follows.lowered id e found,rfl⟩

theorem total_sum (es : List ErrorState) (start : UInt32) :
    (es.foldl (fun total e => total + e.count) start).toNat =
      (start.toNat + (es.map fun e => e.count.toNat).sum) % 2 ^ 32 := by
  induction es generalizing start with
  | nil => exact (Nat.mod_eq_of_lt start.toNat_lt).symm
  | cons e rest ih =>
    rw [List.foldl_cons,ih,UInt32.toNat_add,List.map_cons,List.sum_cons,Nat.mod_add_mod,Nat.add_assoc]

end ErrorStateList

open ErrorStateList

theorem errorReporter_total (list : ErrorStateList) (response : Ptree) :
    (ErrorReporter.run list response).get "error-state.total-error-count".toList =
      .ok (decimal (list.total % 2 ^ 32)) := by
  have counted := total_sum list.getStates 0
  have sum : (list.getStates.map fun e => e.count.toNat).sum = list.total := by
    rw [← total_reported,reported,List.map_map]
    rfl
  rw [sum,UInt32.toNat_zero,Nat.zero_add] at counted
  rw [ErrorReporter.run,Ptree.get_put rfl,ErrorReporter.totalErrorCount,counted]

structure ClearingSound (calls : List ErrorCall) : Prop where
  counted : ∀ earlier, earlier <+: calls → ∃ list, after earlier = some list ∧
    ∀ id, (list.countAt id).toNat = counter earlier id
  lowers : ∀ earlier id amount, earlier ++ [.clear id amount] <+: calls → ∀ list next, after earlier = some list →
    after (earlier ++ [.clear id amount]) = some next → next.countAt id ≤ list.countAt id
  unset : ∀ earlier id, earlier <+: calls → (∀ c ∈ earlier, c.isSet = true → c.id ≠ id) →
    ∀ list, after earlier = some list → ∀ e ∈ list.getStates, e.id ≠ id
  listed : ∀ earlier, earlier <+: calls → ∀ list, after earlier = some list →
    (list.reported.map Prod.fst).Nodup ∧ ∀ id n, (id,n) ∈ list.reported ↔ 0 < n ∧ counter earlier id = n
  total : ∀ earlier, earlier <+: calls → ∀ list, after earlier = some list → ∀ response,
    (ErrorReporter.run list response).get "error-state.total-error-count".toList =
      .ok (decimal (list.reported.map Prod.snd).sum)

theorem counter_unset {calls : List ErrorCall} {id : Text} (unset : ∀ c ∈ calls, c.isSet = true → c.id ≠ id) :
    counter calls id = 0 := by
  induction calls using List.reverseRecOn with
  | nil => rfl
  | append_singleton earlier c ih =>
    have before := ih fun other member => unset other (List.mem_append_left _ member)
    rw [counter_snoc,before]
    split
    · next same =>
      cases c with
      | set other description => exact absurd same (unset _ (by simp) rfl)
      | clear other amount => exact Nat.zero_sub _
      | clearAll other => rfl
    · rfl

theorem sound_bounded {calls : List ErrorCall} (lower : ∀ c ∈ calls, LowerCase c.id) (sound : ClearingSound calls)
    {earlier : List ErrorCall} {id : Text} {amount : UInt32} (isPart : earlier ++ [.clear id amount] <+: calls) :
    amount.toNat ≤ counter earlier id := by
  obtain ⟨list,ran,counts⟩ := sound.counted earlier ((List.prefix_append _ _).trans isPart)
  obtain ⟨next,ranNext,countsNext⟩ := sound.counted _ isPart
  have own : toLower id = id := lower (.clear id amount) (isPart.subset (by simp))
  have stepped : list.clear id amount = next := by
    rw [after_snoc,ran] at ranNext
    exact Option.some.inj ranNext
  have left : (list.countAt id - amount).toNat = counter earlier id - amount.toNat := by
    have same := countsNext id
    rw [← stepped,countAt_clear,own,Function.update_self,counter_snoc] at same
    rw [same]
    exact if_pos rfl
  -- More than the count wraps round to a positive number.
  by_contra excess
  have small := amount.toNat_lt
  rw [UInt32.toNat_sub,counts id] at left
  omega

theorem follows_sound {calls : List ErrorCall} (few : calls.countP ErrorCall.isSet < 2 ^ 32)
    (each : ∀ earlier, earlier <+: calls → ∃ list, after earlier = some list ∧
      ErrorStateList.Follows earlier list) : ClearingSound calls := by
  have follows {earlier : List ErrorCall} {list : ErrorStateList} (isPart : earlier <+: calls)
      (ran : after earlier = some list) : ErrorStateList.Follows earlier list := by
    obtain ⟨own,ranOwn,kept⟩ := each earlier isPart
    cases ran.symm.trans ranOwn
    exact kept
  refine ⟨?_,?_,?_,?_,?_⟩
  · intro earlier isPart
    obtain ⟨list,ran,kept⟩ := each earlier isPart
    exact ⟨list,ran,kept.counts⟩
  · intro earlier id amount isPart list next ran ranNext
    have before := (follows ((List.prefix_append _ _).trans isPart) ran).counts id
    have now := (follows isPart ranNext).counts id
    rw [counter_snoc] at now
    rw [UInt32.le_iff_toNat_le,before,now]
    exact (Nat.le_of_eq (if_pos rfl)).trans (Nat.sub_le _ _)
  · intro earlier id isPart unset list ran e member same
    have isReported : (id,e.count.toNat) ∈ list.reported := List.mem_map.mpr ⟨e,member,by rw [same]⟩
    obtain ⟨positive,counted⟩ := (follows isPart ran).listed id _ |>.mp isReported
    rw [counter_unset unset] at counted
    omega
  · intro earlier isPart list ran
    have kept := follows isPart ran
    exact ⟨reported_nodup kept.keyed kept.lowered,kept.listed⟩
  · intro earlier isPart list ran response
    have within := Nat.lt_of_le_of_lt isPart.sublist.countP_le few
    rw [errorReporter_total,total_reported,Nat.mod_eq_of_lt (Nat.lt_of_le_of_lt (follows isPart ran).total within)]

theorem clearing_sound (calls : List ErrorCall) (lower : ∀ c ∈ calls, LowerCase c.id)
    (few : calls.countP ErrorCall.isSet < 2 ^ 32) : ClearingSound calls ↔
      ∀ earlier id amount, earlier ++ [.clear id amount] <+: calls → amount.toNat ≤ counter earlier id := by
  constructor
  · intro sound earlier id amount isPart
    exact sound_bounded lower sound isPart
  · intro bounded
    refine follows_sound few ?_
    intro earlier isPart
    exact follows_after lower few bounded isPart

theorem clearing_sound_once : ClearingSound [.set "a".toList [],.clear "a".toList 1] ↔
    ∀ earlier id amount, earlier ++ [.clear id amount] <+: [.set "a".toList [],.clear "a".toList 1] →
      amount.toNat ≤ counter earlier id :=
  clearing_sound [.set "a".toList [],.clear "a".toList 1] (by decide) (by decide)

-- Clearing an id that is not set leaves four billion of it.
theorem clearing_raises : ¬ ClearingSound [.clear "a".toList 1] ∧
    (after [.clear "a".toList 1]).map reported = some [("a".toList,2 ^ 32 - 1)] := by
  refine ⟨fun sound => ?_,by decide⟩
  obtain ⟨list,ran,counts⟩ := sound.counted [.clear "a".toList 1] (List.prefix_refl _)
  have none := counts "a".toList
  cases Option.some.inj ran
  exact absurd none (by decide)

end Kisscpp
