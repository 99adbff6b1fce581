import Mathlib
import Kisscpp.Spellings
import Kisscpp.ErrorCounts

namespace Kisscpp
open TextLines PropertyTree Spellings

theorem lowerCase_toLower (text : Text) : LowerCase (toLower text) := by
  simp only [LowerCase,toLower,List.map_map]
  apply List.map_congr_left
  intro c _
  exact Char.toLower_toLower_eq_toLower c

def ErrorCall.lowered : ErrorCall → ErrorCall
  | .set id description => .set (toLower id) description
  | .clear id amount => .clear (toLower id) amount
  | .clearAll id => .clearAll (toLower id)

def ErrorEvent.lowered : ErrorEvent → ErrorEvent
  | .call c => .call c.lowered
  | .errclear request =>
    match request.get ErrorCleaner.idPath with
    | .error _ => .errclear request
    | .ok id => .errclear (request.put ErrorCleaner.idPath (toLower id))

@[simp] theorem ErrorCall.id_lowered (c : ErrorCall) : c.lowered.id = toLower c.id := by cases c <;> rfl

theorem asks_lowered (conv : Conversions) (event : ErrorEvent) :
    event.lowered.asks conv = (event.asks conv).map ErrorCall.lowered := by
  cases event with
  | call c => rfl
  | errclear request =>
    cases got : request.get ErrorCleaner.idPath with
    | error e => simp only [ErrorEvent.lowered,ErrorEvent.asks,got,Option.map_none]
    | ok id =>
      have there : (Ptree.walk (reduced ErrorCleaner.idPath) request).isSome := by
        rw [Ptree.get,Ptree.getChild] at got
        cases walked : Ptree.walk (reduced ErrorCleaner.idPath) request with
        | none => rw [walked] at got; cases got
        | some found => rfl
      have different : reduced ErrorCleaner.countPath ≠ reduced ErrorCleaner.idPath := by decide
      obtain ⟨sameGet,sameGetD⟩ := Ptree.get_put_elsewhere (toLower id) there different
      have put : (request.put ErrorCleaner.idPath (toLower id)).get ErrorCleaner.idPath = .ok (toLower id) :=
        Ptree.get_put rfl _ _
      have twice : toLower (toLower id) = toLower id := lowerCase_toLower id
      simp only [ErrorEvent.lowered,ErrorEvent.asks,got,put,sameGet,sameGetD,twice]
      split
      · simp only [Option.map_some,ErrorCall.lowered,twice]
      · cases request.get ErrorCleaner.countPath with
        | error e => rfl
        | ok text => simp only [Option.map_map,Function.comp_def,ErrorCall.lowered,twice]

namespace ErrorStateList

def Reports (list : ErrorStateList) (id : Text) (n : Nat) : Prop := ∀ m, (id,m) ∈ list.reported ↔ 0 < m ∧ m = n

-- A call that the spellings in the map do not mislead.
def Fits (list : ErrorStateList) : ErrorCall → Prop
  | .set id _ => Alone toLower list.countAt id ∧ (list.countAt id).toNat + 1 < 2 ^ 32 ∧
      if (list.find (toLower id)).isSome then (list.find id).isSome = true else list.countAt id = 0
  | .clear id amount => Alone toLower list.countAt (toLower id) ∨ amount = 0
  | .clearAll id => Alone toLower list.countAt (toLower id)

theorem keyed_apply {list next : ErrorStateList} (keyed : Keyed list) {c : ErrorCall}
    (stepped : list.apply c = some next) : Keyed next := by
  cases c with
  | set id description =>
    simp only [apply,set] at stepped
    split at stepped
    · obtain ⟨e,found,rfl⟩ := Option.map_eq_some_iff.mp stepped
      exact keyed_put keyed (keyed id e found)
    · cases Option.some.inj stepped
      exact keyed_put keyed rfl
  | clear id amount =>
    cases Option.some.inj stepped
    unfold clear
    dsimp only
    split
    · next e found => exact keyed_put keyed (keyed _ e found)
    · exact keyed_put keyed (lowerCase_toLower id).symm
  | clearAll id =>
    cases Option.some.inj stepped
    unfold clearAll
    dsimp only
    split
    · next e found => exact keyed_put keyed (keyed _ e found)
    · exact keyed_put keyed (lowerCase_toLower id).symm

theorem mem_reported_count {list : ErrorStateList} (keyed : Keyed list) {id : Text} {c : UInt32} (counts : c ≠ 0) :
    (id,c.toNat) ∈ list.reported ↔ ∃ key, toLower key = id ∧ list.countAt key = c := by
  rw [mem_reported keyed]
  have positive : 0 < c.toNat := Nat.pos_of_ne_zero fun zero => counts (UInt32.toNat_inj.mp zero)
  simp only [positive,true_and,UInt32.toNat_inj]

theorem mem_reported_lowered {list : ErrorStateList} (keyed : Keyed list) (lowered : Lowered list) {id : Text}
    {c : UInt32} (counts : c ≠ 0) : (id,c.toNat) ∈ list.reported ↔ list.countAt id = c := by
  have isKey {key : Text} (same : list.countAt key = c) : toLower key = key := by
    cases found : list.find key with
    | none => exact absurd (same.symm.trans (countAt_absent found)) counts
    | some e => exact lowered key e found
  rw [mem_reported_count keyed counts]
  constructor
  · rintro ⟨key,rfl,same⟩
    rwa [isKey same]
  · intro same
    exact ⟨id,isKey same,same⟩

theorem reported_count {list : ErrorStateList} {p : Text × Nat} (member : p ∈ list.reported) :
    ∃ c : UInt32, c ≠ 0 ∧ p.2 = c.toNat := by
  obtain ⟨e,isState,rfl⟩ := List.mem_map.mp member
  obtain ⟨_,_,counts⟩ := mem_getStates.mp isState
  exact ⟨e.count,counts,rfl⟩

theorem counted_entry {list : ErrorStateList} {key : Text} (counts : list.countAt key ≠ 0) :
    ∃ e, (key,e) ∈ list.entries.filter (fun e => e.2.isSet) ∧ list.find key = some e := by
  cases found : list.find key with
  | none => exact absurd (countAt_absent found) counts
  | some e =>
    rw [countAt_found found] at counts
    refine ⟨e,List.mem_filter.mpr ⟨OrderedMap.mem_entries.mpr found,?_⟩,rfl⟩
    simpa [ErrorState.isSet,UInt32.pos_iff_ne_zero] using counts

theorem entry_counts {list : ErrorStateList} {key : Text} {e : ErrorState}
    (inside : (key,e) ∈ list.entries.filter fun e => e.2.isSet) : list.countAt key ≠ 0 := by
  obtain ⟨member,isSet⟩ := List.mem_filter.mp inside
  rw [countAt_found (OrderedMap.mem_entries.mp member)]
  simpa [ErrorState.isSet,UInt32.pos_iff_ne_zero] using isSet

theorem reported_distinct {raw low : ErrorStateList} (keyed : Keyed raw)
    (agrees : Agrees toLower raw.countAt low.countAt) : raw.reported.Nodup := by
  rw [reported_entries]
  refine List.Nodup.map_on ?_ (raw.keys_nodup.of_map _ |>.filter _)
  rintro ⟨k,e⟩ member ⟨k',e'⟩ member' equal
  have found := OrderedMap.mem_entries.mp (List.mem_filter.mp member).1
  have found' := OrderedMap.mem_entries.mp (List.mem_filter.mp member').1
  have spelled : toLower k = toLower k' := by
    rw [← keyed k e found,← keyed k' e' found']
    exact (Prod.mk.inj equal).1
  obtain rfl := agrees.single k k' spelled (entry_counts member) (entry_counts member')
  rw [found] at found'
  rw [Option.some.inj found']

theorem agrees_of_reported {raw low : ErrorStateList} (keyedRaw : Keyed raw) (keyedLow : Keyed low)
    (lowered : Lowered low) (same : raw.reported.Perm low.reported) : Agrees toLower raw.countAt low.countAt := by
  constructor
  · intro k k' spelled countsK countsK'
    have ids : (raw.reported.map Prod.fst).Nodup :=
      (same.map Prod.fst).nodup_iff.mpr (reported_nodup keyedLow lowered)
    rw [reported_entries,List.map_map] at ids
    obtain ⟨e,member,found⟩ := counted_entry countsK
    obtain ⟨e',member',found'⟩ := counted_entry countsK'
    have equal : e.id = e'.id := by rw [keyedRaw k e found,keyedRaw k' e' found',spelled]
    exact (Prod.mk.inj (List.inj_on_of_nodup_map ids member member' equal)).1
  · intro id c counts
    rw [← mem_reported_count keyedRaw counts,same.mem_iff]
    exact mem_reported_lowered keyedLow lowered counts

theorem perm_agrees {raw low : ErrorStateList} (keyedRaw : Keyed raw) (keyedLow : Keyed low) (lowered : Lowered low) :
    raw.reported.Perm low.reported ↔ Agrees toLower raw.countAt low.countAt := by
  refine ⟨agrees_of_reported keyedRaw keyedLow lowered,fun agrees => ?_⟩
  have distinct := reported_distinct keyedRaw agrees
  refine (List.perm_ext_iff_of_nodup distinct ((reported_nodup keyedLow lowered).of_map _)).mpr ?_
  rintro ⟨id,n⟩
  constructor
  · intro member
    obtain ⟨c,counts,rfl⟩ := reported_count member
    exact (mem_reported_lowered keyedLow lowered counts).mpr ((agrees.counted id c counts).mp
      ((mem_reported_count keyedRaw counts).mp member))
  · intro member
    obtain ⟨c,counts,rfl⟩ := reported_count member
    exact (mem_reported_count keyedRaw counts).mpr ((agrees.counted id c counts).mpr
      ((mem_reported_lowered keyedLow lowered counts).mp member))

theorem count_succ_ne (x : UInt32) : x + 1 ≠ x := by
  intro same
  have counts := congrArg UInt32.toNat same
  have small := x.toNat_lt
  rw [UInt32.toNat_add,UInt32.toNat_one] at counts
  omega

theorem set_agrees {raw low next : ErrorStateList} (agrees : Agrees toLower raw.countAt low.countAt) {id : Text}
    (twin : next.countAt = Function.update low.countAt (toLower id) (low.countAt (toLower id) + 1)) (description : Text) :
    (∃ raw', raw.set id description = some raw' ∧ Agrees toLower raw'.countAt next.countAt) ∧
      (low.countAt (toLower id)).toNat + 1 < 2 ^ 32 ↔ raw.Fits (.set id description) := by
  have moved (a : UInt32) : Agrees toLower (Function.update raw.countAt id a) next.countAt ↔
      Alone toLower raw.countAt id ∧ a = raw.countAt id + 1 := by
    rw [twin,agrees_update agrees]
    constructor
    · rintro (⟨alone,same⟩ | ⟨_,_,same⟩)
      · exact ⟨alone,by rw [same,agrees.alone alone]⟩
      · exact absurd same (count_succ_ne _)
    · rintro ⟨alone,same⟩
      exact .inl ⟨alone,by rw [same,agrees.alone alone]⟩
  by_cases known : (raw.find (toLower id)).isSome
  · obtain ⟨made,counts⟩ := set_known description known
    rw [Fits,if_pos known,← made]
    constructor
    · rintro ⟨⟨raw',stepped,now⟩,room⟩
      rw [counts raw' stepped,moved] at now
      exact ⟨now.1,by rwa [← agrees.alone now.1],by rw [stepped]; rfl⟩
    · rintro ⟨alone,room,present⟩
      obtain ⟨raw',stepped⟩ := Option.isSome_iff_exists.mp present
      refine ⟨⟨raw',stepped,?_⟩,by rwa [agrees.alone alone]⟩
      rw [counts raw' stepped,moved]
      exact ⟨alone,rfl⟩
  · obtain ⟨raw',stepped,counts⟩ := set_unknown description (by simpa using known)
    rw [Fits,if_neg known]
    have one : (1 : UInt32) = raw.countAt id + 1 ↔ raw.countAt id = 0 := by
      constructor
      · intro same
        exact (UInt32.add_left_inj 1).mp ((UInt32.zero_add 1).trans same).symm
      · intro zero
        rw [zero,UInt32.zero_add]
    constructor
    · rintro ⟨⟨other,ran,now⟩,room⟩
      cases stepped.symm.trans ran
      rw [counts,moved,one] at now
      exact ⟨now.1,by rwa [← agrees.alone now.1],now.2⟩
    · rintro ⟨alone,room,zero⟩
      refine ⟨⟨raw',stepped,?_⟩,by rwa [agrees.alone alone]⟩
      rw [counts,moved,one]
      exact ⟨alone,zero⟩

theorem clear_agrees {raw low next : ErrorStateList} (agrees : Agrees toLower raw.countAt low.countAt) {id : Text}
    {amount : UInt32}
    (twin : next.countAt = Function.update low.countAt (toLower id) (low.countAt (toLower id) - amount)) :
    Agrees toLower (raw.clear id amount).countAt next.countAt ↔ raw.Fits (.clear id amount) := by
  have moved := agrees_update agrees (toLower id) (raw.countAt (toLower id) - amount) (low.countAt (toLower id) - amount)
  rw [lowerCase_toLower id] at moved
  rw [countAt_clear,twin,moved,Fits]
  by_cases alone : Alone toLower raw.countAt (toLower id)
  · have same := agrees.alone alone
    rw [lowerCase_toLower id] at same
    simp [alone,same]
  · have zero := (agrees.not_alone alone).1
    simp only [alone,false_and,not_false_eq_true,true_and,false_or,zero]
    constructor
    · rintro ⟨negative,_⟩
      rw [UInt32.sub_eq_iff_eq_add,UInt32.zero_add] at negative
      exact negative.symm
    · rintro rfl
      simp

theorem clearAll_agrees {raw low next : ErrorStateList} (agrees : Agrees toLower raw.countAt low.countAt) {id : Text}
    (twin : next.countAt = Function.update low.countAt (toLower id) 0) :
    Agrees toLower (raw.clearAll id).countAt next.countAt ↔ raw.Fits (.clearAll id) := by
  have moved := agrees_update agrees (toLower id) 0 0
  rw [lowerCase_toLower id] at moved
  rw [countAt_clearAll,twin,moved,Fits]
  by_cases alone : Alone toLower raw.countAt (toLower id)
  · simp [alone]
  · have counts := (agrees.not_alone alone).2
    rw [lowerCase_toLower id] at counts
    simp [alone,counts.symm]

theorem apply_agrees {raw low next : ErrorStateList} (agrees : Agrees toLower raw.countAt low.countAt) {c : ErrorCall}
    (twin : next.countAt = Function.update low.countAt (toLower c.id) (c.recount (low.countAt (toLower c.id)))) :
    (∃ raw', raw.apply c = some raw' ∧ Agrees toLower raw'.countAt next.countAt) ∧
      (c.isSet = true → (low.countAt (toLower c.id)).toNat + 1 < 2 ^ 32) ↔ raw.Fits c := by
  cases c with
  | set id description =>
    refine Iff.trans ?_ (@set_agrees _ _ _ agrees id twin description)
    simp [apply,ErrorCall.isSet,ErrorCall.id]
  | clear id amount =>
    refine Iff.trans ?_ (@clear_agrees _ _ _ agrees id amount twin)
    simp [apply,ErrorCall.isSet]
  | clearAll id =>
    refine Iff.trans ?_ (@clearAll_agrees _ _ _ agrees id twin)
    simp [apply,ErrorCall.isSet]

theorem keyed_handle {conv : Conversions} {list next : ErrorStateList} (keyed : Keyed list) {event : ErrorEvent}
    (stepped : list.handle conv event = some next) : Keyed next := by
  rw [handle_asks] at stepped
  cases asked : event.asks conv with
  | none =>
    rw [asked] at stepped
    cases Option.some.inj stepped
    exact keyed
  | some c =>
    rw [asked] at stepped
    exact keyed_apply keyed stepped

theorem keyed_after {conv : Conversions} {events : List ErrorEvent} {list : ErrorStateList}
    (ran : afterEvents conv events = some list) : Keyed list := by
  induction events using List.reverseRecOn generalizing list with
  | nil =>
    cases Option.some.inj ran
    intro key e found
    simp at found
  | append_singleton earlier event ih =>
    rw [afterEvents_snoc] at ran
    obtain ⟨before,ranBefore,stepped⟩ := Option.bind_eq_some_iff.mp ran
    exact keyed_handle (ih ranBefore) stepped

theorem twin_step {low : ErrorStateList} (keyed : Keyed low) (lowered : Lowered low) (conv : Conversions)
    (event : ErrorEvent) : ∃ next, low.handle conv event.lowered = some next ∧ Keyed next ∧ Lowered next ∧
      (event.asks conv = none → next = low) ∧ ∀ c, event.asks conv = some c →
        next.countAt = Function.update low.countAt (toLower c.id) (c.recount (low.countAt (toLower c.id))) := by
  rw [handle_asks,asks_lowered]
  cases asked : event.asks conv with
  | none => exact ⟨low,rfl,keyed,lowered,fun _ => rfl,fun c other => by cases other⟩
  | some c =>
    have isLower : LowerCase c.lowered.id := by
      rw [ErrorCall.id_lowered]
      exact lowerCase_toLower c.id
    obtain ⟨e,stepped,own,count⟩ := apply_lower keyed isLower
    have same : c.lowered.recount = c.recount := by cases c <;> rfl
    rw [same,ErrorCall.id_lowered] at count
    refine ⟨low.put c.lowered.id e,stepped,keyed_put keyed own,lowered_put lowered isLower e,by simp,?_⟩
    intro other equal
    cases equal
    rw [countAt_put,count,ErrorCall.id_lowered]

theorem twin_after (conv : Conversions) (events : List ErrorEvent) :
    ∃ low, afterEvents conv (events.map ErrorEvent.lowered) = some low ∧ Keyed low ∧ Lowered low := by
  induction events using List.reverseRecOn with
  | nil =>
    refine ⟨.empty,rfl,?_,?_⟩
    · intro key e found
      simp at found
    · intro key e found
      simp at found
  | append_singleton earlier event ih =>
    obtain ⟨low,ran,keyed,lowered⟩ := ih
    obtain ⟨next,stepped,keyedNext,loweredNext,_⟩ := twin_step keyed lowered conv event
    refine ⟨next,?_,keyedNext,loweredNext⟩
    rw [List.map_append,List.map_singleton,afterEvents_snoc,ran]
    exact stepped

theorem handle_agrees {conv : Conversions} {raw low next : ErrorStateList} (keyed : Keyed low) (lowered : Lowered low)
    (agrees : Agrees toLower raw.countAt low.countAt) {event : ErrorEvent}
    (twin : low.handle conv event.lowered = some next) :
    (∃ raw', raw.handle conv event = some raw' ∧ Agrees toLower raw'.countAt next.countAt) ∧
      (∀ c, event.asks conv = some c → c.isSet = true → (low.countAt (toLower c.id)).toNat + 1 < 2 ^ 32) ↔
      ∀ c, event.asks conv = some c → raw.Fits c := by
  obtain ⟨own,stepped,_,_,still,moved⟩ := twin_step keyed lowered conv event
  cases stepped.symm.trans twin
  rw [handle_asks]
  cases asked : event.asks conv with
  | none =>
    have unchanged := still asked
    subst unchanged
    simpa using agrees
  | some c => simpa using apply_agrees agrees (moved c asked)

theorem reports_unique {list : ErrorStateList} {id : Text} {n k : Nat} (first : Reports list id n)
    (second : Reports list id k) : n = k := by
  have both (m : Nat) : 0 < m ∧ m = n ↔ 0 < m ∧ m = k := (first m).symm.trans (second m)
  have atN := both n
  have atK := both k
  omega

theorem reports_perm {raw low : ErrorStateList} (same : raw.reported.Perm low.reported) {id : Text} {n : Nat}
    (reports : Reports low id n) : Reports raw id n := fun m => same.mem_iff.trans (reports m)

theorem reports_lowered {low : ErrorStateList} (keyed : Keyed low) (lowered : Lowered low) {id : Text}
    (isLower : LowerCase id) : Reports low id (low.countAt id).toNat := by
  intro m
  rw [mem_reported keyed]
  refine and_congr_right fun positive => ⟨?_,?_⟩
  · rintro ⟨key,rfl,rfl⟩
    cases found : low.find key with
    | none => rw [countAt_absent found] at positive; exact absurd positive (Nat.lt_irrefl 0)
    | some e => rw [lowered key e found]
  · rintro rfl
    exact ⟨id,isLower,rfl⟩

end ErrorStateList

def ErrorEvent.ClearsAll (id : Text) : ErrorEvent → Prop
  | .call (.clearAll other) => other = id
  | .call _ => False
  | .errclear request => request.get ErrorCleaner.idPath = .ok id ∧
      toLower (request.getD ErrorCleaner.countPath "all".toList) = "all".toList

theorem clearsAll_asks {id : Text} {event : ErrorEvent} (clears : event.ClearsAll id) (conv : Conversions) :
    ∃ c, event.asks conv = some c ∧ toLower c.id = toLower id ∧ c.recount = fun _ => 0 := by
  match event with
  | .call (.clearAll other) =>
    cases clears
    exact ⟨_,rfl,rfl,rfl⟩
  | .call (.set _ _) => exact clears.elim
  | .call (.clear _ _) => exact clears.elim
  | .errclear request =>
    refine ⟨.clearAll (toLower id),?_,lowerCase_toLower id,rfl⟩
    simp only [ErrorEvent.asks,clears.1,if_pos clears.2]

theorem asks_set {conv : Conversions} {event : ErrorEvent} {id description : Text}
    (asked : event.asks conv = some (.set id description)) : event = .call (.set id description) := by
  match event with
  | .call c => rw [ErrorEvent.asks,Option.some.injEq] at asked; rw [asked]
  | .errclear request =>
    simp only [ErrorEvent.asks] at asked
    split at asked
    · cases asked
    · split at asked
      · cases asked
      · split at asked
        · cases asked
        · obtain ⟨_,_,other⟩ := Option.map_eq_some_iff.mp asked
          cases other

open ErrorStateList

-- No null pointer is followed and what is reported, in whatever order, is what
-- the lower case run reports; a set adds one; and a clear of all leaves nothing.
structure CaseBlind (conv : Conversions) (events : List ErrorEvent) : Prop where
  same : ∀ earlier, earlier <+: events → ∃ raw low, afterEvents conv earlier = some raw ∧
    afterEvents conv (earlier.map ErrorEvent.lowered) = some low ∧ raw.reported.Perm low.reported
  raised : ∀ earlier id description, earlier ++ [.call (.set id description)] <+: events → ∀ raw next,
    afterEvents conv earlier = some raw → afterEvents conv (earlier ++ [.call (.set id description)]) = some next →
    ∃ n, raw.Reports (toLower id) n ∧ next.Reports (toLower id) (n + 1)
  cleared : ∀ earlier event id, earlier ++ [event] <+: events → event.ClearsAll id → ∀ next,
    afterEvents conv (earlier ++ [event]) = some next → ∀ e ∈ next.getStates, toLower e.id ≠ toLower id

structure Twins (conv : Conversions) (events : List ErrorEvent) (raw low : ErrorStateList) : Prop where
  ran : afterEvents conv events = some raw
  ranLow : afterEvents conv (events.map ErrorEvent.lowered) = some low
  keyed : Keyed low
  lowered : Lowered low
  agrees : Agrees toLower raw.countAt low.countAt

theorem Twins.perm {conv : Conversions} {events : List ErrorEvent} {raw low : ErrorStateList}
    (twins : Twins conv events raw low) : raw.reported.Perm low.reported :=
  (perm_agrees (keyed_after twins.ran) twins.keyed twins.lowered).mpr twins.agrees

theorem Twins.reports {conv : Conversions} {events : List ErrorEvent} {raw low : ErrorStateList}
    (twins : Twins conv events raw low) (id : Text) : raw.Reports (toLower id) (low.countAt (toLower id)).toNat :=
  reports_perm twins.perm (reports_lowered twins.keyed twins.lowered (lowerCase_toLower id))

theorem twins_of_perm {conv : Conversions} {events : List ErrorEvent} {raw low : ErrorStateList}
    (ran : afterEvents conv events = some raw) (ranLow : afterEvents conv (events.map ErrorEvent.lowered) = some low)
    (same : raw.reported.Perm low.reported) : Twins conv events raw low := by
  obtain ⟨own,ranOwn,keyed,lowered⟩ := twin_after conv events
  cases ranLow.symm.trans ranOwn
  exact ⟨ran,ranLow,keyed,lowered,(perm_agrees (keyed_after ran) keyed lowered).mp same⟩

theorem twins_step {conv : Conversions} {events : List ErrorEvent} {raw low : ErrorStateList}
    (twins : Twins conv events raw low) {event : ErrorEvent} (fits : ∀ c, event.asks conv = some c → raw.Fits c) :
    ∃ raw' low', Twins conv (events ++ [event]) raw' low' ∧
      ∀ c, event.asks conv = some c → low'.countAt =
        Function.update low.countAt (toLower c.id) (c.recount (low.countAt (toLower c.id))) ∧
        (c.isSet = true → (low.countAt (toLower c.id)).toNat + 1 < 2 ^ 32) := by
  obtain ⟨low',stepped,keyed,lowered,_,moved⟩ := twin_step twins.keyed twins.lowered conv event
  obtain ⟨⟨raw',ran,agrees⟩,room⟩ := (handle_agrees twins.keyed twins.lowered twins.agrees stepped).mpr fits
  refine ⟨raw',low',⟨?_,?_,keyed,lowered,agrees⟩,fun c asked => ⟨moved c asked,room c asked⟩⟩
  · rw [afterEvents_snoc,twins.ran]
    exact ran
  · rw [List.map_append,List.map_singleton,afterEvents_snoc,twins.ranLow]
    exact stepped

theorem twins_after {conv : Conversions} {events : List ErrorEvent}
    (fits : ∀ earlier event c, earlier ++ [event] <+: events → event.asks conv = some c →
      ∀ list, afterEvents conv earlier = some list → list.Fits c)
    {earlier : List ErrorEvent} (isPart : earlier <+: events) : ∃ raw low, Twins conv earlier raw low := by
  induction earlier using List.reverseRecOn with
  | nil =>
    obtain ⟨low,ranLow,_⟩ := twin_after conv []
    exact ⟨.empty,low,twins_of_perm rfl ranLow (by cases Option.some.inj ranLow; exact .refl _)⟩
  | append_singleton earlier event ih =>
    obtain ⟨raw,low,twins⟩ := ih ((List.prefix_append _ _).trans isPart)
    obtain ⟨raw',low',next,_⟩ := twins_step twins (fun c asked => fits earlier event c isPart asked raw twins.ran)
    exact ⟨raw',low',next⟩

theorem twins_raised {conv : Conversions} {events : List ErrorEvent} {raw low next : ErrorStateList}
    (twins : Twins conv events raw low) {id description : Text} (fits : raw.Fits (.set id description))
    (ran : afterEvents conv (events ++ [.call (.set id description)]) = some next) :
    ∃ n, raw.Reports (toLower id) n ∧ next.Reports (toLower id) (n + 1) := by
  have own : ∀ c, (ErrorEvent.call (.set id description)).asks conv = some c → raw.Fits c := by
    intro c asked
    rwa [← Option.some.inj asked]
  obtain ⟨raw',low',twins',moved⟩ := twins_step twins own
  cases ran.symm.trans twins'.ran
  obtain ⟨count,room⟩ := moved _ rfl
  refine ⟨(low.countAt (toLower id)).toNat,twins.reports id,?_⟩
  have reports := twins'.reports id
  have added : (low'.countAt (toLower id)).toNat = (low.countAt (toLower id)).toNat + 1 := by
    rw [count]
    change (Function.update low.countAt (toLower id) (low.countAt (toLower id) + 1) (toLower id)).toNat = _
    rw [Function.update_self,UInt32.toNat_add]
    exact Nat.mod_eq_of_lt (room rfl)
  rwa [added] at reports

theorem twins_cleared {conv : Conversions} {events : List ErrorEvent} {raw low next : ErrorStateList}
    (twins : Twins conv events raw low) {event : ErrorEvent} (fits : ∀ c, event.asks conv = some c → raw.Fits c)
    (ran : afterEvents conv (events ++ [event]) = some next) {id : Text} (clears : event.ClearsAll id) :
    ∀ e ∈ next.getStates, toLower e.id ≠ toLower id := by
  intro e isState same
  obtain ⟨raw',low',twins',moved⟩ := twins_step twins fits
  cases ran.symm.trans twins'.ran
  obtain ⟨c,asked,sameId,zero⟩ := clearsAll_asks clears conv
  have gone : low'.countAt (toLower id) = 0 := by
    rw [(moved c asked).1,sameId,Function.update_self,zero]
  obtain ⟨key,found,counts⟩ := mem_getStates.mp isState
  have ownId := keyed_after ran key e found
  have isReported : (e.id,e.count.toNat) ∈ next.reported := List.mem_map.mpr ⟨e,isState,rfl⟩
  have inLow := (mem_reported_lowered twins'.keyed twins'.lowered counts).mp (twins'.perm.mem_iff.mp isReported)
  have named : e.id = toLower id := by
    rw [← same,ownId]
    exact (lowerCase_toLower key).symm
  rw [named,gone] at inLow
  exact counts inLow.symm

theorem ids_case_insensitive (conv : Conversions) (events : List ErrorEvent) : CaseBlind conv events ↔
    ∀ earlier event c, earlier ++ [event] <+: events → event.asks conv = some c →
      ∀ list, afterEvents conv earlier = some list → list.Fits c := by
  constructor
  · intro blind earlier event c isPart asked list ran
    obtain ⟨raw,low,ranRaw,ranLow,perm⟩ := blind.same earlier ((List.prefix_append _ _).trans isPart)
    cases ran.symm.trans ranRaw
    have twins := twins_of_perm ran ranLow perm
    obtain ⟨raw',low',ranRaw',ranLow',perm'⟩ := blind.same _ isPart
    have twins' := twins_of_perm ranRaw' ranLow' perm'
    have stepped : list.handle conv event = some raw' := by
      rw [afterEvents_snoc,ran] at ranRaw'
      exact ranRaw'
    have steppedLow : low.handle conv event.lowered = some low' := by
      rw [List.map_append,List.map_singleton,afterEvents_snoc,ranLow] at ranLow'
      exact ranLow'
    refine (handle_agrees twins.keyed twins.lowered twins.agrees steppedLow).mp
      ⟨⟨raw',stepped,twins'.agrees⟩,?_⟩ c asked
    -- Only a set counts up, and it is not wrapped round.
    intro other askedOther counts
    match other,counts with
    | .set id description,_ =>
      cases asks_set askedOther
      obtain ⟨n,before,now⟩ := blind.raised earlier id description isPart list raw' ran ranRaw'
      have first := reports_unique before (twins.reports id)
      have second := reports_unique now (twins'.reports id)
      have small := (low'.countAt (toLower id)).toNat_lt
      rw [ErrorCall.id,← first]
      omega
  · intro fits
    refine ⟨?_,?_,?_⟩
    · intro earlier isPart
      obtain ⟨raw,low,twins⟩ := twins_after fits isPart
      exact ⟨raw,low,twins.ran,twins.ranLow,twins.perm⟩
    · intro earlier id description isPart raw next ran ranNext
      obtain ⟨own,low,twins⟩ := twins_after fits ((List.prefix_append _ _).trans isPart)
      cases ran.symm.trans twins.ran
      exact twins_raised twins (fits earlier _ _ isPart rfl raw ran) ranNext
    · intro earlier event id isPart clears next ran
      obtain ⟨raw,low,twins⟩ := twins_after fits ((List.prefix_append _ _).trans isPart)
      exact twins_cleared twins (fun c asked => fits earlier event c isPart asked raw twins.ran) ran clears

def noConversions : Conversions := ⟨fun _ => none,"bad data".toList⟩

def capitalSets : List ErrorEvent := [.call (.set ['D','B'] []),.call (.set ['D','B'] [])]

theorem capitals_lose : ¬ CaseBlind noConversions capitalSets ∧
    (afterEvents noConversions capitalSets).map reported = some [(['d','b'],1)] ∧
    (afterEvents noConversions (capitalSets.map ErrorEvent.lowered)).map reported = some [(['d','b'],2)] := by
  refine ⟨fun blind => ?_,by decide,by decide⟩
  obtain ⟨raw,low,ran,ranLow,perm⟩ := blind.same capitalSets (List.prefix_refl _)
  cases Option.some.inj ran
  cases Option.some.inj ranLow
  exact absurd perm (by decide)

end Kisscpp
