import Kisscpp.PropertyTreePuts
import Kisscpp.StatsKeeper

namespace Kisscpp
open TextLines PropertyTree DecimalText

namespace StatsKeeper
variable {ν Q : Type*}

def shown (k : StatsKeeper ν Q) (uptime : ν) (size : Q → ν) (id : Text) : Option ν :=
  match k.queueStatsMap.find id with
  | some ssq => some (size ssq)
  | none => (k.statsMap.put uptimeId uptime).find id

def lastShown (k : StatsKeeper ν Q) (id : Text) : Option ν := (k.gatheredStatsMap.find id).bind (·[0]?)

theorem statsPath_injective {id other : Text} (same : statsPath id = statsPath other) : id = other :=
  List.append_cancel_left same

theorem find_collected {μ : Type*} (f : μ → ν) {es : List (Text × μ)} (distinct : (es.map Prod.fst).Nodup)
    (retval : OrderedMap Text ν) (id : Text) :
    (es.foldl (fun retval e => retval.put (statsPath e.1) (f e.2)) retval).find (statsPath id) =
      ((OrderedMap.lookup id es).map f).or (retval.find (statsPath id)) := by
  induction es generalizing retval with
  | nil => rfl
  | cons e rest ih =>
    obtain ⟨fresh,distinctRest⟩ := List.nodup_cons.mp distinct
    rw [List.foldl_cons,ih distinctRest,OrderedMap.lookup_cons]
    by_cases own : e.1 = id
    · subst own
      simp [OrderedMap.lookup_fresh fresh]
    · have apart : statsPath id ≠ statsPath e.1 := fun same => own (statsPath_injective same).symm
      simp only [own,if_false,OrderedMap.find_put_ne apart]

theorem find_uncollected {μ : Type*} (f : μ → ν) (es : List (Text × μ)) (retval : OrderedMap Text ν) {path : Text}
    (other : ∀ id, path ≠ statsPath id) :
    (es.foldl (fun retval e => retval.put (statsPath e.1) (f e.2)) retval).find path = retval.find path := by
  induction es generalizing retval with
  | nil => rfl
  | cons e rest ih => rw [List.foldl_cons,ih,OrderedMap.find_put_ne (other e.1)]

def Holds (ssmt : OrderedMap Text ν) (values : Text → Option ν) : Prop :=
  ∀ path value, ssmt.find path = some value ↔ ∃ id, path = statsPath id ∧ values id = some value

theorem holds_paths {ssmt : OrderedMap Text ν} {values : Text → Option ν} (own : ∀ id, ssmt.find (statsPath id) = values id)
    (other : ∀ path, (∀ id, path ≠ statsPath id) → ssmt.find path = none) : Holds ssmt values := by
  intro path value
  by_cases known : ∃ id, path = statsPath id
  · obtain ⟨id,rfl⟩ := known
    rw [own]
    constructor
    · intro found
      exact ⟨id,rfl,found⟩
    · rintro ⟨same,equal,found⟩
      rwa [statsPath_injective equal]
  · rw [other path fun id same => known ⟨id,same⟩]
    refine iff_of_false (by simp) ?_
    rintro ⟨id,same,_⟩
    exact known ⟨id,same⟩

theorem current_holds (k : StatsKeeper ν Q) (uptime : ν) (size : Q → ν) :
    Holds (k.getCurrentStats uptime size).1 (k.shown uptime size) := by
  refine holds_paths ?_ ?_
  · intro id
    have queues := find_collected size k.queueStatsMap.keys_nodup ((k.statsMap.put uptimeId uptime).entries.foldl
      (fun retval e => retval.put (statsPath e.1) e.2) OrderedMap.empty) id
    have stats := find_collected (fun value : ν => value) (k.statsMap.put uptimeId uptime).keys_nodup OrderedMap.empty id
    rw [stats] at queues
    refine queues.trans ?_
    change ((k.queueStatsMap.find id).map size).or ((((k.statsMap.put uptimeId uptime).find id).map fun value => value).or none) =
      k.shown uptime size id
    unfold shown
    cases k.queueStatsMap.find id <;> simp
  · intro path other
    simp only [getCurrentStats]
    rw [find_uncollected size _ _ other,find_uncollected (fun value : ν => value) _ _ other]
    rfl

theorem gathered_collected {es : List (Text × List ν)} (distinct : (es.map Prod.fst).Nodup) {retval ssmt : OrderedMap Text ν}
    (last : (es.map fun e => (⟨statsPath e.1,e.2,0⟩ : Access ν)).foldlM
      (fun retval a => (a.history[a.index]?).map (retval.put a.path)) retval = some ssmt) :
    (∀ id, ssmt.find (statsPath id) = ((OrderedMap.lookup id es).bind (·[0]?)).or (retval.find (statsPath id))) ∧
      ∀ path, (∀ id, path ≠ statsPath id) → ssmt.find path = retval.find path := by
  induction es generalizing retval with
  | nil =>
    cases last
    exact ⟨fun _ => rfl,fun _ _ => rfl⟩
  | cons e rest ih =>
    obtain ⟨fresh,distinctRest⟩ := List.nodup_cons.mp distinct
    rw [List.map_cons,List.foldlM_cons] at last
    obtain ⟨next,first,later⟩ := Option.bind_eq_some_iff.mp last
    obtain ⟨value,front,rfl⟩ := Option.map_eq_some_iff.mp first
    change e.2[0]? = some value at front
    obtain ⟨own,others⟩ := ih distinctRest later
    constructor
    · intro id
      rw [own,OrderedMap.lookup_cons]
      by_cases same : e.1 = id
      · subst same
        simp [OrderedMap.lookup_fresh fresh,front]
      · have apart : statsPath id ≠ statsPath e.1 := fun equal => same (statsPath_injective equal).symm
        simp only [same,if_false,OrderedMap.find_put_ne apart]
    · intro path other
      rw [others path other,OrderedMap.find_put_ne (other e.1)]

theorem gathered_holds {k : StatsKeeper ν Q} {ssmt : OrderedMap Text ν} (last : k.getLastGatheredStats = some ssmt) :
    Holds ssmt k.lastShown := by
  obtain ⟨own,others⟩ := gathered_collected k.gatheredStatsMap.keys_nodup last
  refine holds_paths ?_ fun path other => (others path other).trans (OrderedMap.find_empty path)
  intro id
  rw [own,OrderedMap.find_empty,Option.or_none]
  rfl

end StatsKeeper

namespace StatsReporter
variable {ν Q : Type*}
open StatsKeeper

structure Answerable (texts : ValueTexts ν) (values : Text → Option ν) (t : Ptree) : Prop where
  writes : t.writable = true
  reads : ∀ id value, values id = some value → t.get (statsPath id) = .ok (texts.tree value)

-- An id that ends in a dot says again what the id before the dot says, and
-- no other id goes on from an id at a dot.
structure Separate (texts : ValueTexts ν) (values : Text → Option ν) : Prop where
  again : ∀ id value, values (id ++ ['.']) = some value → ∃ same, values id = some same ∧ texts.tree same = texts.tree value
  below : ∀ id rest, (values id).isSome = true → (values (id ++ '.' :: rest)).isSome = true → rest = []

def started : Ptree := Ptree.empty.put "kcm-sts".toList RequestStatus.success.text

def cactiPath : Text := "cacti_format_stats".toList

theorem cacti_fragments : fragments cactiPath = [cactiPath] := by decide
theorem cacti_reduced : reduced cactiPath = [cactiPath] := by decide

def entries (texts : ValueTexts ν) (ssmt : OrderedMap Text ν) : List (Text × Text) :=
  ssmt.entries.map fun e => (e.1,texts.tree e.2)

theorem report_puts (texts : ValueTexts ν) (ssmt : OrderedMap Text ν) (response : Ptree) :
    report texts ssmt response =
      Ptree.puts (entries texts ssmt ++ [(cactiPath,cactiFormat texts ssmt)]) response := by
  rw [Ptree.puts_snoc,report,entries,Ptree.puts,List.foldl_map]
  rfl

theorem statsPath_fragments (id : Text) : fragments (statsPath id) = "stats".toList :: fragments id :=
  fragments_join "stats".toList id

theorem statsPath_reduced (id : Text) : reduced (statsPath id) = "stats".toList :: reduced id :=
  reduced_below "stats".toList id

theorem statsPath_aside (id : Text) : reduced (statsPath id) ≠ reduced cactiPath := by
  rw [statsPath_reduced,cacti_reduced]
  intro same
  exact absurd (List.cons.inj same).1 (by decide)

theorem statsPath_named (id : Text) : statsPath id ≠ [] := List.append_ne_nil_of_left_ne_nil (by decide) id

theorem statsPath_dot (id : Text) : statsPath (id ++ ['.']) = statsPath id ++ ['.'] := (List.append_assoc _ _ _).symm

theorem statsPath_further {id other rest : Text} (further : statsPath other = statsPath id ++ '.' :: rest) :
    other = id ++ '.' :: rest := by
  rw [statsPath,statsPath,List.append_assoc] at further
  exact List.append_cancel_left further

section Report
variable {texts : ValueTexts ν} {ssmt : OrderedMap Text ν} {values : Text → Option ν} (holds : Holds ssmt values)
include holds

theorem mem_entries {e : Text × Text} : e ∈ entries texts ssmt ↔
    ∃ id value, values id = some value ∧ e = (statsPath id,texts.tree value) := by
  constructor
  · intro member
    obtain ⟨⟨path,value⟩,inMap,rfl⟩ := List.mem_map.mp member
    obtain ⟨id,rfl,found⟩ := (holds path value).mp (OrderedMap.mem_entries.mp inMap)
    exact ⟨id,value,found,rfl⟩
  · rintro ⟨id,value,found,rfl⟩
    exact List.mem_map.mpr ⟨_,OrderedMap.mem_entries.mpr ((holds _ value).mpr ⟨id,rfl,found⟩),rfl⟩

theorem mem_values {id value : Text} (member : (statsPath id,value) ∈ entries texts ssmt) :
    ∃ same, values id = some same ∧ texts.tree same = value := by
  obtain ⟨other,same,found,equal⟩ := (mem_entries holds).mp member
  cases statsPath_injective (Prod.mk.inj equal).1
  exact ⟨same,found,(Prod.mk.inj equal).2.symm⟩

theorem entries_named : ∀ e ∈ entries texts ssmt, e.1 ≠ [] := by
  intro e member
  obtain ⟨id,_,_,rfl⟩ := (mem_entries holds).mp member
  exact statsPath_named id

theorem separate_apart (named : ∀ id, (values id).isSome = true → id ≠ []) (separate : Separate texts values) :
    Ptree.Apart (entries texts ssmt) := by
  refine ⟨entries_named holds,?_,?_⟩
  · intro e member front dot
    obtain ⟨id,value,found,rfl⟩ := (mem_entries holds).mp member
    rcases List.eq_nil_or_concat id with none | ⟨shorter,c,split⟩
    · exact absurd none (named id (by rw [found]; rfl))
    · subst split
      rw [List.concat_eq_append] at found dot ⊢
      have parts : statsPath shorter ++ [c] = front ++ ['.'] := (List.append_assoc _ _ _).trans dot
      obtain ⟨same,last⟩ := List.append_inj' parts rfl
      cases last
      obtain ⟨again,known,equal⟩ := separate.again shorter value found
      exact (mem_entries holds).mpr ⟨shorter,again,known,by rw [same,equal]⟩
  · intro e member other second rest further
    obtain ⟨id,value,found,rfl⟩ := (mem_entries holds).mp member
    obtain ⟨longer,value',found',rfl⟩ := (mem_entries holds).mp second
    have equal := statsPath_further further
    subst equal
    exact separate.below id rest (by rw [found]; rfl) (by rw [found']; rfl)

theorem started_clear {e : Text × Text} (member : e ∈ entries texts ssmt) {keys : List Text} (front : keys <+: fragments e.1)
    (some : keys ≠ []) : Ptree.walk keys started = none := by
  obtain ⟨id,_,_,rfl⟩ := (mem_entries holds).mp member
  rw [statsPath_fragments] at front
  cases keys with
  | nil => exact absurd rfl some
  | cons first rest =>
    have top : first = "stats".toList := (List.cons_prefix_cons.mp front).1
    have absent : started.find "stats".toList = none := rfl
    rw [Ptree.walk_cons,top,absent]
    rfl

theorem entries_filled (filled : ∀ value, texts.tree value ≠ []) : ∀ e ∈ entries texts ssmt, e.2 ≠ [] := by
  intro e member
  obtain ⟨id,value,_,rfl⟩ := (mem_entries holds).mp member
  exact filled value

theorem answerable_entries {t : Ptree} : Answerable texts values t ↔
    t.writable = true ∧ ∀ e ∈ entries texts ssmt, t.get e.1 = .ok e.2 := by
  constructor
  · intro answer
    refine ⟨answer.writes,?_⟩
    intro e member
    obtain ⟨id,value,found,rfl⟩ := (mem_entries holds).mp member
    exact answer.reads id value found
  · rintro ⟨writes,reads⟩
    exact ⟨writes,fun id value found => reads _ ((mem_entries holds).mpr ⟨id,value,found,rfl⟩)⟩

omit holds in
theorem entries_sorted : (entries texts ssmt).Pairwise fun e later => e.1 < later.1 :=
  List.pairwise_map.mpr ssmt.sorted

theorem report_separate (filled : ∀ value, texts.tree value ≠ [])
    (answer : Answerable texts values (report texts ssmt started)) : Separate texts values := by
  obtain ⟨writes,reads⟩ := (answerable_entries holds).mp answer
  have texted := entries_filled holds filled
  constructor
  · intro id value found
    have inside : (statsPath (id ++ ['.']),texts.tree value) ∈ entries texts ssmt :=
      (mem_entries holds).mpr ⟨_,value,found,rfl⟩
    obtain ⟨before,after,split⟩ := List.append_of_mem inside
    have clear := started_clear holds inside (reduced_front _) (reduced_filled (statsPath_named _))
    refine mem_values holds (Ptree.reads_again writes reads texted split entries_sorted (entries_named holds) clear ?_
      (report_puts texts ssmt started) (statsPath_dot id))
    intro k last
    rw [List.mem_singleton.mp last]
    exact statsPath_aside _
  · intro id rest first second
    obtain ⟨value,found⟩ := Option.isSome_iff_exists.mp first
    obtain ⟨other,further⟩ := Option.isSome_iff_exists.mp second
    refine Ptree.reads_below writes reads texted ((mem_entries holds).mpr ⟨id,value,found,rfl⟩)
      ((mem_entries holds).mpr ⟨_,other,further,rfl⟩) ?_
    exact (List.append_assoc _ _ _).symm

theorem separate_report (named : ∀ id, (values id).isSome = true → id ≠ [])
    (separate : Separate texts values) : Answerable texts values (report texts ssmt started) := by
  have apart := separate_apart holds named separate
  have grown := apart.grown_puts rfl (fun e member keys front some => started_clear holds member front some)
    entries_sorted rfl
  have absent : Ptree.walk [cactiPath] (Ptree.puts (entries texts ssmt) started) = none := by
    refine Ptree.puts_absent ?_ rfl
    intro e member front
    obtain ⟨id,_,_,rfl⟩ := (mem_entries holds).mp member
    rw [statsPath_fragments] at front
    exact absurd (List.cons_prefix_cons.mp front).1 (by decide)
  rw [report_puts,Ptree.puts_snoc]
  refine (answerable_entries holds).mpr ⟨?_,?_⟩
  · rw [Ptree.put,cacti_reduced,if_neg (by rw [absent]; simp),Ptree.add,cacti_fragments]
    refine Ptree.writable_graft _ _ grown.writes ?_
    intro above below found split longer here
    cases above with
    | nil =>
      cases here
      exact grown.root apart rfl
    | cons first others =>
      have none := (List.append_eq_nil_iff.mp (List.cons.inj split).2.symm).2
      exact absurd none longer
  · intro e member
    obtain ⟨id,_,_,rfl⟩ := (mem_entries holds).mp member
    exact Ptree.put_others _ (statsPath_aside id) (grown.reads _ member)

end Report

def Named (k : StatsKeeper ν Q) : Prop := ∀ id,
  (k.statsMap.find id).isSome = true ∨ (k.queueStatsMap.find id).isSome = true ∨
    (k.gatheredStatsMap.find id).isSome = true → id ≠ []

theorem shown_named {k : StatsKeeper ν Q} (named : Named k) (uptime : ν) (size : Q → ν) {id : Text}
    (some : (k.shown uptime size id).isSome = true) : id ≠ [] := by
  unfold shown at some
  by_cases own : id = uptimeId
  · rw [own]
    decide
  · apply named id
    cases queue : k.queueStatsMap.find id with
    | some ssq => exact .inr (.inl rfl)
    | none =>
      rw [queue] at some
      change ((k.statsMap.put uptimeId uptime).find id).isSome = true at some
      rw [OrderedMap.find_put_ne own] at some
      exact .inl some

theorem lastShown_named {k : StatsKeeper ν Q} (named : Named k) {id : Text} (some : (k.lastShown id).isSome = true) :
    id ≠ [] := by
  apply named id
  unfold lastShown at some
  cases history : k.gatheredStatsMap.find id with
  | some values => exact .inr (.inr rfl)
  | none =>
    rw [history] at some
    cases some

theorem stats_answerable {texts : ValueTexts ν} (filled : ∀ value, texts.tree value ≠ []) {k : StatsKeeper ν Q}
    (named : Named k) (uptime : ν) (size : Q → ν) :
    (Answerable texts (k.shown uptime size) (current texts k uptime size started).1 ↔
      Separate texts (k.shown uptime size)) ∧
    ∀ t, gathered texts k started = some t → (Answerable texts k.lastShown t ↔ Separate texts k.lastShown) := by
  constructor
  · have holds := current_holds k uptime size
    constructor
    · intro answer
      exact report_separate holds filled answer
    · intro separate
      exact separate_report holds (fun _ some => shown_named named uptime size some) separate
  · intro t reported
    obtain ⟨ssmt,last,rfl⟩ := Option.map_eq_some_iff.mp reported
    have holds := gathered_holds last
    constructor
    · intro answer
      exact report_separate holds filled answer
    · intro separate
      exact separate_report holds (fun _ some => lastShown_named named some) separate

def numbers : ValueTexts Nat := ⟨decimal,decimal⟩

def jobs : StatsKeeper Nat Unit := (StatsKeeper.fresh 12).setStatValue "jobs".toList 3

theorem stats_answerable_jobs :
    Answerable numbers (jobs.shown 7 fun _ => 0) (current numbers jobs 7 (fun _ => 0) started).1 ↔
      Separate numbers (jobs.shown 7 fun _ => 0) := by
  have named : Named jobs := by
    rintro id some rfl
    revert some
    decide +kernel
  exact (stats_answerable (fun _ => Nat.toDigits_ne_nil) named 7 fun _ => 0).1

def nested : StatsKeeper Nat Unit := (StatsKeeper.fresh 12).setStatValue "a".toList 1 |>.setStatValue "a.b".toList 2

theorem nested_unanswered :
    ¬ Answerable numbers (nested.shown 7 fun _ => 0) (current numbers nested 7 (fun _ => 0) started).1 := by
  intro answer
  exact absurd answer.writes (by decide +kernel)

end StatsReporter

namespace Connection

theorem sent_writable {json : Json} (rejects : ∀ t, (json.writeJson t).isSome = t.writable) {cfg : Config}
    {router : RequestRouter} {clientIp line : Text} {request : Ptree} (read : json.readJson line = some request) :
    (start json cfg router clientIp line).sent.isSome = (start json cfg router clientIp line).rawResponse.writable := by
  unfold start
  rw [read]
  split
  · exact rejects _
  · exact rejects _

end Connection
end Kisscpp
