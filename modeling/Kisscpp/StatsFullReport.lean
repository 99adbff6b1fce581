import Kisscpp.StatsAnswers

namespace Kisscpp
open TextLines PropertyTree DecimalText

theorem twoDigits_digits (i : Nat) : Digits (StatsKeeper.twoDigits i) := (digits_zeros _).append (digits_decimal i)

theorem twoDigits_value (i : Nat) : value (StatsKeeper.twoDigits i) = i := by
  rw [StatsKeeper.twoDigits,value_zeros,value_decimal]

theorem twoDigits_injective {i j : Nat} (same : StatsKeeper.twoDigits i = StatsKeeper.twoDigits j) : i = j := by
  rw [← twoDigits_value i,same,twoDigits_value]

theorem twoDigits_filled (i : Nat) : StatsKeeper.twoDigits i ≠ [] := by
  intro none
  exact Nat.toDigits_ne_nil (List.append_eq_nil_iff.mp none).2

theorem twoDigits_plain (i : Nat) : Plain (StatsKeeper.twoDigits i) := by
  intro dot
  exact absurd (twoDigits_digits i '.' dot) (by decide)

namespace StatsKeeper
variable {ν Q : Type*}

def fullPath (id : Text) (i : Nat) : Text := statsPath id ++ '.' :: twoDigits i

theorem fullPath_fragments (id : Text) (i : Nat) :
    fragments (fullPath id i) = "stats".toList :: (fragments id ++ [twoDigits i]) := by
  rw [fullPath,fragments_join,fragments_single (twoDigits_plain i),StatsReporter.statsPath_fragments]
  rfl

theorem fullPath_injective {id other : Text} {i j : Nat} (same : fullPath id i = fullPath other j) : id = other ∧ i = j := by
  have parts := congrArg fragments same
  rw [fullPath_fragments,fullPath_fragments] at parts
  obtain ⟨ids,last⟩ := List.append_inj' (List.cons.inj parts).2 rfl
  exact ⟨fragments_injective ids,twoDigits_injective (List.cons.inj last).1⟩

theorem fullPath_undotted (id front : Text) (i : Nat) : fullPath id i ≠ front ++ ['.'] := by
  intro dot
  have parts := congrArg fragments dot
  have cut : fragments (front ++ ['.']) = fragments front ++ [[]] := fragments_join front []
  rw [fullPath_fragments,cut,← List.cons_append] at parts
  exact absurd (List.cons.inj (List.append_inj' parts rfl).2).1 (twoDigits_filled i)

theorem accessed_inside {as : List (Access ν)} {retval sshmt : OrderedMap Text (List ν)}
    (done : as.foldlM (fun retval a => (a.history[a.index]?).map fun value =>
      retval.put a.path ((retval.find a.path).getD [] ++ [value])) retval = some sshmt) :
    ∀ a ∈ as, ∃ value, a.history[a.index]? = some value := by
  induction as generalizing retval with
  | nil => exact fun _ none => absurd none List.not_mem_nil
  | cons a rest ih =>
    rw [List.foldlM_cons] at done
    obtain ⟨next,first,later⟩ := Option.bind_eq_some_iff.mp done
    obtain ⟨value,here,_⟩ := Option.map_eq_some_iff.mp first
    intro other member
    rcases List.mem_cons.mp member with rfl | behind
    · exact ⟨value,here⟩
    · exact ih later other behind

theorem accessed {as : List (Access ν)} (distinct : (as.map Access.path).Nodup)
    {retval sshmt : OrderedMap Text (List ν)} (fresh : ∀ a ∈ as, retval.find a.path = none)
    (done : as.foldlM (fun retval a => (a.history[a.index]?).map fun value =>
      retval.put a.path ((retval.find a.path).getD [] ++ [value])) retval = some sshmt) (path : Text) (values : List ν) :
    sshmt.find path = some values ↔
      (∃ a ∈ as, a.path = path ∧ ∃ value, a.history[a.index]? = some value ∧ values = [value]) ∨
        retval.find path = some values := by
  induction as generalizing retval with
  | nil =>
    cases done
    simp
  | cons a rest ih =>
    obtain ⟨alone,distinctRest⟩ := List.nodup_cons.mp distinct
    rw [List.foldlM_cons] at done
    obtain ⟨next,first,later⟩ := Option.bind_eq_some_iff.mp done
    obtain ⟨value,here,rfl⟩ := Option.map_eq_some_iff.mp first
    rw [fresh a List.mem_cons_self] at later
    have others : ∀ other ∈ rest, other.path ≠ a.path := fun other member same =>
      alone (same ▸ List.mem_map.mpr ⟨other,member,rfl⟩)
    rw [ih distinctRest (fun other member => by
      rw [OrderedMap.find_put_ne (others other member),fresh other (List.mem_cons_of_mem _ member)]) later]
    by_cases own : path = a.path
    · subst own
      have absent := fresh a List.mem_cons_self
      simp only [OrderedMap.find_put_self,Option.getD_none,List.nil_append,Option.some.injEq,absent,reduceCtorEq,or_false]
      constructor
      · rintro (⟨other,member,same,_⟩ | rfl)
        · exact absurd same (others other member)
        · exact ⟨a,List.mem_cons_self,rfl,value,here,rfl⟩
      · rintro ⟨other,member,same,found,there,rfl⟩
        rcases List.mem_cons.mp member with rfl | behind
        · rw [here] at there
          cases there
          exact .inr rfl
        · exact absurd same (others other behind)
    · rw [OrderedMap.find_put_ne own]
      refine or_congr_left ?_
      constructor
      · rintro ⟨other,member,rest⟩
        exact ⟨other,List.mem_cons_of_mem _ member,rest⟩
      · rintro ⟨other,member,same,rest⟩
        rcases List.mem_cons.mp member with rfl | behind
        · exact absurd same.symm own
        · exact ⟨other,behind,same,rest⟩

theorem mem_fullAccesses {k : StatsKeeper ν Q} {a : Access ν} : a ∈ k.fullAccesses ↔
    ∃ id history, k.gatheredStatsMap.find id = some history ∧
      ∃ i ∈ indices k.historyLength, a = ⟨fullPath id i,history,i⟩ := by
  unfold fullAccesses
  rw [List.mem_flatMap]
  constructor
  · rintro ⟨⟨id,history⟩,member,inside⟩
    obtain ⟨i,below,rfl⟩ := List.mem_map.mp inside
    exact ⟨id,history,OrderedMap.mem_entries.mp member,i,below,rfl⟩
  · rintro ⟨id,history,found,i,below,rfl⟩
    exact ⟨_,OrderedMap.mem_entries.mpr found,List.mem_map.mpr ⟨i,below,rfl⟩⟩

theorem fullAccesses_distinct (k : StatsKeeper ν Q) : (k.fullAccesses.map Access.path).Nodup := by
  have paths : k.fullAccesses.map Access.path =
      k.gatheredStatsMap.entries.flatMap fun e => (indices k.historyLength).map (fullPath e.1) := by
    rw [fullAccesses,List.map_flatMap]
    simp only [List.map_map]
    rfl
  rw [paths]
  refine List.nodup_flatMap.mpr ⟨?_,?_⟩
  · intro e _
    exact List.nodup_range.map fun i j same => (fullPath_injective same).2
  · refine k.gatheredStatsMap.sorted.imp ?_
    intro e later before path first second
    obtain ⟨i,_,rfl⟩ := List.mem_map.mp first
    obtain ⟨j,_,same⟩ := List.mem_map.mp second
    exact absurd before ((fullPath_injective same).1 ▸ lt_irrefl _)

def valueAt (k : StatsKeeper ν Q) (id : Text) (i : Nat) : Option ν := (k.gatheredStatsMap.find id).bind (·[i]?)

theorem full_holds {k : StatsKeeper ν Q} {sshmt : OrderedMap Text (List ν)} (history : k.getFullStatsHistory = some sshmt)
    (path : Text) (values : List ν) : sshmt.find path = some values ↔
      ∃ id, ∃ i ∈ indices k.historyLength, path = fullPath id i ∧
        ∃ value, k.valueAt id i = some value ∧ values = [value] := by
  rw [accessed k.fullAccesses_distinct (fun _ _ => rfl) history,OrderedMap.find_empty]
  simp only [reduceCtorEq,or_false]
  constructor
  · rintro ⟨a,member,rfl,value,here,rfl⟩
    obtain ⟨id,history,found,i,below,rfl⟩ := mem_fullAccesses.mp member
    exact ⟨id,i,below,rfl,value,by rw [valueAt,found]; exact here,rfl⟩
  · rintro ⟨id,i,below,rfl,value,here,rfl⟩
    obtain ⟨history,found,there⟩ := Option.bind_eq_some_iff.mp here
    exact ⟨_,mem_fullAccesses.mpr ⟨id,history,found,i,below,rfl⟩,rfl,value,there,rfl⟩

end StatsKeeper

namespace StatsReporter
variable {ν Q : Type*}
open StatsKeeper

structure FullyAnswerable (texts : ValueTexts ν) (k : StatsKeeper ν Q) (t : Ptree) : Prop where
  writes : t.writable = true
  reads : ∀ id value, ∀ i < k.historyLength, k.valueAt id i = some value → t.get (fullPath id i) = .ok (texts.tree value)

def FullySeparate (k : StatsKeeper ν Q) : Prop :=
  ∀ id other, (k.gatheredStatsMap.find id).isSome = true → (k.gatheredStatsMap.find other).isSome = true →
    ∀ i < k.historyLength, ¬ id ++ '.' :: twoDigits i ++ ['.'] <+: other ++ ['.']

theorem fullPath_further {id other : Text} {i j : Nat} :
    (∃ rest, fullPath other j = fullPath id i ++ '.' :: rest) ↔ id ++ '.' :: twoDigits i ++ ['.'] <+: other ++ ['.'] := by
  have whole : fullPath other j = "stats.".toList ++ (other ++ ['.'] ++ twoDigits j) := by
    simp [fullPath,statsPath]
  have front (rest : Text) : fullPath id i ++ '.' :: rest =
      "stats.".toList ++ (id ++ '.' :: twoDigits i ++ ['.'] ++ rest) := by
    simp [fullPath,statsPath]
  constructor
  · rintro ⟨rest,same⟩
    rw [whole,front] at same
    have same := List.append_cancel_left same
    have one : other ++ ['.'] <+: id ++ '.' :: twoDigits i ++ ['.'] ++ rest := ⟨twoDigits j,same⟩
    have two : id ++ '.' :: twoDigits i ++ ['.'] <+: id ++ '.' :: twoDigits i ++ ['.'] ++ rest := ⟨rest,rfl⟩
    rcases List.prefix_or_prefix_of_prefix two one with within | ⟨more,longer⟩
    · exact within
    · -- What the longer one has more is of the digits, and it ends in a dot.
      rw [← longer] at same
      have digits := List.append_cancel_left (same.trans (List.append_assoc _ _ _))
      cases List.eq_nil_or_concat more with
      | inl none =>
        rw [none,List.append_nil] at longer
        exact longer ▸ List.prefix_rfl
      | inr split =>
        obtain ⟨earlier,c,rfl⟩ := split
        rw [List.concat_eq_append] at longer digits
        rw [← List.append_assoc] at longer
        have dot : c = '.' := (List.cons.inj (List.append_inj' longer rfl).2).1
        subst dot
        exact absurd (digits ▸ by simp : '.' ∈ twoDigits j) (twoDigits_plain j)
  · rintro ⟨more,longer⟩
    refine ⟨more ++ twoDigits j,?_⟩
    rw [whole,front,← longer,List.append_assoc]

def fullEntries (texts : ValueTexts ν) (sshmt : OrderedMap Text (List ν)) : List (Text × Text) :=
  sshmt.entries.flatMap fun e => e.2.map fun value => (e.1,texts.tree value)

theorem full_puts {texts : ValueTexts ν} {k : StatsKeeper ν Q} {sshmt : OrderedMap Text (List ν)}
    (history : k.getFullStatsHistory = some sshmt) (response : Ptree) :
    full texts k response = some (Ptree.puts (fullEntries texts sshmt) response) := by
  rw [full,history,Option.map_some,Ptree.puts,fullEntries,List.foldl_flatMap]
  simp only [List.foldl_map]

section Report
variable {texts : ValueTexts ν} {k : StatsKeeper ν Q} {sshmt : OrderedMap Text (List ν)}
  (short : k.historyLength < 2 ^ 32) (history : k.getFullStatsHistory = some sshmt)
include short history

theorem mem_fullEntries {e : Text × Text} : e ∈ fullEntries texts sshmt ↔
    ∃ id value, ∃ i < k.historyLength, k.valueAt id i = some value ∧ e = (fullPath id i,texts.tree value) := by
  have below (i : Nat) : i ∈ indices k.historyLength ↔ i < k.historyLength := by
    rw [indices,Nat.min_eq_left (Nat.le_of_lt short),List.mem_range]
  unfold fullEntries
  rw [List.mem_flatMap]
  constructor
  · rintro ⟨⟨path,values⟩,member,inside⟩
    obtain ⟨id,i,inIndices,rfl,value,here,rfl⟩ := (full_holds history path values).mp (OrderedMap.mem_entries.mp member)
    rw [List.map_singleton,List.mem_singleton] at inside
    exact ⟨id,value,i,(below i).mp inIndices,here,inside⟩
  · rintro ⟨id,value,i,inside,here,rfl⟩
    have found := (full_holds history _ [value]).mpr ⟨id,i,(below i).mpr inside,rfl,value,here,rfl⟩
    exact ⟨_,OrderedMap.mem_entries.mpr found,List.mem_singleton.mpr rfl⟩

omit short in
theorem fullEntries_sorted : (fullEntries texts sshmt).Pairwise fun e later => e.1 < later.1 := by
  refine List.pairwise_flatMap.mpr ⟨?_,?_⟩
  · intro e member
    obtain ⟨_,_,_,_,value,_,single⟩ := (full_holds history e.1 e.2).mp (OrderedMap.mem_entries.mp member)
    rw [single]
    exact List.pairwise_singleton _ _
  · refine sshmt.sorted.imp ?_
    intro e later before first inFirst second inSecond
    obtain ⟨_,_,rfl⟩ := List.mem_map.mp inFirst
    obtain ⟨_,_,rfl⟩ := List.mem_map.mp inSecond
    exact before

theorem fully_reads {t : Ptree} : FullyAnswerable texts k t ↔
    t.writable = true ∧ ∀ e ∈ fullEntries texts sshmt, t.get e.1 = .ok e.2 := by
  constructor
  · intro answer
    refine ⟨answer.writes,?_⟩
    intro e member
    obtain ⟨id,value,i,inside,here,rfl⟩ := (mem_fullEntries short history).mp member
    exact answer.reads id value i inside here
  · rintro ⟨writes,reads⟩
    exact ⟨writes,fun id value i inside here =>
      reads _ ((mem_fullEntries short history).mpr ⟨id,value,i,inside,here,rfl⟩)⟩

omit short history in
theorem valueAt_known {id : Text} {i : Nat} {value : ν} (here : k.valueAt id i = some value) :
    (k.gatheredStatsMap.find id).isSome = true := by
  obtain ⟨_,found,_⟩ := Option.bind_eq_some_iff.mp here
  rw [found]
  rfl

theorem separate_fullApart (separate : FullySeparate k) : Ptree.Apart (fullEntries texts sshmt) := by
  refine ⟨?_,?_,?_⟩
  · intro e member
    obtain ⟨id,_,i,_,_,rfl⟩ := (mem_fullEntries short history).mp member
    exact List.append_ne_nil_of_left_ne_nil (statsPath_named id) _
  · intro e member front dot
    obtain ⟨id,_,i,_,_,rfl⟩ := (mem_fullEntries short history).mp member
    exact absurd dot (fullPath_undotted id front i)
  · intro e member other second rest further
    obtain ⟨id,_,i,inside,here,rfl⟩ := (mem_fullEntries short history).mp member
    obtain ⟨longer,_,j,_,there,rfl⟩ := (mem_fullEntries short history).mp second
    exact absurd (fullPath_further.mp ⟨rest,further⟩)
      (separate id longer (valueAt_known here) (valueAt_known there) i inside)

theorem fullApart_answers (apart : Ptree.Apart (fullEntries texts sshmt)) :
    FullyAnswerable texts k (Ptree.puts (fullEntries texts sshmt) started) := by
  have clear : ∀ e ∈ fullEntries texts sshmt, ∀ keys, keys <+: fragments e.1 → keys ≠ [] →
      Ptree.walk keys started = none := by
    intro e member keys front some
    obtain ⟨id,_,i,_,_,rfl⟩ := (mem_fullEntries short history).mp member
    rw [fullPath_fragments] at front
    cases keys with
    | nil => exact absurd rfl some
    | cons first rest =>
      have top : first = "stats".toList := (List.cons_prefix_cons.mp front).1
      have absent : started.find "stats".toList = none := rfl
      rw [Ptree.walk_cons,top,absent]
      rfl
  have grown := apart.grown_puts rfl clear (fullEntries_sorted history) rfl
  exact (fully_reads short history).mpr ⟨grown.writes,grown.reads⟩

theorem valueAt_all {id : Text} (known : (k.gatheredStatsMap.find id).isSome = true) {i : Nat}
    (inside : i < k.historyLength) : ∃ value, k.valueAt id i = some value := by
  obtain ⟨values,found⟩ := Option.isSome_iff_exists.mp known
  have below : i ∈ indices k.historyLength := by
    rwa [indices,Nat.min_eq_left (Nat.le_of_lt short),List.mem_range]
  obtain ⟨value,here⟩ := accessed_inside history _ (mem_fullAccesses.mpr ⟨id,values,found,i,below,rfl⟩)
  exact ⟨value,by rw [valueAt,found]; exact here⟩

theorem answers_separate (filled : ∀ value, texts.tree value ≠ []) {t : Ptree} (answer : FullyAnswerable texts k t) :
    FullySeparate k := by
  intro id other known knownOther i inside within
  obtain ⟨writes,reads⟩ := (fully_reads short history).mp answer
  obtain ⟨value,here⟩ := valueAt_all short history known inside
  obtain ⟨value',there⟩ := valueAt_all short history knownOther inside
  have texted : ∀ e ∈ fullEntries texts sshmt, e.2 ≠ [] := by
    intro e member
    obtain ⟨_,value,_,_,_,rfl⟩ := (mem_fullEntries short history).mp member
    exact filled value
  have first : (fullPath id i,texts.tree value) ∈ fullEntries texts sshmt :=
    (mem_fullEntries short history).mpr ⟨id,value,i,inside,here,rfl⟩
  have second : (fullPath other i,texts.tree value') ∈ fullEntries texts sshmt :=
    (mem_fullEntries short history).mpr ⟨other,value',i,inside,there,rfl⟩
  obtain ⟨rest,further⟩ := (fullPath_further (j := i)).mpr within
  have nothing : rest = [] := Ptree.reads_below writes reads texted first second further
  rw [nothing] at further
  exact fullPath_undotted other _ i further

end Report

-- The whole history can be sent, with every value under the path of its id and
-- index, exactly if no id is or goes on from such a path of another.
theorem history_answerable {texts : ValueTexts ν} (filled : ∀ value, texts.tree value ≠ []) {k : StatsKeeper ν Q}
    (short : k.historyLength < 2 ^ 32) {t : Ptree} (reported : full texts k started = some t) :
    FullyAnswerable texts k t ↔ FullySeparate k := by
  cases history : k.getFullStatsHistory with
  | none =>
    rw [full,history] at reported
    cases reported
  | some sshmt =>
    rw [full_puts history] at reported
    cases reported
    constructor
    · intro answer
      exact answers_separate short history filled answer
    · intro separate
      exact fullApart_answers short history (separate_fullApart short history separate)

def rounded : StatsKeeper Nat Unit :=
  ((StatsKeeper.fresh 1).setStatValue "a".toList 3).setStatValue "a.00".toList 4 |>.gather 7 fun _ => 0

theorem history_answerable_rounded : ∃ t, full numbers rounded started = some t ∧
    (FullyAnswerable numbers rounded t ↔ FullySeparate rounded) := by
  have some : (full numbers rounded started).isSome = true := by decide +kernel
  obtain ⟨t,reported⟩ := Option.isSome_iff_exists.mp some
  exact ⟨t,reported,history_answerable (fun _ => Nat.toDigits_ne_nil) (by decide) reported⟩

end StatsReporter
end Kisscpp
