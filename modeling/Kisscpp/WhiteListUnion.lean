import Kisscpp.WhiteLists
import Kisscpp.WhiteListMerge
import Kisscpp.ConfigOverride

namespace Kisscpp
open TextLines PropertyTree

def applications (t : Ptree) : List Ptree :=
  ((Ptree.walk ["kcc-white-list".toList,"application-list".toList] t).getD .empty).named "application".toList

-- An entry as it is written: an id, and a flag or a list of values.
structure Application (e : Ptree) : Prop where
  id : ∃ a, e.find "id".toList = some (.leaf a)
  flag : ∀ x, e.find "all-instances".toList = some x → x.children = []
  values : ∀ l, e.find "instance-list".toList = some l → ∀ v ∈ l.children, v.2.children = []
  own : allInstances e ∨ ∃ l, e.find "instance-list".toList = some l

theorem Application.readable {e : Ptree} (application : Application e) : Readable e := by
  obtain ⟨a,found⟩ := application.id
  exact ⟨⟨_,found⟩,application.own⟩

theorem Application.parent {e : Ptree} (application : Application e) : e.children ≠ [] := by
  obtain ⟨a,found⟩ := application.id
  exact List.ne_nil_of_mem (Ptree.find_mem found)

def Idle (e : Ptree) : Prop := ∀ i, ¬ allows e i

theorem Idle.empty_list {e l : Ptree} (idle : Idle e) (found : e.find "instance-list".toList = some l) : l.children = [] := by
  cases children : l.children with
  | nil => rfl
  | cons v rest =>
    refine absurd ?_ (idle v.2.data)
    exact .inr ⟨l,found,by simp [Ptree.values,children]⟩

section Copied
variable {e f : Ptree} (application : Application f) {count : Nat} (repeated : 0 < count) (depth : Nat)

include repeated in
theorem copied_alone : Application f → idOf (copied count (depth + 2) .empty f) = idOf f ∧
    Readable (copied count (depth + 2) .empty f) ∧ ∀ i, allows (copied count (depth + 2) .empty f) i ↔ allows f i := by
  intro application
  obtain ⟨a,foundId⟩ := application.id
  have newId := find_copied_leaf repeated (depth + 1) (e := .empty) rfl foundId
  have newFlag := find_copied_childless repeated (depth + 1) (e := .empty) rfl application.flag
  have flags : allInstances (copied count (depth + 2) .empty f) ↔ allInstances f := by
    rw [allInstances,newFlag,allInstances]
  have newList := fun l found => find_copied_list repeated depth (e := .empty) rfl found (application.values l found)
  have noList : f.find "instance-list".toList = none →
      (copied count (depth + 2) .empty f).find "instance-list".toList = none := fun none =>
    find_copied_none repeated (depth + 1) rfl none
  refine ⟨?_,⟨⟨_,newId⟩,?_⟩,?_⟩
  · rw [idOf,newId,idOf,foundId]
  · rcases application.own with all | ⟨l,found⟩
    · exact .inl (flags.mpr all)
    · obtain ⟨now,finds,_⟩ := newList l found
      exact .inr ⟨now,finds⟩
  · intro i
    refine or_congr flags ?_
    rw [lists,lists]
    cases found : f.find "instance-list".toList with
    | none => rw [noList found]
    | some l =>
      obtain ⟨now,finds,same⟩ := newList l found
      rw [finds]
      simp [same]

include repeated in
theorem copied_onto (present : Application e) (application : Application f) :
    idOf (copied count (depth + 2) e f) = idOf e ∧ Readable (copied count (depth + 2) e f) ∧
      (Idle f → ∀ i, allows (copied count (depth + 2) e f) i ↔ allows e i) := by
  obtain ⟨a,foundId⟩ := present.id
  have newId := find_copied count (depth + 1) f foundId
  have kept : ∀ {key child}, e.find key = some child →
      ∃ now, (copied count (depth + 2) e f).find key = some now ∧ now.data = child.data := fun {_ _} found =>
    ⟨_,find_copied count (depth + 1) f found,Ptree.data_grafted _ _⟩
  have flagStays : allInstances e → allInstances (copied count (depth + 2) e f) := by
    rintro ⟨x,found,value⟩
    obtain ⟨now,finds,same⟩ := kept found
    exact ⟨now,finds,same.trans value⟩
  refine ⟨?_,⟨⟨_,newId⟩,?_⟩,?_⟩
  · rw [idOf,newId,idOf,foundId]
    exact Ptree.data_grafted _ _
  · rcases present.own with all | ⟨l,found⟩
    · exact .inl (flagStays all)
    · obtain ⟨now,finds,_⟩ := kept found
      exact .inr ⟨now,finds⟩
  · intro idle i
    have noFlag : ¬ allInstances f := fun all => idle i (.inl all)
    have flags : allInstances (copied count (depth + 2) e f) ↔ allInstances e := by
      refine ⟨?_,flagStays⟩
      rintro ⟨now,finds,value⟩
      cases found : e.find "all-instances".toList with
      | none =>
        rw [find_copied_childless repeated (depth + 1) found application.flag] at finds
        exact absurd ⟨now,finds,value⟩ noFlag
      | some x =>
        obtain ⟨kept,keeps,same⟩ := kept found
        cases finds.symm.trans keeps
        exact ⟨x,found,same.symm.trans value⟩
    by_cases all : allInstances e
    · exact iff_of_true (.inl (flags.mpr all)) (.inl all)
    · refine or_congr flags ?_
      obtain ⟨l,found⟩ := present.own.resolve_left all
      have nothing : ((f.find "instance-list".toList).getD .empty).children = [] := by
        cases own : f.find "instance-list".toList with
        | none => rfl
        | some other => exact idle.empty_list own
      have now := find_copied count (depth + 1) f found
      rw [copied_childless nothing] at now
      rw [lists,lists,now,found]

end Copied

theorem walk_two {outer inner : Text} {t found : Ptree} :
    Ptree.walk [outer,inner] t = some found ↔ ∃ middle, t.find outer = some middle ∧ middle.find inner = some found := by
  simp [Option.bind_eq_some_iff]

def DroppedIdle (common own : List Ptree) : Prop := ∀ e ∈ (if common = [] then own.tail else own), Idle e

structure Merged (common own merged : List Ptree) : Prop where
  kept : own = [] → merged = common
  alone : ∀ f rest, common = [] → own = f :: rest →
    ∃ r, merged = [r] ∧ idOf r = idOf f ∧ Readable r ∧ ∀ i, allows r i ↔ allows f i
  onto : ∀ e rest f others, common = e :: rest → own = f :: others →
    ∃ r, merged = r :: rest ∧ idOf r = idOf e ∧ Readable r ∧ (Idle f → ∀ i, allows r i ↔ allows e i)

def Unites (common own merged : List Ptree) : Prop :=
  ∀ a i, (∃ e ∈ merged, idOf e = a ∧ allows e i) ↔ ∃ e ∈ common ++ own, idOf e = a ∧ allows e i

theorem merged_readable {common own merged : List Ptree} (result : Merged common own merged)
    (entries : ∀ e ∈ common ++ own, Application e) : ∀ e ∈ merged, Readable e := by
  intro e member
  cases own with
  | nil =>
    rw [result.kept rfl] at member
    exact (entries e (List.mem_append_left _ member)).readable
  | cons f others =>
    cases common with
    | nil =>
      obtain ⟨r,rfl,_,readable,_⟩ := result.alone f others rfl rfl
      rw [List.mem_singleton.mp member]
      exact readable
    | cons first rest =>
      obtain ⟨r,rfl,_,readable,_⟩ := result.onto first rest f others rfl rfl
      rcases List.mem_cons.mp member with rfl | later
      · exact readable
      · exact (entries e (List.mem_append_left _ (List.mem_cons_of_mem _ later))).readable

theorem merged_ids {common own merged : List Ptree} (result : Merged common own merged) :
    merged.map idOf = if common = [] then (own.map idOf).take 1 else common.map idOf := by
  cases own with
  | nil =>
    rw [result.kept rfl]
    cases common with
    | nil => rfl
    | cons => rfl
  | cons f others =>
    cases common with
    | nil =>
      obtain ⟨r,rfl,same,_⟩ := result.alone f others rfl rfl
      simp [same]
    | cons first rest =>
      obtain ⟨r,rfl,same,_⟩ := result.onto first rest f others rfl rfl
      simp [same]

theorem union_dropped {common own merged : List Ptree} (result : Merged common own merged)
    (distinct : ((common ++ own).map idOf).Nodup) (union : Unites common own merged) : DroppedIdle common own := by
  rw [List.map_append,List.nodup_append] at distinct
  obtain ⟨_,ownDistinct,apart⟩ := distinct
  intro e dropped i allowed
  have inBoth : e ∈ common ++ own := by
    split at dropped
    · exact List.mem_append_right _ (List.mem_of_mem_tail dropped)
    · exact List.mem_append_right _ dropped
  obtain ⟨kept,member,same,_⟩ := (union (idOf e) i).mpr ⟨e,inBoth,rfl,allowed⟩
  have listed : idOf e ∈ merged.map idOf := List.mem_map.mpr ⟨kept,member,same⟩
  rw [merged_ids result] at listed
  split at listed
  · next blank =>
    rw [if_pos blank] at dropped
    cases own with
    | nil => cases dropped
    | cons f others =>
      have first : idOf e = idOf f := by simpa using listed
      exact (List.nodup_cons.mp ownDistinct).1 (first ▸ List.mem_map_of_mem dropped)
  · next filled =>
    rw [if_neg filled] at dropped
    exact apart _ listed _ (List.mem_map_of_mem dropped) rfl

theorem alone_unites {f r : Ptree} {others : List Ptree} (same : idOf r = idOf f)
    (allowed : ∀ i, allows r i ↔ allows f i) (idle : ∀ e ∈ others, Idle e) : Unites [] (f :: others) [r] := by
  intro a i
  constructor
  · rintro ⟨e,member,named,admitted⟩
    rw [List.mem_singleton.mp member] at named admitted
    exact ⟨f,List.mem_cons_self,same.symm.trans named,(allowed i).mp admitted⟩
  · rintro ⟨e,member,named,admitted⟩
    rcases List.mem_cons.mp member with rfl | later
    · exact ⟨r,List.mem_singleton_self _,same.trans named,(allowed i).mpr admitted⟩
    · exact absurd admitted (idle e later i)

theorem onto_unites {first r : Ptree} {rest own : List Ptree} (same : idOf r = idOf first)
    (allowed : ∀ i, allows r i ↔ allows first i) (idle : ∀ e ∈ own, Idle e) :
    Unites (first :: rest) own (r :: rest) := by
  intro a i
  constructor
  · rintro ⟨e,member,named,admitted⟩
    rcases List.mem_cons.mp member with rfl | later
    · exact ⟨first,by simp,same.symm.trans named,(allowed i).mp admitted⟩
    · exact ⟨e,by simp [later],named,admitted⟩
  · rintro ⟨e,member,named,admitted⟩
    rcases List.mem_append.mp member with old | new
    · rcases List.mem_cons.mp old with rfl | later
      · exact ⟨r,List.mem_cons_self,same.trans named,(allowed i).mpr admitted⟩
      · exact ⟨e,List.mem_cons_of_mem _ later,named,admitted⟩
    · exact absurd admitted (idle e new i)

theorem merged_distinct {common own merged : List Ptree} (result : Merged common own merged)
    (distinct : ((common ++ own).map idOf).Nodup) : (merged.map idOf).Nodup := by
  rw [merged_ids result]
  rw [List.map_append] at distinct
  split
  · exact (List.take_sublist 1 _).nodup (List.Nodup.of_append_right distinct)
  · exact List.Nodup.of_append_left distinct

theorem merged_union {common own merged : List Ptree} (result : Merged common own merged)
    (distinct : ((common ++ own).map idOf).Nodup) : Unites common own merged ↔ DroppedIdle common own := by
  refine ⟨union_dropped result distinct,fun idle => ?_⟩
  cases own with
  | nil =>
    intro a i
    rw [result.kept rfl,List.append_nil]
  | cons f others =>
    cases common with
    | nil =>
      obtain ⟨r,rfl,same,_,allowed⟩ := result.alone f others rfl rfl
      exact alone_unites same allowed idle
    | cons first rest =>
      obtain ⟨r,rfl,same,_,allowed⟩ := result.onto first rest f others rfl rfl
      have idle : ∀ e ∈ f :: others, Idle e := idle
      exact onto_unites same (allowed (idle f List.mem_cons_self)) idle

theorem merged_parts {commonList ownList : Ptree}
    (entries : ∀ e ∈ commonList.named "application".toList ++ ownList.named "application".toList, Application e)
    {count depth : Nat} (repeated : ownList.children ≠ [] → 0 < count) (enough : sizeOf ownList ≤ depth + 2) :
    Merged (commonList.named "application".toList) (ownList.named "application".toList)
      ((copied count (depth + 3) commonList ownList).named "application".toList) := by
  have parents : ∀ e ∈ ownList.named "application".toList, e.children ≠ [] := fun e member =>
    (entries e (List.mem_append_right _ member)).parent
  have copies : ∀ f others, ownList.named "application".toList = f :: others → Application f ∧ ∃ times, 0 < times ∧
      (copied count (depth + 3) commonList ownList).named "application".toList =
        copied times (depth + 2) ((commonList.named "application".toList).headD .empty) f ::
          (commonList.named "application".toList).tail := by
    intro f others ownEntries
    have first : f ∈ ownList.named "application".toList := by rw [ownEntries]; exact List.mem_cons_self
    obtain ⟨v,inList,_⟩ := List.mem_map.mp first
    have parent := List.ne_nil_of_mem (List.mem_filter.mp inList).1
    exact ⟨entries f (List.mem_append_right _ first),merged_entries ownEntries parents (repeated parent) enough⟩
  refine ⟨fun none => merged_entries_none none count (depth + 2),?_,?_⟩
  · intro f rest commonEntries ownEntries
    obtain ⟨application,times,some,named⟩ := copies f rest ownEntries
    rw [commonEntries] at named
    exact ⟨_,named,copied_alone some depth application⟩
  · intro e rest f others commonEntries ownEntries
    obtain ⟨application,times,some,named⟩ := copies f others ownEntries
    rw [commonEntries] at named
    have present := entries e (List.mem_append_left _ (by rw [commonEntries]; exact List.mem_cons_self))
    exact ⟨_,named,copied_onto some depth present application⟩

theorem loadConfig_merged {common own merged : Ptree} {fuel : Nat} (env : Environment) (cfg : Config)
    (ran : ptreeMerge fuel common own [] = .ok merged) : cfg.loadConfig fuel env (.holds common) (.holds own) =
      match Config.populateWhiteLists {cfg with cfgData := merged} with
      | .error e => .error (.badPath e)
      | .ok cfg => .ok (cfg.populateDefaultDirs env) := by
  rw [Config.loadConfig,loadFiles_merged cfg ran]
  rfl

theorem loadConfig_unmerged {common own : Ptree} {fuel : Nat} (env : Environment) (cfg : Config) {e : MergeFailure}
    (failed : ptreeMerge fuel common own [] = .error e) :
    cfg.loadConfig fuel env (.holds common) (.holds own) = .error (.merge e) := by
  simp only [Config.loadConfig,Config.loadFiles,Config.loadFile,bind,Except.bind,failed]
  rfl

-- Two configurations with an application list each. The instance's list is
-- free of keys with a dot, and no other key of its white list and no key at the
-- root of either file is cut into a path into the list or its flag.
structure ListLevels (common own commonOuter ownOuter commonList ownList : Ptree) : Prop
    extends FileLevels ["all-apps".toList,"application-list".toList] common own commonOuter ownOuter where
  inCommonOuter : commonOuter.find "application-list".toList = some commonList
  inOwnOuter : ownOuter.find "application-list".toList = some ownList
  list : Unaliased "application-list".toList ownOuter
  dotless : Mergeable ownList

section Lists
variable {common own commonOuter ownOuter commonList ownList : Ptree}
  (levels : ListLevels common own commonOuter ownOuter commonList ownList)
include levels

theorem ListLevels.applications : applications common = commonList.named "application".toList ∧
    applications own = ownList.named "application".toList := by
  have inCommon := walk_two.mpr ⟨_,levels.inCommon,levels.inCommonOuter⟩
  have inOwn := walk_two.mpr ⟨_,levels.inOwn,levels.inOwnOuter⟩
  constructor
  · rw [Kisscpp.applications,inCommon,Option.getD_some]
  · rw [Kisscpp.applications,inOwn,Option.getD_some]

theorem ListLevels.unset {depth : Nat} (passable : Passable false own) (enough : descent false ownOuter ≤ depth + 1)
    (commonUnset : Config.isTrue common "kcc-white-list.all-apps".toList = false)
    (ownUnset : Config.isTrue own "kcc-white-list.all-apps".toList = false) :
    Config.isTrue ((writes (depth + 2) false own).foldl (written []) common) "kcc-white-list.all-apps".toList = false := by
  have splits : reduced "kcc-white-list.all-apps".toList = ["kcc-white-list".toList,"all-apps".toList] := rfl
  have merged := merged_isTrue levels.toFileLevels depth splits List.mem_cons_self passable enough
  apply eq_false_of_ne_true
  intro all
  rcases merged.mp all with inCommon | inOwn
  · rw [commonUnset] at inCommon
    cases inCommon
  · obtain ⟨_,v,first,entry,value⟩ := inOwn
    have found := spelled_find (by decide) entry.2 first
    rw [(isTrue_below _ splits levels.inOwn).mpr ⟨_,found,value⟩] at ownUnset
    cases ownUnset

-- Of the instance's entries only the first takes part, and in the entry that
-- comes first in the common list; every other one is lost.
theorem loaded_unites (passable : Passable false own)
    (entries : ∀ e ∈ applications common ++ applications own, Application e)
    (distinct : ((applications common ++ applications own).map idOf).Nodup)
    (commonUnset : Config.isTrue common "kcc-white-list.all-apps".toList = false)
    (ownUnset : Config.isTrue own "kcc-white-list.all-apps".toList = false) (appId appInstance : Text) (depth : Nat)
    (enough : descent false ownOuter ≤ depth + 4) (small : sizeOf ownList ≤ depth + 2) :
    let populated := Config.populateWhiteLists {Config.fresh appId appInstance with
      cfgData := (writes (depth + 5) false own).foldl (written []) common}
    populated = .error ⟨"kcc-white-list.ip-list".toList⟩ ∨ ∃ read, populated = .ok read ∧
      ((∀ a i, read.isAllowedClient a i = true ↔
          ∃ e ∈ applications common ++ applications own, idOf e = a ∧ allows e i) ↔
        DroppedIdle (applications common) (applications own)) := by
  intro populated
  obtain ⟨inCommon,inOwn⟩ := levels.applications
  rw [inCommon,inOwn] at entries distinct ⊢
  obtain ⟨outerNow,count,finds,listed,repeated⟩ := merged_list levels.toFileLevels (by simp) (by decide) (by decide)
    levels.list levels.inCommonOuter levels.inOwnOuter levels.dotless (depth + 3)
  have result := merged_parts entries repeated small
  have flag := levels.unset passable enough commonUnset ownUnset
  have unset : ∀ x, outerNow.find "all-apps".toList = some x → x.data ≠ "true".toList := by
    intro x here value
    rw [(isTrue_below _ rfl finds).mpr ⟨x,here,value⟩] at flag
    cases flag
  rcases populate_applications {Config.fresh appId appInstance with
      cfgData := (writes (depth + 5) false own).foldl (written []) common} finds listed unset rfl
      (merged_readable result entries) (merged_distinct result distinct) with missing | ⟨read,ran,reads⟩
  · exact .inl missing
  · refine .inr ⟨read,ran,?_⟩
    refine Iff.trans ?_ (merged_union result distinct)
    refine forall_congr' fun a => forall_congr' fun i => ?_
    rw [reads]

end Lists

theorem white_list_unites {common own commonOuter ownOuter commonList ownList : Ptree}
    (levels : ListLevels common own commonOuter ownOuter commonList ownList)
    (entries : ∀ e ∈ applications common ++ applications own, Application e)
    (distinct : ((applications common ++ applications own).map idOf).Nodup)
    (commonUnset : Config.isTrue common "kcc-white-list.all-apps".toList = false)
    (ownUnset : Config.isTrue own "kcc-white-list.all-apps".toList = false) :
    ∃ enough, ∀ fuel ≥ enough, ∀ env appId appInstance,
      ¬ (Rooted own ∧ Passable false own) ∧
        (∃ e, (Config.fresh appId appInstance).loadConfig fuel env (.holds common) (.holds own) = .error (.merge e)) ∨
      (Config.fresh appId appInstance).loadConfig fuel env (.holds common) (.holds own) =
        .error (.badPath ⟨"kcc-white-list.ip-list".toList⟩) ∨
      ∃ loaded, (Config.fresh appId appInstance).loadConfig fuel env (.holds common) (.holds own) = .ok loaded ∧
        ((∀ a i, loaded.isAllowedClient a i = true ↔
            ∃ e ∈ applications common ++ applications own, idOf e = a ∧ allows e i) ↔
          ∀ e ∈ (if applications common = [] then (applications own).tail else applications own), ∀ i, ¬ allows e i) := by
  refine ⟨descent false own + descent false ownOuter + sizeOf ownList + 5,?_⟩
  intro fuel enough env appId appInstance
  obtain ⟨depth,rfl⟩ : ∃ depth, fuel = depth + 5 := ⟨fuel - 5,by omega⟩
  by_cases clear : Rooted own ∧ Passable false own
  · have ran := merge_writes clear.1 clear.2 (show descent false own ≤ depth + 5 by omega) common
    rw [loadConfig_merged env _ ran]
    rcases loaded_unites levels clear.2 entries distinct commonUnset ownUnset appId appInstance depth (by omega)
      (by omega) with missing | ⟨read,populated,union⟩
    · rw [missing]
      exact .inr (.inl rfl)
    · rw [populated]
      exact .inr (.inr ⟨_,rfl,union⟩)
  · cases merging : ptreeMerge (depth + 5) common own [] with
    | error e => exact .inl ⟨clear,e,loadConfig_unmerged env _ merging⟩
    | ok merged => exact absurd ⟨merge_rooted merging,merge_passable merging⟩ clear

def allowing (id : Text) (more : List (Text × Ptree)) : Text × Ptree :=
  ("application".toList,.node [] (("id".toList,.leaf id) :: more))

def instanceList (instances : List (Text × Ptree)) : Text × Ptree := ("instance-list".toList,.node [] instances)
def everyInstance : Text × Ptree := ("all-instances".toList,.leaf "true".toList)

def whiteListed (addresses : List (Text × Ptree)) (entries : List (Text × Ptree)) : Ptree :=
  .node [] [("kcc-white-list".toList,.node [] (addresses ++ [("application-list".toList,.node [] entries)]))]

def anyAddress : List (Text × Ptree) := [("all-ip-addrs".toList,.leaf "true".toList)]

theorem mergeable_leaf (value : Text) : Mergeable (.leaf value) := .node (by simp) (by simp) (by simp)

theorem mergeable_parent {data : Text} {children : List (Text × Ptree)} (named : ∀ v ∈ children, v.1 ≠ [] ∧ Plain v.1)
    (below : ∀ v ∈ children, Mergeable v.2) : Mergeable (.node data children) :=
  .node (fun v member => (named v member).2) (fun v member blank => absurd blank (named v member).1) below

def fooListed : Text × Ptree := allowing "foo".toList [instanceList [("id".toList,.leaf "3".toList)]]
def barEverywhere : Text × Ptree := allowing "bar".toList [everyInstance]
def bazEverywhere : Text × Ptree := allowing "baz".toList [everyInstance]

theorem fooListed_application : Application fooListed.2 := by
  refine ⟨⟨_,rfl⟩,?_,?_,.inr ⟨_,rfl⟩⟩
  · intro x found
    cases found
  · intro l found
    cases found
    intro v member
    rw [List.mem_singleton.mp member]
    rfl

def barNowhere : Text × Ptree := allowing "bar".toList [instanceList []]

def commonFoo : Ptree := whiteListed anyAddress [fooListed]
def instanceBar : Ptree := whiteListed [] [barEverywhere]
def commonTwo : Ptree := whiteListed anyAddress [fooListed,bazEverywhere]
def instanceIdle : Ptree := whiteListed [] [barNowhere]

theorem bazEverywhere_application : Application bazEverywhere.2 := by
  refine ⟨⟨_,rfl⟩,?_,?_,.inl ⟨_,rfl,rfl⟩⟩
  · intro x found
    cases found
    rfl
  · intro l found
    cases found

theorem barNowhere_application : Application barNowhere.2 := by
  refine ⟨⟨_,rfl⟩,?_,?_,.inr ⟨_,rfl⟩⟩
  · intro x found
    cases found
  · intro l found
    cases found
    intro v member
    cases member

theorem barNowhere_idle : Idle barNowhere.2 := by
  intro i allowed
  rcases allowed with ⟨flag,found,_⟩ | ⟨l,found,listed⟩
  · cases found
  · cases found
    cases listed

theorem barNowhere_mergeable : Mergeable (.node [] [barNowhere]) := by
  refine mergeable_parent (by decide) ?_
  intro v member
  rw [List.mem_singleton.mp member]
  refine mergeable_parent (by decide) ?_
  intro w inEntry
  rcases List.mem_cons.mp inEntry with rfl | later
  · exact mergeable_leaf _
  · rw [List.mem_singleton.mp later]
    exact mergeable_leaf _

theorem white_list_unites_idle : ∃ enough, ∀ fuel ≥ enough, ∃ loaded,
    someConfig.loadConfig fuel ⟨none,none⟩ (.holds commonTwo) (.holds instanceIdle) = .ok loaded ∧
      ∀ a i, loaded.isAllowedClient a i = true ↔
        ∃ e ∈ applications commonTwo ++ applications instanceIdle, idOf e = a ∧ allows e i := by
  have levels : ListLevels commonTwo instanceIdle ((commonTwo.find "kcc-white-list".toList).getD .empty)
      ((instanceIdle.find "kcc-white-list".toList).getD .empty) (.node [] [fooListed,bazEverywhere])
      (.node [] [barNowhere]) := by
    refine ⟨⟨rfl,rfl,?_,?_⟩,rfl,rfl,?_,barNowhere_mergeable⟩
    all_goals decide +kernel
  have entries : ∀ e ∈ applications commonTwo ++ applications instanceIdle, Application e := by
    intro e member
    have named : e = fooListed.2 ∨ e = bazEverywhere.2 ∨ e = barNowhere.2 := by
      simpa using show e ∈ [fooListed.2,bazEverywhere.2,barNowhere.2] from member
    rcases named with rfl | rfl | rfl
    · exact fooListed_application
    · exact bazEverywhere_application
    · exact barNowhere_application
  obtain ⟨enough,unites⟩ :=
    white_list_unites levels entries (by decide +kernel) (by decide +kernel) (by decide +kernel)
  refine ⟨enough + 6,?_⟩
  intro fuel more
  obtain ⟨depth,rfl⟩ : ∃ depth, fuel = depth + 6 := ⟨fuel - 6,by omega⟩
  have answers :
      (someConfig.loadConfig (depth + 6) ⟨none,none⟩ (.holds commonTwo) (.holds instanceIdle)).isOk = true := rfl
  rcases unites (depth + 6) (by omega) ⟨none,none⟩ "app".toList "0".toList with ⟨_,e,failed⟩ | missing | ⟨loaded,ran,union⟩
  · rw [someConfig,failed] at answers
    cases answers
  · rw [someConfig,missing] at answers
    cases answers
  · refine ⟨loaded,ran,union.mpr ?_⟩
    intro e member
    rw [List.mem_singleton.mp (show e ∈ [barNowhere.2] from member)]
    exact barNowhere_idle

-- The instance's "bar" is lost, and its flag opens the common "foo" to every
-- instance.
theorem white_list_widens :
    ∃ loaded, someConfig.loadConfig 10 ⟨none,none⟩ (.holds commonFoo) (.holds instanceBar) = .ok loaded ∧
      loaded.isAllowedClient "foo".toList "9".toList = true ∧
      (¬ ∃ e ∈ applications commonFoo ++ applications instanceBar, idOf e = "foo".toList ∧ allows e "9".toList) ∧
      loaded.isAllowedClient "bar".toList "1".toList = false ∧
      ∃ e ∈ applications commonFoo ++ applications instanceBar, idOf e = "bar".toList ∧ allows e "1".toList := by
  refine ⟨_,rfl,rfl,?_,rfl,barEverywhere.2,.tail _ (.head _),rfl,.inl ⟨_,rfl,rfl⟩⟩
  rintro ⟨e,member,same,allowed⟩
  rcases List.mem_cons.mp (show e ∈ [fooListed.2,barEverywhere.2] from member) with rfl | other
  · rcases allowed with ⟨flag,found,_⟩ | ⟨l,found,listed⟩
    · cases found
    · cases found
      exact absurd listed (by decide)
  · rw [List.mem_singleton.mp other] at same
    exact absurd same (by decide)

end Kisscpp
