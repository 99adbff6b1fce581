import Kisscpp.MergeBelow
import Kisscpp.WhiteListEntries

namespace Kisscpp
open TextLines PropertyTree

def ipList (t : Ptree) : Ptree := (Ptree.walk ["kcc-white-list".toList,"ip-list".toList] t).getD .empty

def AllIpAddrs (t : Ptree) : Prop := Config.isTrue t "kcc-white-list.all-ip-addrs".toList = true

instance (t : Ptree) : Decidable (AllIpAddrs t) := inferInstanceAs (Decidable (_ = true))

theorem ips_fold (values : List (Text × Ptree)) (ips : List Text) (ip : Text) :
    ip ∈ values.foldl (fun ips v => ips.insert v.2.data) ips ↔ ip ∈ ips ∨ ip ∈ (Ptree.node [] values).values := by
  induction values generalizing ips with
  | nil => simp [Ptree.values]
  | cons v rest ih =>
    rw [List.foldl_cons,ih]
    simp only [List.mem_insert_iff,Ptree.values,Ptree.children_node,List.map_cons,List.mem_cons]
    exact or_assoc.trans or_left_comm

theorem answered_bind {ε σ τ : Type} {first : Except ε σ} {next : σ → Except ε τ} {last : τ}
    (ran : first >>= next = .ok last) : ∃ middle, first = .ok middle ∧ next middle = .ok last := by
  cases first with
  | error e => cases ran
  | ok middle => exact ⟨middle,rfl,ran⟩

theorem populateApplications_frame {cfg read : Config} (ran : cfg.populateApplications = .ok read) :
    read.allowAllIpAddrs = cfg.allowAllIpAddrs ∧ read.commsWhiteListIpAddrs = cfg.commsWhiteListIpAddrs := by
  unfold Config.populateApplications at ran
  split at ran
  · cases ran
    exact ⟨rfl,rfl⟩
  · obtain ⟨list,_,looped⟩ := answered_bind ran
    obtain ⟨m,_,last⟩ := answered_bind looped
    cases last
    exact ⟨rfl,rfl⟩

theorem populateIpAddrs_reads {cfg read : Config} (fresh : cfg.commsWhiteListIpAddrs = [])
    (ran : cfg.populateIpAddrs = .ok read) (ip : Text) : read.isAllowedIp ip = true ↔
      cfg.allowAllIpAddrs = true ∨ ip ∈ (ipList cfg.cfgData).values := by
  unfold Config.populateIpAddrs at ran
  split at ran
  · next flag =>
    cases ran
    exact iff_of_true (by simp [Config.isAllowedIp,flag]) (.inl flag)
  · next flag =>
    split at ran
    · cases ran
    · next list here =>
      cases ran
      have cut : reduced "kcc-white-list.ip-list".toList = ["kcc-white-list".toList,"ip-list".toList] := rfl
      have there := Ptree.getChild_walk.mp here
      rw [cut] at there
      rw [ipList,there,Option.getD_some]
      simp only [Config.isAllowedIp,flag,Bool.false_eq_true,if_false,false_or,List.contains_iff_mem,fresh]
      rw [ips_fold]
      simp [Ptree.values]

theorem populated_ips {t outer : Ptree} (found : t.find "kcc-white-list".toList = some outer) {appId appInstance : Text}
    {read : Config} (ran : Config.populateWhiteLists {Config.fresh appId appInstance with cfgData := t} = .ok read)
    (ip : Text) : read.isAllowedIp ip = true ↔ AllIpAddrs t ∨ ip ∈ (ipList t).values := by
  have present : (t.find "kcc-white-list".toList).isSome = true := by rw [found]; rfl
  rw [Config.populateWhiteLists,if_pos present] at ran
  obtain ⟨middle,passed,last⟩ := answered_bind ran
  obtain ⟨flag,ips⟩ := populateApplications_frame last
  have same : read.isAllowedIp ip = middle.isAllowedIp ip := by rw [Config.isAllowedIp,flag,ips,Config.isAllowedIp]
  rw [same]
  exact populateIpAddrs_reads rfl passed ip

-- No key of either file is cut into a path into the flag or the list of
-- addresses, and no other key of the instance's white list into one into its list.
structure TwoLevels (common own commonOuter ownOuter : Ptree) : Prop
    extends FileLevels ["all-ip-addrs".toList,"ip-list".toList] common own commonOuter ownOuter where
  list : Unaliased "ip-list".toList ownOuter

-- Anything else makes an entry without a text where the first part of its key
-- is new to the list.
def Blanks (common own : Ptree) : Prop := ∃ key, common.find key = none ∧ ∃ v, spelled key own = some v ∧ ¬ Entry v

-- Each address of the instance is that of some such entry or in the common
-- list, and no entry without a text is made.
structure EntriesKept (common own : Ptree) : Prop where
  addresses : ∀ v ∈ own.children, v.2.data ∈ common.values ∨ (∃ w ∈ own.children, Entry w ∧ w.2.data = v.2.data) ∨
    v.2.data = [] ∧ Blanks common own
  blank : Blanks common own → [] ∈ common.values ∨ [] ∈ own.values

theorem plain_single {key first : Text} (cut : fragments key = [first]) : Plain key := by
  by_contra dotted
  have long := fragments_long dotted
  rw [cut] at long
  simp at long

theorem mem_writes_single {depth : Nat} {flag : Bool} {t : Ptree} {key ip : Text} :
    ([key],ip) ∈ writes (depth + 1) flag t ↔ ∃ w ∈ t.children, Entry w ∧ w.1 = key ∧ w.2.data = ip := by
  rw [writes_eq,List.mem_flatMap]
  refine exists_congr fun v => and_congr_right fun _ => ?_
  constructor
  · intro inWrites
    by_cases childless : v.2.children = []
    · have own : ([key],ip) = (fragments v.1,v.2.data) := by simpa [childWrites,childless] using inWrites
      obtain ⟨cut,data⟩ := Prod.mk.inj own
      have plain := plain_single cut.symm
      rw [fragments_single plain] at cut
      exact ⟨⟨childless,plain⟩,(List.singleton_inj.mp cut).symm,data.symm⟩
    · exact absurd (childWrites_deep childless _ inWrites) (by simp)
  · intro entry
    obtain ⟨⟨childless,plain⟩,rfl,rfl⟩ := entry
    simp [childWrites,childless,fragments_single plain]

theorem mem_values_brought {commonList ownList : Ptree} (passable : Passable false ownList) {depth : Nat}
    (enough : descent false ownList ≤ depth + 1) {count : Nat} (repeated : ownList.children ≠ [] → 0 < count) (ip : Text) :
    ip ∈ (Ptree.grafted commonList (copies count (writes (depth + 1) false ownList))).values ↔
      ip ∈ commonList.values ∨ (∃ w ∈ ownList.children, Entry w ∧ w.2.data = ip) ∨
        ip = [] ∧ Blanks commonList ownList := by
  by_cases childless : ownList.children = []
  · have nothing : writes (depth + 1) false ownList = [] := by simp [writes_eq,childless]
    simp [nothing,childless,Blanks,spelled]
  · have times := repeated childless
    have long : ∀ e ∈ copies count (writes (depth + 1) false ownList), e.1 ≠ [] :=
      fun e member => (writes_plain _ _ _ e (mem_copies.mp member).2).1
    rw [Ptree.mem_values_grafted long]
    refine or_congr Iff.rfl (or_congr ?_ (and_congr Iff.rfl ?_))
    · simp only [mem_copies,times,true_and,mem_writes_single]
      constructor
      · intro single
        obtain ⟨_,v,member,entry,_,data⟩ := single
        exact ⟨v,member,entry,data⟩
      · intro entry
        obtain ⟨v,member,entry,data⟩ := entry
        exact ⟨v.1,v,member,entry,rfl,data⟩
    · simp only [Ptree.Made,Blanks,find_copies times]
      refine exists_congr fun key => and_congr_right fun _ => ?_
      constructor
      · intro made
        obtain ⟨e,first,deep⟩ := made
        cases found : spelled key ownList with
        | none =>
          rw [first_writes passable enough,found] at first
          cases first
        | some v =>
          obtain ⟨own,same,single,_⟩ := first_write passable enough found
          cases first.symm.trans same
          exact ⟨v,rfl,fun entry => deep (single.mpr entry)⟩
      · intro blank
        obtain ⟨v,found,other⟩ := blank
        obtain ⟨e,first,single,_⟩ := first_write passable enough found
        exact ⟨e,first,fun one => other (single.mp one)⟩

theorem ipList_below {t outer : Ptree} (found : t.find "kcc-white-list".toList = some outer) :
    ipList t = (outer.find "ip-list".toList).getD .empty := by
  rw [ipList,Ptree.walk_below found]

theorem allIpAddrs_below {t outer : Ptree} (found : t.find "kcc-white-list".toList = some outer) :
    AllIpAddrs t ↔ ∃ flag, outer.find "all-ip-addrs".toList = some flag ∧ flag.data = "true".toList :=
  isTrue_below _ rfl found

section Merged
variable {common own commonOuter ownOuter : Ptree} (levels : TwoLevels common own commonOuter ownOuter) (depth : Nat)
include levels

theorem TwoLevels.passableList (passable : Passable false own) : Passable false (ipList own) := by
  rw [ipList_below levels.inOwn]
  cases inOwn : ownOuter.find "ip-list".toList with
  | none => constructor <;> simp [Ptree.empty]
  | some list => exact passable_below (by decide) (by decide) (levels.passable passable) inOwn

theorem merged_allIpAddrs (passable : Passable false own) (enough : descent false ownOuter ≤ depth + 1) :
    AllIpAddrs ((writes (depth + 2) false own).foldl (written []) common) ↔ AllIpAddrs common ∨
      commonOuter.find "all-ip-addrs".toList = none ∧
        ∃ v, spelled "all-ip-addrs".toList ownOuter = some v ∧ Entry v ∧ v.2.data = "true".toList :=
  merged_isTrue levels.toFileLevels depth rfl (by simp) passable enough

theorem merged_ipList :
    ∃ count, ((ipList own).children ≠ [] → 0 < count) ∧
      (ipList ((writes (depth + 2) false own).foldl (written []) common)).children =
        (Ptree.grafted (ipList common) (copies count (writes depth false (ipList own)))).children := by
  obtain ⟨now,finds,inside⟩ := white_list_brought levels.toFileLevels (depth + 1)
  have below := @under_brought own ownOuter _ (by decide) (by decide) levels.list depth
  rw [← ipList_below levels.inOwn] at below
  refine ⟨forks "kcc-white-list".toList own.children * forks "ip-list".toList ownOuter.children,?_,?_⟩
  · intro parent
    rw [ipList_below levels.inOwn] at parent
    cases inOwn : ownOuter.find "ip-list".toList with
    | none =>
      rw [inOwn] at parent
      exact absurd rfl parent
    | some list =>
      rw [inOwn] at parent
      exact forks_brought levels.toFileLevels inOwn parent
  · rw [ipList_below finds,inside _ (by simp),← below]
    cases present : commonOuter.find "ip-list".toList with
    | some list =>
      rw [Ptree.find_grafted _ present,ipList_below levels.inCommon,present]
      rfl
    | none =>
      rw [Ptree.find_grafted_absent _ present,ipList_below levels.inCommon,present]
      cases first : (brought own ownOuter (depth + 1)).find? fun e => e.1.head? == some "ip-list".toList with
      | none =>
        have other : ∀ e ∈ brought own ownOuter (depth + 1), e.1.head? ≠ some "ip-list".toList := by
          intro e member top
          exact List.find?_eq_none.mp first e member (by simpa using top)
        rw [under_nothing other]
        rfl
      | some e =>
        apply Ptree.children_grafted_congr
        split <;> rfl

end Merged

theorem entries_kept {commonList ownList : Ptree} (passable : Passable false ownList) {depth : Nat}
    (enough : descent false ownList ≤ depth + 1) {count : Nat} (repeated : ownList.children ≠ [] → 0 < count) :
    (∀ ip, ip ∈ (Ptree.grafted commonList (copies count (writes (depth + 1) false ownList))).values ↔
      ip ∈ commonList.values ∨ ip ∈ ownList.values) ↔ EntriesKept commonList ownList := by
  constructor
  · intro union
    constructor
    · intro v member
      have listed : v.2.data ∈ ownList.values := List.mem_map.mpr ⟨v,member,rfl⟩
      exact (mem_values_brought passable enough repeated _).mp ((union _).mpr (.inr listed))
    · intro blanks
      exact (union []).mp ((mem_values_brought passable enough repeated _).mpr (.inr (.inr ⟨rfl,blanks⟩)))
  · intro kept ip
    rw [mem_values_brought passable enough repeated]
    constructor
    · intro admitted
      rcases admitted with old | listed | blank
      · exact .inl old
      · obtain ⟨w,member,_,rfl⟩ := listed
        exact .inr (List.mem_map.mpr ⟨w,member,rfl⟩)
      · obtain ⟨rfl,blanks⟩ := blank
        exact kept.blank blanks
    · intro listed
      rcases listed with old | new
      · exact .inl old
      · obtain ⟨v,member,rfl⟩ := List.mem_map.mp new
        exact kept.addresses v member

-- The instance's flag is heard where the common configuration sets it or has
-- none, and the first of the instance's keys that leads there is a value.
def FlagHeard (common own : Ptree) : Prop := AllIpAddrs own → AllIpAddrs common ∨
  Ptree.walk ["kcc-white-list".toList,"all-ip-addrs".toList] common = none ∧
    ∀ v, spelled "all-ip-addrs".toList ((own.find "kcc-white-list".toList).getD .empty) = some v → Entry v

def EitherAllows (common own : Ptree) (ip : Text) : Prop :=
  AllIpAddrs common ∨ AllIpAddrs own ∨ ip ∈ (ipList common).values ∨ ip ∈ (ipList own).values

theorem flag_heard {common own commonOuter ownOuter : Ptree} (levels : TwoLevels common own commonOuter ownOuter) :
    FlagHeard common own ↔ (AllIpAddrs own → AllIpAddrs common ∨ commonOuter.find "all-ip-addrs".toList = none ∧
      ∃ v, spelled "all-ip-addrs".toList ownOuter = some v ∧ Entry v ∧ v.2.data = "true".toList) := by
  rw [FlagHeard,Ptree.walk_below levels.inCommon,levels.inOwn,Option.getD_some]
  refine forall_congr' fun set => or_congr Iff.rfl (and_congr Iff.rfl ?_)
  obtain ⟨flag,found,value⟩ := (allIpAddrs_below levels.inOwn).mp set
  obtain ⟨v,first,own⟩ := spelled_own (by decide) (by decide) found
  constructor
  · intro entry
    have isEntry := entry v first
    exact ⟨v,first,isEntry,by rw [own isEntry.2,value]⟩
  · intro entry w other
    obtain ⟨_,same,isEntry,_⟩ := entry
    cases same.symm.trans other
    exact isEntry

theorem merged_either {flagged common own flagNew : Prop} {merged commonIps ownIps : List Text}
    (flagCases : flagged ↔ common ∨ flagNew) (new : flagNew → own) :
    (∀ ip, (flagged ∨ ip ∈ merged) ↔ (common ∨ own ∨ ip ∈ commonIps ∨ ip ∈ ownIps)) ↔
      (own → common ∨ flagNew) ∧ (¬ common → ¬ own → ∀ ip, ip ∈ merged ↔ ip ∈ commonIps ∨ ip ∈ ownIps) := by
  constructor
  · intro either
    constructor
    · intro set
      obtain ⟨ip,unlisted⟩ := exists_unlisted merged
      exact flagCases.mp (((either ip).mpr (.inr (.inl set))).resolve_right unlisted)
    · intro unset ownUnset ip
      have unflagged : ¬ flagged := fun flag => (flagCases.mp flag).elim unset fun made => ownUnset (new made)
      simpa [unflagged,unset,ownUnset] using either ip
  · intro heard ip
    by_cases set : common ∨ own
    · have flag : flagged := flagCases.mpr (set.elim .inl heard.1)
      exact iff_of_true (.inl flag) (set.elim .inl fun own => .inr (.inl own))
    · obtain ⟨unset,ownUnset⟩ := not_or.mp set
      have unflagged : ¬ flagged := fun flag => (flagCases.mp flag).elim unset fun made => ownUnset (new made)
      simpa [unflagged,unset,ownUnset] using heard.2 unset ownUnset ip

theorem loadConfig_reads {common own : Ptree} {fuel : Nat} {env : Environment} {cfg loaded : Config}
    (ran : cfg.loadConfig fuel env (.holds common) (.holds own) = .ok loaded) :
    ∃ merged read, ptreeMerge fuel common own [] = .ok merged ∧
      Config.populateWhiteLists {cfg with cfgData := merged} = .ok read ∧ loaded = read.populateDefaultDirs env := by
  cases merging : ptreeMerge fuel common own [] with
  | error e =>
    rw [loadConfig_unmerged env cfg merging] at ran
    cases ran
  | ok merged =>
    rw [loadConfig_merged env cfg merging] at ran
    cases populated : Config.populateWhiteLists {cfg with cfgData := merged} with
    | error e =>
      rw [populated] at ran
      cases ran
    | ok read =>
      rw [populated] at ran
      cases ran
      exact ⟨merged,read,rfl,populated,rfl⟩

theorem ip_white_list_either {common own commonOuter ownOuter : Ptree}
    (levels : TwoLevels common own commonOuter ownOuter) :
    ∃ enough, ∀ fuel ≥ enough, ∀ env appId appInstance loaded,
      (Config.fresh appId appInstance).loadConfig fuel env (.holds common) (.holds own) = .ok loaded →
        ((∀ ip, loaded.isAllowedIp ip = true ↔ EitherAllows common own ip) ↔ FlagHeard common own ∧
          (¬ AllIpAddrs common → ¬ AllIpAddrs own → EntriesKept (ipList common) (ipList own))) := by
  refine ⟨descent false own + descent false ownOuter + descent false (ipList own) + 3,?_⟩
  intro fuel enough env appId appInstance loaded ran
  obtain ⟨depth,rfl⟩ : ∃ depth, fuel = depth + 3 := ⟨fuel - 3,by omega⟩
  obtain ⟨merged,read,merging,populated,rfl⟩ := loadConfig_reads ran
  have passable := merge_passable merging
  have through := merge_writes (merge_rooted merging) passable (show descent false own ≤ depth + 3 by omega) common
  cases merging.symm.trans through
  obtain ⟨now,finds,_⟩ := white_list_brought levels.toFileLevels (depth + 2)
  have small : descent false ownOuter ≤ depth + 1 + 1 := by omega
  have less : descent false (ipList own) ≤ depth + 1 := by omega
  have flags := merged_allIpAddrs levels (depth + 1) passable small
  obtain ⟨count,repeated,children⟩ := merged_ipList levels (depth + 1)
  have new : (commonOuter.find "all-ip-addrs".toList = none ∧
      ∃ v, spelled "all-ip-addrs".toList ownOuter = some v ∧ Entry v ∧ v.2.data = "true".toList) → AllIpAddrs own := by
    intro made
    obtain ⟨_,v,first,entry,value⟩ := made
    exact (allIpAddrs_below levels.inOwn).mpr ⟨v.2,spelled_find (by decide) entry.2 first,value⟩
  have admits : ∀ ip, (read.populateDefaultDirs env).isAllowedIp ip = true ↔
      AllIpAddrs ((writes (depth + 3) false own).foldl (written []) common) ∨
        ip ∈ (Ptree.grafted (ipList common) (copies count (writes (depth + 1) false (ipList own)))).values := by
    intro ip
    rw [Ptree.values,← children]
    exact populated_ips finds populated ip
  simp only [admits,EitherAllows]
  rw [merged_either flags new,flag_heard levels]
  simp only [entries_kept (levels.passableList passable) less repeated]

def guarding (flag : List (Text × Ptree)) (addresses : List (Text × Text)) : Ptree :=
  .node [] [("kcc-white-list".toList,.node [] (flag ++ [("all-apps".toList,.leaf "true".toList),
    ("ip-list".toList,.node [] (addresses.map fun a => (a.1,.leaf a.2)))]))]

def commonHost : Ptree := guarding [] [("ip".toList,"127.0.0.1".toList)]
def instanceHost : Ptree := guarding [] [("ip".toList,"10.0.0.1".toList)]

theorem ip_white_list_either_hosts : ∃ enough, ∀ fuel ≥ enough, ∃ loaded,
    someConfig.loadConfig fuel ⟨none,none⟩ (.holds commonHost) (.holds instanceHost) = .ok loaded ∧
      ∀ ip, loaded.isAllowedIp ip = true ↔ EitherAllows commonHost instanceHost ip := by
  have levels : TwoLevels commonHost instanceHost ((commonHost.find "kcc-white-list".toList).getD .empty)
      ((instanceHost.find "kcc-white-list".toList).getD .empty) := by
    refine ⟨⟨rfl,rfl,?_,?_⟩,?_⟩
    all_goals decide +kernel
  have unset : ¬ AllIpAddrs instanceHost := by decide +kernel
  have entries : ∀ v ∈ (ipList instanceHost).children, Entry v := by decide +kernel
  have noBlanks : ¬ Blanks (ipList commonHost) (ipList instanceHost) := by
    intro blanks
    obtain ⟨_,_,v,found,other⟩ := blanks
    exact other (entries v (spelled_some found).1)
  obtain ⟨enough,either⟩ := ip_white_list_either levels
  refine ⟨enough + 4,?_⟩
  intro fuel more
  obtain ⟨depth,rfl⟩ : ∃ depth, fuel = depth + 4 := ⟨fuel - 4,by omega⟩
  refine ⟨_,rfl,(either (depth + 4) (by omega) ⟨none,none⟩ _ _ _ rfl).mpr ⟨?_,?_⟩⟩
  · exact fun set => absurd set unset
  · intro _ _
    refine ⟨?_,fun blanks => absurd blanks noBlanks⟩
    exact fun v member => .inr (.inl ⟨v,member,entries v member,rfl⟩)

-- The common flag is found first, and an address under a dotted key is lost.
theorem instance_flag_unheard :
    (∃ loaded, someConfig.loadConfig 4 ⟨none,none⟩
        (.holds (guarding [("all-ip-addrs".toList,.leaf "false".toList)] [("ip".toList,"127.0.0.1".toList)]))
        (.holds (guarding [("all-ip-addrs".toList,.leaf "true".toList)] [])) = .ok loaded ∧
      loaded.isAllowedIp "10.0.0.1".toList = false) ∧
    AllIpAddrs (guarding [("all-ip-addrs".toList,.leaf "true".toList)] []) ∧
    (∃ loaded, someConfig.loadConfig 4 ⟨none,none⟩ (.holds commonHost)
        (.holds (guarding [] [("web.one".toList,"10.0.0.1".toList)])) = .ok loaded ∧
      loaded.isAllowedIp "10.0.0.1".toList = false) ∧
    "10.0.0.1".toList ∈ (ipList (guarding [] [("web.one".toList,"10.0.0.1".toList)])).values := by
  refine ⟨⟨_,rfl,?_⟩,?_,⟨_,rfl,?_⟩,?_⟩
  all_goals decide +kernel

end Kisscpp
