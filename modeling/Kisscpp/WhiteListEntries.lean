import Mathlib.Data.List.Induction
import Kisscpp.WhiteListUnion

namespace Kisscpp
open TextLines PropertyTree

def lastAll (entries : List Ptree) (a : Text) : Prop :=
  ∃ e, (entries.filter fun e => idOf e = a).getLast? = some e ∧ allInstances e

def listed (entries : List Ptree) (a i : Text) : Prop := ∃ e ∈ entries, idOf e = a ∧ ¬ allInstances e ∧ lists e i

theorem addApplication_readable {e : Ptree} {m next : MappedWhiteListType}
    (ran : Config.addApplication m ("application".toList,e) = .ok next) : Readable e := by
  have entry : ("application".toList,e).1 = "application".toList := rfl
  rw [Config.addApplication,if_pos entry] at ran
  cases got : e.get "id".toList with
  | error failure => rw [got] at ran; cases ran
  | ok appId =>
    rw [got] at ran
    have id : ∃ found, e.find "id".toList = some found := by
      rw [Ptree.get,Ptree.getChild,show reduced "id".toList = ["id".toList] from rfl,Ptree.walk_cons,
        Ptree.bind_walk_nil] at got
      cases here : e.find "id".toList with
      | none => rw [here] at got; cases got
      | some node => exact ⟨node,rfl⟩
    refine ⟨id,?_⟩
    by_cases all : Config.isTrue e "all-instances".toList = true
    · exact .inl (isTrue_all.mp all)
    · change (if Config.isTrue e "all-instances".toList = true then _ else _) = _ at ran
      rw [if_neg all] at ran
      right
      cases list : e.find "instance-list".toList with
      | some l => exact ⟨l,rfl⟩
      | none =>
        have missing : e.getChild "instance-list".toList = .error ⟨"instance-list".toList⟩ := by
          rw [Ptree.getChild,show reduced "instance-list".toList = ["instance-list".toList] from rfl,Ptree.walk_cons,list]
          rfl
        rw [missing] at ran
        cases ran

theorem entries_readable {entries : List Ptree} {m next : MappedWhiteListType}
    (ran : entries.foldlM (fun m e => Config.addApplication m ("application".toList,e)) m = .ok next) :
    ∀ e ∈ entries, Readable e := by
  induction entries generalizing m with
  | nil => intro e member; cases member
  | cons first rest ih =>
    rw [List.foldlM_cons] at ran
    cases step : Config.addApplication m ("application".toList,first) with
    | error failure => rw [step] at ran; cases ran
    | ok middle =>
      rw [step] at ran
      intro e member
      rcases List.mem_cons.mp member with rfl | later
      · exact addApplication_readable step
      · exact ih ran e later

theorem lastAll_snoc (entries : List Ptree) (e : Ptree) (a : Text) :
    lastAll (entries ++ [e]) a ↔ if idOf e = a then allInstances e else lastAll entries a := by
  by_cases own : idOf e = a
  · simp [lastAll,List.filter_append,own]
  · simp [lastAll,List.filter_append,own]

theorem listed_snoc (entries : List Ptree) (e : Ptree) (a i : Text) :
    listed (entries ++ [e]) a i ↔ listed entries a i ∨ idOf e = a ∧ ¬ allInstances e ∧ lists e i := by
  simp only [listed,List.mem_append,List.mem_singleton,or_and_right,exists_or,exists_eq_left]

def Reads (entries : List Ptree) (m : MappedWhiteListType) : Prop :=
  ∀ a, ((m.entry a).allInstances = true ↔ lastAll entries a) ∧ ∀ i, i ∈ (m.entry a).instances ↔ listed entries a i

theorem reads_start : Reads [] fun _ => none := by
  intro a
  refine ⟨?_,fun i => ?_⟩
  · simp [MappedWhiteListType.entry,lastAll]
  · simp [MappedWhiteListType.entry,listed]

theorem reads_step {entries : List Ptree} {m : MappedWhiteListType} (reads : Reads entries m) {e : Ptree}
    (readable : Readable e) :
    ∃ next, Config.addApplication m ("application".toList,e) = .ok next ∧ Reads (entries ++ [e]) next := by
  obtain ⟨l,added,flag,members⟩ := addApplication_step readable m
  refine ⟨_,added,fun a => ?_⟩
  by_cases own : idOf e = a
  · subst own
    have entry : (m.set (idOf e) l).entry (idOf e) = l := by rw [MappedWhiteListType.entry,set_self]; rfl
    rw [entry,lastAll_snoc,if_pos rfl]
    refine ⟨flag,fun i => ?_⟩
    rw [members,(reads (idOf e)).2,listed_snoc]
    simp
  · have entry : (m.set (idOf e) l).entry a = m.entry a := by
      rw [MappedWhiteListType.entry,set_ne m (Ne.symm own)]
      rfl
    rw [entry,lastAll_snoc,if_neg own]
    refine ⟨(reads a).1,fun i => ?_⟩
    rw [(reads a).2,listed_snoc]
    simp [own]

theorem reads_entries {entries : List Ptree} (readable : ∀ e ∈ entries, Readable e) :
    ∃ read, entries.foldlM (fun m e => Config.addApplication m ("application".toList,e)) (fun _ => none) = .ok read ∧
      Reads entries read := by
  induction entries using List.reverseRecOn with
  | nil => exact ⟨_,rfl,reads_start⟩
  | append_singleton earlier e ih =>
    obtain ⟨middle,ran,reads⟩ := ih fun other member => readable other (List.mem_append_left _ member)
    obtain ⟨next,added,now⟩ := reads_step reads (readable e (by simp))
    refine ⟨next,?_,now⟩
    have last : [e].foldlM (fun m e => Config.addApplication m ("application".toList,e)) middle = .ok next := by
      rw [List.foldlM_cons,added]
      rfl
    rw [List.foldlM_append,ran]
    exact last

theorem Reads.admits {entries : List Ptree} {m : MappedWhiteListType} (reads : Reads entries m) (a i : Text) :
    m.admits a i ↔ lastAll entries a ∨ listed entries a i := by
  rw [← (reads a).1,← (reads a).2]
  simp only [MappedWhiteListType.admits,MappedWhiteListType.entry,InstanceListType.isAllowedInstance]
  cases m a with
  | none => simp
  | some l => simp

structure Restricted (t outer list : Ptree) : Prop where
  found : t.find "kcc-white-list".toList = some outer
  applications : outer.find "application-list".toList = some list
  unset : ∀ x, outer.find "all-apps".toList = some x → x.data ≠ "true".toList

abbrev readEntries (entries : List Ptree) : Except BadPath MappedWhiteListType :=
  entries.foldlM (fun m e => Config.addApplication m ("application".toList,e)) fun _ => none

theorem populateApplications_entries {cfg : Config} (flag : cfg.allowAllApplications = false) {list : Ptree}
    (path : cfg.cfgData.getChild "kcc-white-list.application-list".toList = .ok list)
    (fresh : cfg.commsWhiteListApplications = fun _ => none) : cfg.populateApplications =
      (readEntries (list.named "application".toList)).map fun m => {cfg with commsWhiteListApplications := m} := by
  have loop := applications_loop list.children cfg.commsWhiteListApplications
  rw [Config.populateApplications,flag,if_neg Bool.false_ne_true,path]
  change (list.children.foldlM Config.addApplication cfg.commsWhiteListApplications >>= _) = _
  rw [loop,fresh]
  change (readEntries (list.named "application".toList) >>= _) = _
  cases readEntries (list.named "application".toList) <;> rfl

theorem populate_restricted {t outer list : Ptree} (restricted : Restricted t outer list) (appId appInstance : Text) :
    Config.populateWhiteLists {Config.fresh appId appInstance with cfgData := t} =
      (Config.populateIpAddrs {Config.fresh appId appInstance with
        cfgData := t
        allowAllIpAddrs := Config.isTrue t "kcc-white-list.all-ip-addrs".toList}).bind fun cfg =>
          (readEntries (list.named "application".toList)).map fun m => {cfg with commsWhiteListApplications := m} := by
  have present : (t.find "kcc-white-list".toList).isSome = true := by rw [restricted.found]; rfl
  have flag : Config.isTrue t "kcc-white-list.all-apps".toList = false := by
    apply eq_false_of_ne_true
    intro all
    obtain ⟨x,here,value⟩ := (isTrue_below _ rfl restricted.found).mp all
    exact restricted.unset x here value
  have path : t.getChild "kcc-white-list.application-list".toList = .ok list := by
    have cut : reduced "kcc-white-list.application-list".toList = ["kcc-white-list".toList,"application-list".toList] := rfl
    rw [Ptree.getChild,cut,Ptree.walk_cons,restricted.found,Option.bind_some,Ptree.walk_cons,restricted.applications]
    rfl
  rw [Config.populateWhiteLists,if_pos present,flag]
  rcases populateIpAddrs_cases {Config.fresh appId appInstance with
      cfgData := t
      allowAllIpAddrs := Config.isTrue t "kcc-white-list.all-ip-addrs".toList} with missing | ⟨ips,passed⟩
  · change (Config.populateIpAddrs {Config.fresh appId appInstance with
      cfgData := t
      allowAllIpAddrs := Config.isTrue t "kcc-white-list.all-ip-addrs".toList} >>= _) = _
    rw [missing]
    rfl
  · change (Config.populateIpAddrs {Config.fresh appId appInstance with
      cfgData := t
      allowAllIpAddrs := Config.isTrue t "kcc-white-list.all-ip-addrs".toList} >>= _) = _
    rw [passed]
    exact @populateApplications_entries {Config.fresh appId appInstance with
      cfgData := t
      allowAllIpAddrs := Config.isTrue t "kcc-white-list.all-ip-addrs".toList
      commsWhiteListIpAddrs := ips} rfl list path rfl

theorem populated_admits {t outer list : Ptree} (restricted : Restricted t outer list) {appId appInstance : Text}
    {read : Config} (ran : Config.populateWhiteLists {Config.fresh appId appInstance with cfgData := t} = .ok read) :
    (∀ e ∈ list.named "application".toList, Readable e) ∧ ∀ a i, read.isAllowedClient a i = true ↔
      lastAll (list.named "application".toList) a ∨ listed (list.named "application".toList) a i := by
  rw [populate_restricted restricted] at ran
  rcases populateIpAddrs_cases {Config.fresh appId appInstance with
      cfgData := t
      allowAllIpAddrs := Config.isTrue t "kcc-white-list.all-ip-addrs".toList} with missing | ⟨ips,passed⟩
  · rw [missing] at ran
    cases ran
  · rw [passed] at ran
    cases loop : readEntries (list.named "application".toList) with
    | error failure =>
      rw [loop] at ran
      cases ran
    | ok m =>
      have readable := entries_readable loop
      obtain ⟨own,ranOwn,reads⟩ := reads_entries readable
      cases ranOwn.symm.trans loop
      rw [loop] at ran
      cases Except.ok.inj ran
      refine ⟨readable,fun a i => ?_⟩
      rw [isAllowedClient_admits rfl]
      exact reads.admits a i

def reordered (t : Ptree) (order : List (Text × Ptree)) : Ptree :=
  t.force "kcc-white-list".toList fun outer =>
    outer.force "application-list".toList fun list => .node list.data order

theorem reordered_restricted {t outer list : Ptree} (restricted : Restricted t outer list)
    (order : List (Text × Ptree)) : Restricted (reordered t order)
      (outer.force "application-list".toList fun list => .node list.data order) (.node list.data order) := by
  refine ⟨?_,?_,?_⟩
  · rw [reordered,Ptree.find_force_self,restricted.found]
    rfl
  · rw [Ptree.find_force_self,restricted.applications]
    rfl
  · intro x here
    rw [Ptree.find_force_ne (by decide)] at here
    exact restricted.unset x here

theorem walk_reordered {t outer list : Ptree} (restricted : Restricted t outer list) (order : List (Text × Ptree))
    {key : Text} (different : key ≠ "application-list".toList) :
    Ptree.walk ["kcc-white-list".toList,key] (reordered t order) = Ptree.walk ["kcc-white-list".toList,key] t := by
  rw [Ptree.walk_cons,Ptree.walk_cons,(reordered_restricted restricted order).found,restricted.found,Option.bind_some,
    Option.bind_some,Ptree.walk_cons,Ptree.walk_cons,Ptree.find_force_ne different]

theorem populateIpAddrs_congr {cfg other read : Config} (flag : other.allowAllIpAddrs = cfg.allowAllIpAddrs)
    (path : Ptree.walk (reduced "kcc-white-list.ip-list".toList) other.cfgData =
      Ptree.walk (reduced "kcc-white-list.ip-list".toList) cfg.cfgData) (ran : cfg.populateIpAddrs = .ok read) :
    ∃ ips, other.populateIpAddrs = .ok {other with commsWhiteListIpAddrs := ips} := by
  rw [Config.populateIpAddrs,Ptree.getChild] at ran ⊢
  rw [path]
  by_cases all : cfg.allowAllIpAddrs = true
  · rw [if_pos (flag.trans all)]
    exact ⟨other.commsWhiteListIpAddrs,rfl⟩
  · rw [if_neg all] at ran
    rw [if_neg (by rwa [flag])]
    cases found : Ptree.walk (reduced "kcc-white-list.ip-list".toList) cfg.cfgData with
    | none => rw [found] at ran; cases ran
    | some ipList => exact ⟨_,rfl⟩

theorem reordered_populates {t outer list : Ptree} (restricted : Restricted t outer list) {appId appInstance : Text}
    {read : Config} (ran : Config.populateWhiteLists {Config.fresh appId appInstance with cfgData := t} = .ok read)
    {order : List (Text × Ptree)} (permuted : order.Perm list.children) :
    ∃ other, Config.populateWhiteLists {Config.fresh appId appInstance with cfgData := reordered t order} = .ok other := by
  have readable := (populated_admits restricted ran).1
  have flag : Config.isTrue (reordered t order) "kcc-white-list.all-ip-addrs".toList =
      Config.isTrue t "kcc-white-list.all-ip-addrs".toList := by
    have cut : reduced "kcc-white-list.all-ip-addrs".toList = ["kcc-white-list".toList,"all-ip-addrs".toList] := rfl
    rw [Config.isTrue,Config.isTrue,Ptree.getD,Ptree.getD,cut,walk_reordered restricted order (by decide)]
  have path : Ptree.walk (reduced "kcc-white-list.ip-list".toList) (reordered t order) =
      Ptree.walk (reduced "kcc-white-list.ip-list".toList) t := by
    have cut : reduced "kcc-white-list.ip-list".toList = ["kcc-white-list".toList,"ip-list".toList] := rfl
    rw [cut]
    exact walk_reordered restricted order (by decide)
  rw [populate_restricted restricted] at ran
  cases passed : Config.populateIpAddrs {Config.fresh appId appInstance with
      cfgData := t
      allowAllIpAddrs := Config.isTrue t "kcc-white-list.all-ip-addrs".toList} with
  | error e =>
    rw [passed] at ran
    cases ran
  | ok ipsRead =>
    obtain ⟨ips,now⟩ := @populateIpAddrs_congr {Config.fresh appId appInstance with
      cfgData := t
      allowAllIpAddrs := Config.isTrue t "kcc-white-list.all-ip-addrs".toList} {Config.fresh appId appInstance with
      cfgData := reordered t order
      allowAllIpAddrs := Config.isTrue (reordered t order) "kcc-white-list.all-ip-addrs".toList} _ flag path passed
    have same : ∀ e ∈ (Ptree.node list.data order).named "application".toList, Readable e := by
      intro e member
      obtain ⟨v,inOrder,rfl⟩ := List.mem_map.mp member
      obtain ⟨inside,named⟩ := List.mem_filter.mp inOrder
      exact readable v.2 (List.mem_map.mpr ⟨v,List.mem_filter.mpr ⟨permuted.mem_iff.mp inside,named⟩,rfl⟩)
    obtain ⟨m,loop,_⟩ := reads_entries same
    rw [populate_restricted (reordered_restricted restricted order),now]
    change ∃ other, (readEntries ((Ptree.node list.data order).named "application".toList)).map _ = .ok other
    rw [readEntries,loop]
    exact ⟨_,rfl⟩

theorem exists_unlisted (values : List Text) : ∃ i, i ∉ values := by
  refine ⟨'x' :: values.flatten,fun member => ?_⟩
  have short := (List.sublist_flatten_of_mem member).length_le
  rw [List.length_cons] at short
  omega

theorem listed_values (entries : List Ptree) (a : Text) : ∃ values : List Text, ∀ i, listed entries a i → i ∈ values := by
  refine ⟨entries.flatMap fun e => ((e.find "instance-list".toList).getD .empty).values,?_⟩
  rintro i ⟨e,member,_,_,l,found,inList⟩
  refine List.mem_flatMap.mpr ⟨e,member,?_⟩
  rwa [found]

theorem union_iff (entries : List Ptree) (a : Text) :
    (∀ i, (lastAll entries a ∨ listed entries a i ↔ ∃ e ∈ entries, idOf e = a ∧ allows e i)) ↔
      ((∃ e ∈ entries, idOf e = a ∧ allInstances e) → lastAll entries a) := by
  constructor
  · rintro union ⟨e,member,named,all⟩
    obtain ⟨values,bounded⟩ := listed_values entries a
    obtain ⟨i,unlisted⟩ := exists_unlisted values
    rcases (union i).mpr ⟨e,member,named,.inl all⟩ with last | inList
    · exact last
    · exact absurd (bounded i inList) unlisted
  · intro last i
    constructor
    · rintro (⟨e,isLast,all⟩ | ⟨e,member,named,_,inList⟩)
      · have inside := List.mem_filter.mp (List.mem_of_getLast? isLast)
        exact ⟨e,inside.1,by simpa using inside.2,.inl all⟩
      · exact ⟨e,member,named,.inr inList⟩
    · rintro ⟨e,member,named,all | inList⟩
      · exact .inl (last ⟨e,member,named,all⟩)
      · by_cases all : allInstances e
        · exact .inl (last ⟨e,member,named,all⟩)
        · exact .inr ⟨e,member,named,all,inList⟩

theorem mem_entries {children : List (Text × Ptree)} {data : Text} {e : Ptree} :
    e ∈ (Ptree.node data children).named "application".toList ↔ ("application".toList,e) ∈ children := by
  constructor
  · intro member
    obtain ⟨v,inside,rfl⟩ := List.mem_map.mp member
    obtain ⟨inChildren,named⟩ := List.mem_filter.mp inside
    have same : v.1 = "application".toList := by simpa using named
    rwa [← same]
  · intro member
    exact List.mem_map.mpr ⟨_,List.mem_filter.mpr ⟨member,by simp⟩,rfl⟩

theorem brought_last {children : List (Text × Ptree)} {e : Ptree} (data : Text)
    (member : ("application".toList,e) ∈ children) : ∃ order, order.Perm children ∧
      ∃ front, (Ptree.node data order).named "application".toList = front ++ [e] := by
  obtain ⟨front,behind,rfl⟩ := List.append_of_mem member
  refine ⟨(front ++ behind) ++ [("application".toList,e)],?_,?_⟩
  · exact (List.perm_append_singleton _ _).trans List.perm_middle.symm
  · exact ⟨(Ptree.node data (front ++ behind)).named "application".toList,by simp [Ptree.named]⟩

def Decides (entries : List Ptree) (a i : Text) : Prop := lastAll entries a ∨ listed entries a i

theorem orders_agree {data : Text} {children : List (Text × Ptree)} :
    (∀ order, order.Perm children → ∀ a i, Decides ((Ptree.node data order).named "application".toList) a i ↔
      Decides ((Ptree.node data children).named "application".toList) a i) ↔
    ∀ e, ("application".toList,e) ∈ children → ∀ e', ("application".toList,e') ∈ children → idOf e = idOf e' →
      (allInstances e ↔ allInstances e') := by
  constructor
  · intro same
    have onlyOne {e e' : Ptree} (member : ("application".toList,e) ∈ children)
        (member' : ("application".toList,e') ∈ children) (named : idOf e = idOf e') (all : allInstances e) :
        allInstances e' := by
      obtain ⟨order,permuted,front,entries⟩ := brought_last data member
      obtain ⟨order',permuted',front',entries'⟩ := brought_last data member'
      have first := same order permuted (idOf e)
      have second := same order' permuted' (idOf e)
      rw [entries] at first
      rw [entries'] at second
      obtain ⟨values,bounded⟩ := listed_values (front' ++ [e']) (idOf e)
      obtain ⟨i,unlisted⟩ := exists_unlisted values
      have admitted : Decides (front ++ [e]) (idOf e) i := .inl (by rw [lastAll_snoc,if_pos rfl]; exact all)
      rcases (second i).mpr ((first i).mp admitted) with last | inList
      · rwa [lastAll_snoc,if_pos named.symm] at last
      · exact absurd (bounded i inList) unlisted
    intro e member e' member' named
    exact ⟨onlyOne member member' named,onlyOne member' member named.symm⟩
  · intro agree order permuted a i
    -- Where the entries agree, each order decides by the entries alone.
    have asEntries {order : List (Text × Ptree)} (permuted : order.Perm children) :
        Decides ((Ptree.node data order).named "application".toList) a i ↔
          ∃ e, ("application".toList,e) ∈ children ∧ idOf e = a ∧ allows e i := by
      have last : (∃ e ∈ (Ptree.node data order).named "application".toList, idOf e = a ∧ allInstances e) →
          lastAll ((Ptree.node data order).named "application".toList) a := by
        rintro ⟨e,member,named,all⟩
        have filled : e ∈ ((Ptree.node data order).named "application".toList).filter fun e => idOf e = a :=
          List.mem_filter.mpr ⟨member,by simpa using named⟩
        obtain ⟨e',isLast⟩ := Option.isSome_iff_exists.mp (List.getLast?_isSome.mpr (List.ne_nil_of_mem filled))
        obtain ⟨member',named'⟩ := List.mem_filter.mp (List.mem_of_getLast? isLast)
        have same : idOf e = idOf e' := by rw [named]; simpa using (show idOf e' = a by simpa using named').symm
        refine ⟨e',isLast,(agree e ?_ e' ?_ same).mp all⟩
        · exact permuted.mem_iff.mp (mem_entries.mp member)
        · exact permuted.mem_iff.mp (mem_entries.mp member')
      rw [Decides,(union_iff _ a).mpr last i]
      simp only [mem_entries,permuted.mem_iff]
    rw [asEntries permuted,asEntries (.refl _)]

theorem application_list_union {t outer list : Ptree} (restricted : Restricted t outer list)
    {appId appInstance : Text} {read : Config}
    (ran : Config.populateWhiteLists {Config.fresh appId appInstance with cfgData := t} = .ok read) :
    ((∀ a i, read.isAllowedClient a i = true ↔
        ∃ e ∈ list.named "application".toList, idOf e = a ∧ allows e i) ↔
      ∀ e ∈ list.named "application".toList, allInstances e → lastAll (list.named "application".toList) (idOf e)) ∧
    ((∀ order, order.Perm list.children → ∃ other,
        Config.populateWhiteLists {Config.fresh appId appInstance with cfgData := reordered t order} = .ok other ∧
        ∀ a i, other.isAllowedClient a i = read.isAllowedClient a i) ↔
      ∀ e ∈ list.named "application".toList, ∀ e' ∈ list.named "application".toList, idOf e = idOf e' →
        (allInstances e ↔ allInstances e')) := by
  obtain ⟨_,decides⟩ := populated_admits restricted ran
  constructor
  · constructor
    · intro union e member all
      refine (union_iff _ (idOf e)).mp ?_ ⟨e,member,rfl,all⟩
      intro i
      rw [← decides,union]
    · intro last a i
      rw [decides]
      refine (union_iff _ a).mpr ?_ i
      rintro ⟨e,member,rfl,all⟩
      exact last e member all
  · obtain ⟨data,children⟩ := list
    have pairs : (∀ e ∈ (Ptree.node data children).named "application".toList,
        ∀ e' ∈ (Ptree.node data children).named "application".toList, idOf e = idOf e' →
          (allInstances e ↔ allInstances e')) ↔ ∀ e, ("application".toList,e) ∈ children →
        ∀ e', ("application".toList,e') ∈ children → idOf e = idOf e' → (allInstances e ↔ allInstances e') := by
      simp only [mem_entries]
    rw [pairs,← @orders_agree data children]
    constructor
    · intro same order permuted a i
      obtain ⟨other,ranOther,equal⟩ := same order permuted
      have decidesOther := (populated_admits (reordered_restricted restricted order) ranOther).2
      rw [Decides,Decides,← decides a i,← equal a i]
      exact (decidesOther a i).symm
    · intro same order permuted
      obtain ⟨other,ranOther⟩ := reordered_populates restricted ran permuted
      have decidesOther := (populated_admits (reordered_restricted restricted order) ranOther).2
      refine ⟨other,ranOther,fun a i => ?_⟩
      rw [Bool.eq_iff_iff,decides,decidesOther]
      exact same order permuted a i

def fooEverywhere : Text × Ptree := allowing "foo".toList [everyInstance]
def fooTwice : List (Text × Ptree) := [fooEverywhere,fooListed]

theorem fooTwice_restricted (entries : List (Text × Ptree)) : Restricted (whiteListed anyAddress entries)
    (.node [] (anyAddress ++ [("application-list".toList,.node [] entries)])) (.node [] entries) := by
  refine ⟨rfl,rfl,?_⟩
  intro x found
  cases found

def fooLast : List (Text × Ptree) := [fooListed,barEverywhere,fooEverywhere]

theorem answered {ε σ : Type} {load : Except ε σ} (answers : load.isOk = true) : ∃ read, load = .ok read := by
  cases load with
  | error e => cases answers
  | ok read => exact ⟨read,rfl⟩

-- The last entry of "foo" has all instances, the first one has not: every entry
-- counts, and would not in every order.
theorem application_list_union_repeated :
    ∃ read, Config.populateWhiteLists {Config.fresh [] [] with cfgData := whiteListed anyAddress fooLast} = .ok read ∧
      (∀ a i, read.isAllowedClient a i = true ↔
        ∃ e ∈ (Ptree.node [] fooLast).named "application".toList, idOf e = a ∧ allows e i) ∧
      ¬ ∀ order, order.Perm fooLast → ∃ other, Config.populateWhiteLists {Config.fresh [] [] with
          cfgData := reordered (whiteListed anyAddress fooLast) order} = .ok other ∧
        ∀ a i, other.isAllowedClient a i = read.isAllowedClient a i := by
  have entries : (Ptree.node [] fooLast).named "application".toList = [fooListed.2,barEverywhere.2,fooEverywhere.2] := rfl
  have foo : allInstances fooEverywhere.2 := ⟨_,rfl,rfl⟩
  have bar : allInstances barEverywhere.2 := ⟨_,rfl,rfl⟩
  have some : ¬ allInstances fooListed.2 := by
    rintro ⟨flag,found,_⟩
    cases found
  have answers :
      (Config.populateWhiteLists {Config.fresh [] [] with cfgData := whiteListed anyAddress fooLast}).isOk = true := by
    decide +kernel
  obtain ⟨read,ran⟩ := answered answers
  obtain ⟨union,ordered⟩ := application_list_union (fooTwice_restricted fooLast) ran
  refine ⟨read,ran,union.mpr ?_,?_⟩
  · intro e member _
    have named : e = fooListed.2 ∨ e = barEverywhere.2 ∨ e = fooEverywhere.2 := by
      rw [entries] at member
      simpa using member
    rcases named with rfl | rfl | rfl
    · exact ⟨fooEverywhere.2,rfl,foo⟩
    · exact ⟨barEverywhere.2,rfl,bar⟩
    · exact ⟨fooEverywhere.2,rfl,foo⟩
  · intro same
    have first : idOf fooListed.2 = "foo".toList := rfl
    have last : idOf fooEverywhere.2 = "foo".toList := rfl
    have agree := ordered.mp same fooListed.2 (by rw [entries]; simp) fooEverywhere.2 (by rw [entries]; simp)
      (first.trans last.symm)
    exact some (agree.mpr foo)

-- An entry with instances takes back what an earlier one allowed; the other
-- way round both count.
theorem later_entry_resets :
    (∃ read, Config.populateWhiteLists {Config.fresh [] [] with cfgData := whiteListed anyAddress fooTwice} = .ok read ∧
      read.isAllowedClient "foo".toList "9".toList = false) ∧
    (∃ e ∈ (Ptree.node [] fooTwice).named "application".toList, idOf e = "foo".toList ∧ allows e "9".toList) ∧
    ∃ read, Config.populateWhiteLists
        {Config.fresh [] [] with cfgData := reordered (whiteListed anyAddress fooTwice) fooTwice.reverse} = .ok read ∧
      read.isAllowedClient "foo".toList "9".toList = true :=
  ⟨⟨_,rfl,rfl⟩,⟨fooEverywhere.2,.head _,rfl,.inl ⟨_,rfl,rfl⟩⟩,_,rfl,rfl⟩

end Kisscpp
