import Kisscpp.Configuration

namespace Kisscpp
open TextLines PropertyTree

inductive WellKeyed : Ptree → Prop where
  | node {data : Text} {children : List (Text × Ptree)} (named : ∀ v ∈ children, v.1 ≠ [] ∧ Plain v.1)
      (unique : (children.map Prod.fst).Nodup) (below : ∀ v ∈ children, WellKeyed v.2) :
      WellKeyed (.node data children)

theorem WellKeyed.parts {t : Ptree} (keyed : WellKeyed t) :
    (∀ v ∈ t.children, v.1 ≠ [] ∧ Plain v.1) ∧ (t.children.map Prod.fst).Nodup ∧ ∀ v ∈ t.children, WellKeyed v.2 := by
  cases keyed with
  | node named unique below => exact ⟨named,unique,below⟩

theorem WellKeyed.mergeable {t : Ptree} (keyed : WellKeyed t) : Mergeable t := by
  induction keyed with
  | node named _ _ ih =>
    exact .node (fun v member => (named v member).2) (fun v member blank => absurd blank (named v member).1) ih

theorem WellKeyed.plainRoot {t : Ptree} (keyed : WellKeyed t) : PlainRoot t :=
  fun v member => (keyed.parts.1 v member).2

theorem WellKeyed.walked {keys : List Text} {t found : Ptree} (keyed : WellKeyed t)
    (here : Ptree.walk keys t = some found) : ∀ key ∈ keys, key ≠ [] ∧ Plain key := by
  induction keys generalizing t with
  | nil => intro _ member; cases member
  | cons first rest ih =>
    obtain ⟨child,foundChild,below⟩ := Option.bind_eq_some_iff.mp here
    have inTree := Ptree.find_mem foundChild
    intro key member
    rcases List.mem_cons.mp member with rfl | later
    · exact keyed.parts.1 _ inTree
    · exact ih (keyed.parts.2.2 _ inTree) below key later

theorem reduced_named {keys : List Text} (named : ∀ key ∈ keys, key ≠ [] ∧ Plain key) : reduced (dotted keys) = keys := by
  by_cases nonempty : keys = []
  · subst nonempty
    rfl
  · refine reduced_dotted nonempty (fun key member => (named key member).2) ?_
    intro blank
    exact (named [] (List.mem_of_getLast? blank)).1 rfl

theorem walk_edited {t found : Ptree} {keys : List Text} {e : List Text × Text}
    (own : ∀ key, e.1 = [key] → Plain key ∧ key ≠ []) (elsewhere : e.1 = keys → keys.length ≠ 1)
    (here : Ptree.walk keys t = some found) :
    ∃ kept, Ptree.walk keys (edited t e) = some kept ∧ kept.data = found.data := by
  unfold edited
  split
  · next key path =>
    split
    · obtain ⟨plain,filled⟩ := own key path
      rw [reduced_key plain,if_neg filled]
      refine Ptree.walk_assign_ne [key] keys e.2 ?_ here
      intro same
      exact elsewhere (path.trans same.symm) (by rw [same]; rfl)
    · exact Ptree.walk_graft [key] keys _ here
  · exact Ptree.walk_graft e.1 keys _ here

theorem edited_key (value : Text) {t found : Ptree} {key : Text} (plain : Plain key) (filled : key ≠ [])
    (here : Ptree.walk [key] t = some found) :
    ∃ kept, Ptree.walk [key] (edited t ([key],value)) = some kept ∧ kept.data = value := by
  have present : (t.find key).isSome = true := by
    have found : t.find key = some found := by simpa using here
    rw [found]
    rfl
  simp only [edited,present,if_true]
  rw [reduced_key plain,if_neg filled]
  exact Ptree.walk_assign_self [key] value t

theorem walk_edits {es : List (List Text × Text)} {keys : List Text}
    (own : ∀ e ∈ es, ∀ key, e.1 = [key] → Plain key ∧ key ≠ []) (elsewhere : ∀ e ∈ es, e.1 = keys → keys.length ≠ 1)
    {t found : Ptree} (here : Ptree.walk keys t = some found) :
    ∃ kept, Ptree.walk keys (es.foldl edited t) = some kept ∧ kept.data = found.data := by
  induction es generalizing t found with
  | nil => exact ⟨found,here,rfl⟩
  | cons e rest ih =>
    obtain ⟨middle,walked,same⟩ := walk_edited (own e List.mem_cons_self) (elsewhere e List.mem_cons_self) here
    obtain ⟨kept,walks,equal⟩ := ih (fun e member => own e (List.mem_cons_of_mem _ member))
      (fun e member => elsewhere e (List.mem_cons_of_mem _ member)) walked
    exact ⟨kept,walks,equal.trans same⟩

theorem key_edits {es : List (List Text × Text)} {key value : Text}
    (own : ∀ e ∈ es, ∀ k, e.1 = [k] → Plain k ∧ k ≠ []) (agree : ∀ e ∈ es, e.1 = [key] → e.2 = value)
    {t found : Ptree} (here : Ptree.walk [key] t = some found)
    (written : found.data = value ∨ ([key],value) ∈ es) :
    ∃ kept, Ptree.walk [key] (es.foldl edited t) = some kept ∧ kept.data = value := by
  induction es generalizing t found with
  | nil =>
    rcases written with done | pending
    · exact ⟨found,here,done⟩
    · cases pending
  | cons e rest ih =>
    have ownLater := fun e member => own e (List.mem_cons_of_mem _ member)
    have agreeLater := fun e member => agree e (List.mem_cons_of_mem _ member)
    by_cases same : e.1 = [key]
    · obtain ⟨plain,filled⟩ := own e List.mem_cons_self key same
      obtain ⟨middle,walked,now⟩ := edited_key value plain filled here
      have this : e = ([key],value) := Prod.ext same (agree e List.mem_cons_self same)
      rw [← this] at walked
      exact ih ownLater agreeLater walked (.inl now)
    · obtain ⟨middle,walked,equal⟩ := walk_edited (own e List.mem_cons_self) (fun hit => absurd hit same) here
      refine ih ownLater agreeLater walked ?_
      rcases written with done | pending
      · exact .inl (equal.trans done)
      · refine .inr ?_
        rcases List.mem_cons.mp pending with rfl | rest
        · exact absurd rfl same
        · exact rest

theorem edits_single {t : Ptree} (keyed : WellKeyed t) {depth : Nat} {e : List Text × Text}
    (member : e ∈ edits (depth + 1) t) {key : Text} (path : e.1 = [key]) :
    (Plain key ∧ key ≠ []) ∧ ∃ found, t.find key = some found ∧ e.2 = found.data := by
  obtain ⟨named,unique,below⟩ := keyed.parts
  obtain ⟨v,inTree,inEdits⟩ := List.mem_flatMap.mp member
  have first : t.find v.1 = some v.2 := Ptree.find_unique unique inTree
  split at inEdits
  · rw [List.mem_singleton.mp inEdits] at path ⊢
    cases path
    exact ⟨(named v inTree).symm,v.2,first,rfl⟩
  · rw [first,Option.getD_some] at inEdits
    obtain ⟨inner,isInner,rfl⟩ := List.mem_map.mp inEdits
    have ended : inner.1 = [] := (List.cons.inj path).2
    exact absurd ended (edits_plain (below v inTree).mergeable depth inner isInner).1

theorem edits_leaf {t : Ptree} {depth : Nat} {key value : Text} (found : t.find key = some (.leaf value)) :
    ([key],value) ∈ edits (depth + 1) t := by
  refine List.mem_flatMap.mpr ⟨(key,.leaf value),Ptree.find_mem found,?_⟩
  simp [Ptree.leaf]

theorem get_walk {keys : List Text} {t found : Ptree} (named : ∀ key ∈ keys, key ≠ [] ∧ Plain key)
    (here : Ptree.walk keys t = some found) : t.get (dotted keys) = .ok found.data := by
  rw [Ptree.get,Ptree.getChild,reduced_named named,here]
  rfl

theorem merged_reads {common own : Ptree} (commonKeyed : WellKeyed common) (ownKeyed : WellKeyed own)
    {keys : List Text} {old new : Text} (inCommon : Ptree.walk keys common = some (.leaf old))
    (inOwn : Ptree.walk keys own = some (.leaf new)) (depth : Nat) :
    ((edits (depth + 1) own).foldl edited common).get (dotted keys) = .ok (if keys.length = 1 then new else old) := by
  have named := commonKeyed.walked inCommon
  have single : ∀ e ∈ edits (depth + 1) own, ∀ key, e.1 = [key] → Plain key ∧ key ≠ [] :=
    fun e member key path => (edits_single ownKeyed member path).1
  by_cases top : keys.length = 1
  · obtain ⟨key,rfl⟩ := List.length_eq_one_iff.mp top
    have found : own.find key = some (.leaf new) := by simpa using inOwn
    have agree : ∀ e ∈ edits (depth + 1) own, e.1 = [key] → e.2 = new := by
      intro e member path
      obtain ⟨_,first,finds,value⟩ := edits_single ownKeyed member path
      rw [found] at finds
      cases finds
      exact value
    obtain ⟨kept,walked,reads⟩ := key_edits single agree inCommon (.inr (edits_leaf found))
    rw [get_walk named walked,reads,if_pos top]
  · obtain ⟨kept,walked,reads⟩ := walk_edits single (fun _ _ _ => top) inCommon
    rw [get_walk named walked,reads,if_neg top]
    rfl

theorem loadFiles_merged {common own merged : Ptree} {fuel : Nat} (cfg : Config)
    (ran : ptreeMerge fuel common own [] = .ok merged) :
    cfg.loadFiles fuel (.holds common) (.holds own) = .ok {cfg with cfgData := merged} := by
  simp only [Config.loadFiles,Config.loadFile,bind,Except.bind,ran]
  rfl

theorem instance_overrides_top_level {common own : Ptree} (commonKeyed : WellKeyed common) (ownKeyed : WellKeyed own)
    {keys : List Text} {old new : Text} (inCommon : Ptree.walk keys common = some (.leaf old))
    (inOwn : Ptree.walk keys own = some (.leaf new)) :
    ∃ enough, ∀ fuel ≥ enough, ∀ cfg : Config, ∃ loaded,
      cfg.loadFiles fuel (.holds common) (.holds own) = .ok loaded ∧
      (loaded.get (dotted keys) = .ok new ↔ keys.length = 1 ∨ old = new) := by
  refine ⟨sizeOf own + 1,?_⟩
  intro fuel enough cfg
  obtain ⟨depth,rfl⟩ : ∃ depth, fuel = depth + 1 := ⟨fuel - 1,by omega⟩
  have ran := merge_edits commonKeyed.plainRoot ownKeyed.mergeable (show sizeOf own ≤ depth + 1 by omega)
  have got : Config.get {cfg with cfgData := (edits (depth + 1) own).foldl edited common} (dotted keys) =
      .ok (if keys.length = 1 then new else old) := merged_reads commonKeyed ownKeyed inCommon inOwn depth
  refine ⟨_,loadFiles_merged cfg ran,?_⟩
  rw [got]
  by_cases top : keys.length = 1
  · simp [top]
  · simp [top]

def commonNested : Ptree := .node [] [("a".toList,.node [] [("b".toList,.leaf "1".toList)])]
def instanceNested : Ptree := .node [] [("a".toList,.node [] [("b".toList,.leaf "2".toList)])]
def someConfig : Config := .fresh "app".toList "0".toList

theorem nested_keyed (value : Text) :
    WellKeyed (.node [] [("a".toList,.node [] [("b".toList,.leaf value)])]) := by
  have leaf : WellKeyed (.leaf value) := .node (by simp) (by simp) (by simp)
  have inner : WellKeyed (.node [] [("b".toList,.leaf value)]) :=
    .node (by simp [Plain]) (by simp) (by simpa using leaf)
  exact .node (by simp [Plain]) (by simp) (by simpa using inner)

theorem instance_overrides_top_level_nested :
    ∃ enough, ∀ fuel ≥ enough, ∀ cfg : Config, ∃ loaded,
      cfg.loadFiles fuel (.holds commonNested) (.holds instanceNested) = .ok loaded ∧
      (loaded.get (dotted ["a".toList,"b".toList]) = .ok "2".toList ↔
        ["a".toList,"b".toList].length = 1 ∨ "1".toList = "2".toList) :=
  instance_overrides_top_level (nested_keyed _) (nested_keyed _) rfl rfl

-- Below the top level the merge appends a second node, which no path reaches.
theorem instance_does_not_override : WellKeyed commonNested ∧ WellKeyed instanceNested ∧
    commonNested.get "a.b".toList = .ok "1".toList ∧ instanceNested.get "a.b".toList = .ok "2".toList ∧
    ∃ loaded, someConfig.loadFiles 2 (.holds commonNested) (.holds instanceNested) = .ok loaded ∧
      loaded.get "a.b".toList = .ok "1".toList :=
  ⟨nested_keyed _,nested_keyed _,rfl,rfl,_,rfl,rfl⟩

end Kisscpp
