import Kisscpp.ConfigOverride

namespace Kisscpp
open TextLines PropertyTree

theorem walk_graft_unmade {path keys : List Text} (apart : ¬ keys <+: path) (value : Text) {t : Ptree}
    (absent : Ptree.walk keys t = none) : Ptree.walk keys (Ptree.graft path (.leaf value) t) = none := by
  induction path generalizing keys t with
  | nil => exact absent
  | cons key rest ih =>
    cases keys with
    | nil => cases absent
    | cons first others =>
      by_cases same : first = key
      · subst same
        have deeper : ¬ others <+: rest := fun inside => apart (List.cons_prefix_cons.mpr ⟨rfl,inside⟩)
        have long : others ≠ [] := by
          intro ended
          exact deeper (ended ▸ List.nil_prefix)
        have below : ∀ child, t.find first = some child → Ptree.walk others child = none := by
          intro child found
          rwa [Ptree.walk_cons,found,Option.bind_some] at absent
        cases rest with
        | nil =>
          rw [Ptree.walk_cons,Ptree.find_push]
          cases found : t.find first with
          | some child => exact below child found
          | none =>
            obtain ⟨next,further,rfl⟩ := List.exists_cons_of_ne_nil long
            simp
        | cons next further =>
          rw [Ptree.walk_cons,Ptree.graft,Ptree.find_force_self,Option.bind_some]
          apply ih deeper
          cases found : t.find first with
          | some child => exact below child found
          | none => exact Ptree.walk_empty long
      · have unchanged : (Ptree.graft (key :: rest) (.leaf value) t).find first = t.find first := by
          cases rest with
          | nil => rw [Ptree.find_push,if_neg same,Option.or_none]
          | cons next further => exact Ptree.find_force_ne same _ t
        rwa [Ptree.walk_cons,unchanged]

theorem walk_edited_unmade {e : List Text × Text} {keys : List Text} (own : ∀ key, e.1 = [key] → Plain key ∧ key ≠ [])
    (apart : ¬ keys <+: e.1) {t : Ptree} (absent : Ptree.walk keys t = none) : Ptree.walk keys (edited t e) = none := by
  unfold edited
  split
  · next key path =>
    split
    · next present =>
      obtain ⟨plain,filled⟩ := own key path
      rw [reduced_key plain,if_neg filled]
      have there : (Ptree.walk [key] t).isSome := by simpa using present
      have different : keys ≠ [key] := by
        intro same
        rw [same,path] at apart
        exact apart List.prefix_rfl
      have reads := Ptree.read_assign_ne [key] keys e.2 different there
      rw [absent] at reads
      exact Option.map_eq_none_iff.mp reads
    · rw [path] at apart
      exact walk_graft_unmade apart e.2 absent
  · exact walk_graft_unmade apart e.2 absent

theorem walk_edited_new {keys : List Text} {value : Text} {t : Ptree} (absent : Ptree.walk keys t = none) :
    ∃ made, Ptree.walk keys (edited t (keys,value)) = some made ∧ made.data = value := by
  refine ⟨.leaf value,?_,rfl⟩
  unfold edited
  split
  · next key path =>
    cases path
    have missing : t.find key = none := by simpa using absent
    rw [missing,if_neg (by simp)]
    exact Ptree.walk_graft_absent _ absent
  · exact Ptree.walk_graft_absent _ absent

theorem walk_edited_same {keys : List Text} {value : Text} {t found : Ptree}
    (own : ∀ key, keys = [key] → Plain key ∧ key ≠ []) (here : Ptree.walk keys t = some found) (reads : found.data = value) :
    ∃ kept, Ptree.walk keys (edited t (keys,value)) = some kept ∧ kept.data = value := by
  by_cases single : ∃ key, keys = [key]
  · obtain ⟨key,rfl⟩ := single
    obtain ⟨plain,filled⟩ := own key rfl
    exact edited_key value plain filled here
  · have long : keys.length ≠ 1 := fun one => single (List.length_eq_one_iff.mp one)
    obtain ⟨kept,there,same⟩ := walk_edited (e := (keys,value)) own (fun _ => long) here
    exact ⟨kept,there,same.trans reads⟩

theorem new_edits {es : List (List Text × Text)} {keys : List Text} {value : Text}
    (own : ∀ e ∈ es, ∀ key, e.1 = [key] → Plain key ∧ key ≠ []) (only : ∀ e ∈ es, keys <+: e.1 → e = (keys,value))
    {t : Ptree} (state : (Ptree.walk keys t = none ∧ (keys,value) ∈ es) ∨
      ∃ found, Ptree.walk keys t = some found ∧ found.data = value) :
    ∃ kept, Ptree.walk keys (es.foldl edited t) = some kept ∧ kept.data = value := by
  induction es generalizing t with
  | nil =>
    rcases state with pending | done
    · cases pending.2
    · exact done
  | cons e rest ih =>
    have ownHere := own e List.mem_cons_self
    apply ih (fun e member => own e (List.mem_cons_of_mem _ member)) (fun e member => only e (List.mem_cons_of_mem _ member))
    by_cases hit : keys <+: e.1
    · have this := only e List.mem_cons_self hit
      subst this
      right
      rcases state with pending | done
      · exact walk_edited_new pending.1
      · obtain ⟨found,here,reads⟩ := done
        exact walk_edited_same ownHere here reads
    · rcases state with pending | done
      · left
        refine ⟨walk_edited_unmade ownHere hit pending.1,?_⟩
        rcases List.mem_cons.mp pending.2 with now | later
        · rw [← now] at hit
          exact absurd List.prefix_rfl hit
        · exact later
      · right
        obtain ⟨found,here,reads⟩ := done
        have different : e.1 ≠ keys := by
          intro equal
          rw [equal] at hit
          exact hit List.prefix_rfl
        obtain ⟨kept,there,same⟩ := walk_edited ownHere (fun equal => absurd equal different) here
        exact ⟨kept,there,same.trans reads⟩

theorem edits_childless_node {t : Ptree} (keyed : WellKeyed t) (depth : Nat) :
    ∀ e ∈ edits depth t, ∃ node, Ptree.walk e.1 t = some node ∧ node.children = [] ∧ e.2 = node.data := by
  induction depth generalizing t with
  | zero => intro e member; cases member
  | succ depth ih =>
    intro e member
    obtain ⟨_,unique,below⟩ := keyed.parts
    obtain ⟨v,inTree,inEdits⟩ := List.mem_flatMap.mp member
    have first : t.find v.1 = some v.2 := Ptree.find_unique unique inTree
    split at inEdits
    · next childless =>
      rw [List.mem_singleton.mp inEdits]
      exact ⟨v.2,by simp [first],List.length_eq_zero_iff.mp childless,rfl⟩
    · rw [first,Option.getD_some] at inEdits
      obtain ⟨inner,isInner,rfl⟩ := List.mem_map.mp inEdits
      obtain ⟨node,walked,childless,value⟩ := ih (below v inTree) inner isInner
      refine ⟨node,?_,childless,value⟩
      rw [Ptree.walk_cons,first,Option.bind_some,walked]

theorem childless_node_edits {keys : List Text} (long : keys ≠ []) {t node : Ptree} (here : Ptree.walk keys t = some node)
    (childless : node.children = []) {depth : Nat} (enough : sizeOf t ≤ depth) (keyed : WellKeyed t) :
    (keys,node.data) ∈ edits depth t := by
  induction depth generalizing keys t with
  | zero =>
    obtain ⟨data,children⟩ := t
    simp only [Ptree.node.sizeOf_spec] at enough
    omega
  | succ depth ih =>
    cases keys with
    | nil => exact absurd rfl long
    | cons key rest =>
      obtain ⟨child,found,below⟩ := Option.bind_eq_some_iff.mp here
      have inTree := Ptree.find_mem found
      have smaller := Ptree.size_child inTree
      apply List.mem_flatMap.mpr
      refine ⟨(key,child),inTree,?_⟩
      cases rest with
      | nil =>
        cases Option.some.inj below
        simp [childless]
      | cons next others =>
        have parent : child.children.length ≠ 0 := by
          intro none
          obtain ⟨grandchild,finds,_⟩ := Option.bind_eq_some_iff.mp below
          have member := Ptree.find_mem finds
          rw [List.length_eq_zero_iff.mp none] at member
          cases member
        have inner := ih (by simp) below (by omega) (keyed.parts.2.2 _ inTree)
        simp only [if_neg parent,found,Option.getD_some]
        exact List.mem_map.mpr ⟨_,inner,rfl⟩

theorem walk_childless {keys further : List Text} {t node : Ptree} (here : Ptree.walk keys t = some node)
    (childless : node.children = []) (beyond : (Ptree.walk (keys ++ further) t).isSome) : further = [] := by
  rw [Ptree.walk_append,here,Option.bind_some] at beyond
  cases further with
  | nil => rfl
  | cons key rest =>
    have none : node.find key = none := by simp [Ptree.find,childless]
    rw [Ptree.walk_cons,none] at beyond
    cases beyond

theorem edits_own {t : Ptree} (keyed : WellKeyed t) (depth : Nat) :
    ∀ e ∈ edits depth t, ∀ key, e.1 = [key] → Plain key ∧ key ≠ [] := by
  intro e member key path
  obtain ⟨node,walked,_⟩ := edits_childless_node keyed depth e member
  have named := keyed.walked walked key (by simp [path])
  exact named.symm

section Frame
variable {pt1 pt2 : Ptree} (keyed : WellKeyed pt2) {keys : List Text} {depth : Nat}
include keyed

theorem merge_keeps {old : Ptree} (inFirst : Ptree.walk keys pt1 = some old)
    (parent : ∀ node, Ptree.walk keys pt2 = some node → node.children ≠ []) :
    ∃ kept, Ptree.walk keys ((edits depth pt2).foldl edited pt1) = some kept ∧ kept.data = old.data := by
  apply walk_edits (edits_own keyed depth) _ inFirst
  intro e member path
  obtain ⟨node,walked,childless,_⟩ := edits_childless_node keyed depth e member
  rw [path] at walked
  exact absurd childless (parent node walked)

theorem merge_adds (enough : sizeOf pt2 ≤ depth) {node : Ptree} (inSecond : Ptree.walk keys pt2 = some node)
    (childless : node.children = []) (absent : Ptree.walk keys pt1 = none) :
    ∃ made, Ptree.walk keys ((edits depth pt2).foldl edited pt1) = some made ∧ made.data = node.data := by
  have long : keys ≠ [] := by
    intro root
    rw [root] at absent
    cases absent
  have written := childless_node_edits long inSecond childless enough keyed
  refine new_edits (edits_own keyed depth) ?_ (.inl ⟨absent,written⟩)
  intro e member inside
  obtain ⟨further,path⟩ := inside
  obtain ⟨leaf,walked,_,value⟩ := edits_childless_node keyed depth e member
  rw [← path] at walked
  have ended := walk_childless inSecond childless (by rw [walked]; rfl)
  rw [ended,List.append_nil] at walked path
  rw [inSecond] at walked
  cases Option.some.inj walked
  exact Prod.ext path.symm value

end Frame

theorem merge_frame {pt1 pt2 : Ptree} (root : PlainRoot pt1) (keyed : WellKeyed pt2) :
    ∃ enough, ∀ fuel ≥ enough, ∃ merged, ptreeMerge fuel pt1 pt2 [] = .ok merged ∧
      (∀ path value, pt1.get path = .ok value → (∀ node, pt2.getChild path = .ok node → node.children ≠ []) →
        merged.get path = .ok value) ∧
      ∀ path node, pt2.getChild path = .ok node → node.children = [] → (∀ value, pt1.get path ≠ .ok value) →
        merged.get path = .ok node.data := by
  refine ⟨sizeOf pt2,?_⟩
  intro fuel enough
  refine ⟨_,merge_edits root keyed.mergeable enough,?_,?_⟩
  · intro path value reads parent
    obtain ⟨old,inFirst,rfl⟩ := Ptree.get_reads.mp reads
    apply Ptree.get_reads.mpr
    exact merge_keeps keyed inFirst fun node here => parent node (Ptree.getChild_walk.mpr here)
  · intro path node inSecond childless unread
    apply Ptree.get_reads.mpr
    apply merge_adds keyed enough (Ptree.getChild_walk.mp inSecond) childless
    cases inFirst : Ptree.walk (reduced path) pt1 with
    | none => rfl
    | some old => exact absurd (Ptree.get_reads.mpr ⟨old,inFirst,rfl⟩) (unread old.data)

theorem merge_frame_nested : ∃ enough, ∀ fuel ≥ enough, ∃ merged,
    ptreeMerge fuel commonNested (.node [] [("a".toList,.node [] [("c".toList,.leaf "2".toList)])]) [] = .ok merged ∧
      merged.get "a.b".toList = .ok "1".toList ∧ merged.get "a.c".toList = .ok "2".toList := by
  have leaf : WellKeyed (.leaf "2".toList) := .node (by simp) (by simp) (by simp)
  have inner : WellKeyed (.node [] [("c".toList,.leaf "2".toList)]) := .node (by simp [Plain]) (by simp) (by simpa using leaf)
  have keyed : WellKeyed (.node [] [("a".toList,.node [] [("c".toList,.leaf "2".toList)])]) :=
    .node (by simp [Plain]) (by simp) (by simpa using inner)
  obtain ⟨enough,merges⟩ := merge_frame (nested_keyed "1".toList).plainRoot keyed
  refine ⟨enough,?_⟩
  intro fuel more
  obtain ⟨merged,ran,keeps,adds⟩ := merges fuel more
  refine ⟨merged,ran,keeps _ _ rfl ?_,adds _ (.leaf "2".toList) rfl rfl ?_⟩
  · intro node here
    cases here
  · intro value here
    cases here

end Kisscpp
