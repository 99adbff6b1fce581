import Kisscpp.ConfigMerge

namespace Kisscpp
open TextLines PropertyTree

-- A path that ends in an empty fragment is looked up without it; once it goes
-- on, the fragment counts.
def blankEnd (path : Text) : Bool := (fragments path).getLast? == some []

def gap : Bool → List Text
  | true => [[]]
  | false => []

theorem fragments_gap (path : Text) : fragments path = reduced path ++ gap (blankEnd path) := by
  by_cases blank : (fragments path).getLast? = some []
  · have ends : blankEnd path = true := by simpa [blankEnd] using blank
    rw [ends]
    exact fragments_cut blank
  · have named : blankEnd path = false := by simpa [blankEnd] using blank
    rw [named,reduced,if_neg blank,gap,List.append_nil]

theorem blankEnd_join (front key : Text) : blankEnd (front ++ '.' :: key) = blankEnd key := by
  rw [blankEnd,getLast_join,blankEnd]

theorem reduced_join (front key : Text) :
    reduced (front ++ '.' :: key) = reduced front ++ (gap (blankEnd front) ++ reduced key) := by
  rw [reduced_below,fragments_gap front,List.append_assoc]

theorem dotted_join (front key : Text) : dotted (fragments front ++ fragments key) = front ++ '.' :: key := by
  rw [← fragments_join,dotted_fragments]

-- Below each node that the merge comes to, every child with children has a
-- key that leads somewhere. The flag says that the path so far has an empty
-- last fragment, which the next path includes.
inductive Passable : Bool → Ptree → Prop where
  | node {flag : Bool} {t : Ptree}
      (leads : ∀ v ∈ t.children, v.2.children ≠ [] → (Ptree.walk (gap flag ++ reduced v.1) t).isSome)
      (below : ∀ v ∈ t.children, v.2.children ≠ [] → ∀ found, Ptree.walk (gap flag ++ reduced v.1) t = some found →
        Passable (blankEnd v.1) found) : Passable flag t

theorem Passable.parts {flag : Bool} {t : Ptree} (passable : Passable flag t) :
    ∀ v ∈ t.children, v.2.children ≠ [] → ∃ found, Ptree.walk (gap flag ++ reduced v.1) t = some found ∧
      Passable (blankEnd v.1) found := by
  cases passable with
  | node leads below =>
    intro v member parent
    obtain ⟨found,here⟩ := Option.isSome_iff_exists.mp (leads v member parent)
    exact ⟨found,here,below v member parent found here⟩

-- What the merge writes for any keys: the path as it is cut, relative to the
-- node at hand, and the value.
def writes : Nat → Bool → Ptree → List (List Text × Text)
  | 0,_,_ => []
  | depth + 1,flag,t => t.children.flatMap fun v =>
      if v.2.children.length = 0 then [(fragments v.1,v.2.data)]
      else (writes depth (blankEnd v.1) ((Ptree.walk (gap flag ++ reduced v.1) t).getD .empty)).map fun e =>
        (fragments v.1 ++ e.1,e.2)

def written (front : List Text) (t : Ptree) (e : List Text × Text) : Ptree :=
  ptreeAddOrPut t (dotted (front ++ e.1)) e.2

-- Each call goes to a smaller node, or stays at the node and gets the flag.
noncomputable def descent (flag : Bool) (t : Ptree) : Nat := 2 * sizeOf t + if flag then 0 else 1

theorem size_walk {keys : List Text} {t found : Ptree} (here : Ptree.walk keys t = some found) :
    sizeOf found ≤ sizeOf t ∧ (keys ≠ [] → sizeOf found < sizeOf t) := by
  induction keys generalizing t with
  | nil =>
    cases Option.some.inj here
    exact ⟨Nat.le_refl _,fun long => absurd rfl long⟩
  | cons key rest ih =>
    obtain ⟨child,foundChild,below⟩ := Option.bind_eq_some_iff.mp here
    have smaller := Ptree.size_child (Ptree.find_mem foundChild)
    have further := (ih below).1
    exact ⟨by omega,fun _ => by omega⟩

theorem descent_walk {flag : Bool} {key : Text} {t found : Ptree}
    (here : Ptree.walk (gap flag ++ reduced key) t = some found) : descent (blankEnd key) found < descent flag t := by
  obtain ⟨atMost,smaller⟩ := size_walk here
  by_cases stays : gap flag ++ reduced key = []
  · obtain ⟨unflagged,blank⟩ := List.append_eq_nil_iff.mp stays
    have low : flag = false := by
      cases flag with
      | true => cases unflagged
      | false => rfl
    have high : blankEnd key = true := by rw [reduced_nil blank]; rfl
    rw [descent,descent,high,low]
    simp only [if_true,Bool.false_eq_true,if_false]
    omega
  · have less := smaller stays
    unfold descent
    split <;> split <;> omega

theorem descent_pos (flag : Bool) (t : Ptree) : 0 < descent flag t := by
  obtain ⟨data,children⟩ := t
  simp only [descent,Ptree.node.sizeOf_spec]
  omega

theorem foldl_written (front : List Text) (key : Text) (es : List (List Text × Text)) (t : Ptree) :
    (es.map fun e => (fragments key ++ e.1,e.2)).foldl (written front) t = es.foldl (written (front ++ fragments key)) t := by
  rw [List.foldl_map]
  congr 1
  funext t e
  simp [written]

theorem merge_writes_below {pt2 : Ptree} (fuel : Nat) {node : Text} (below : node ≠ []) {sub : Ptree}
    (found : Ptree.walk (reduced node) pt2 = some sub) (passable : Passable (blankEnd node) sub)
    (enough : descent (blankEnd node) sub ≤ fuel) (pt1 : Ptree) :
    ptreeMerge fuel pt1 pt2 node = .ok ((writes fuel (blankEnd node) sub).foldl (written (fragments node)) pt1) := by
  induction fuel generalizing node sub pt1 with
  | zero => exact absurd enough (Nat.not_le.mpr (descent_pos _ _))
  | succ fuel ih =>
    have got : pt2.getChild node = .ok sub := Ptree.getChild_walk.mpr found
    rw [ptreeMerge,if_pos below,got]
    simp only [writes,List.foldl_flatMap]
    refine (foldlM_ok (fun _ => True) ?_ trivial).1
    intro t v member _
    refine ⟨?_,trivial⟩
    by_cases childless : v.2.children.length = 0
    · simp only [if_pos childless,List.foldl_cons,List.foldl_nil,written,dotted_join]
    · obtain ⟨next,leads,onward⟩ := passable.parts v member (fun none => childless (by simp [none]))
      have walked : Ptree.walk (reduced (node ++ '.' :: v.1)) pt2 = some next := by
        rw [reduced_join,Ptree.walk_append,found]
        exact leads
      have less := descent_walk leads
      rw [← blankEnd_join node v.1] at onward less
      have ran := ih (by simp) walked onward (by omega) t
      simp only [if_neg childless,leads,Option.getD_some]
      rw [ran,foldl_written,fragments_join,blankEnd_join]

-- The root must not have a child without a name that has children: its path
-- is the root's own.
def Rooted (t : Ptree) : Prop := ∀ v ∈ t.children, v.2.children ≠ [] → v.1 ≠ []

theorem merge_writes {pt2 : Ptree} (rooted : Rooted pt2) (passable : Passable false pt2) {fuel : Nat}
    (enough : descent false pt2 ≤ fuel) (pt1 : Ptree) :
    ptreeMerge fuel pt1 pt2 [] = .ok ((writes fuel false pt2).foldl (written []) pt1) := by
  cases fuel with
  | zero => exact absurd enough (Nat.not_le.mpr (descent_pos _ _))
  | succ fuel =>
    simp only [ptreeMerge,ne_eq,not_true,if_false,writes,List.foldl_flatMap]
    refine (foldlM_ok (fun _ => True) ?_ trivial).1
    intro t v member _
    refine ⟨?_,trivial⟩
    by_cases childless : v.2.children.length = 0
    · simp only [if_pos childless,List.foldl_cons,List.foldl_nil,written,List.nil_append,dotted_fragments]
    · have parent : v.2.children ≠ [] := fun none => childless (by simp [none])
      obtain ⟨next,leads,onward⟩ := passable.parts v member parent
      have less := descent_walk leads
      have ran := merge_writes_below fuel (rooted v member parent) leads onward (by omega) t
      simp only [if_neg childless,leads,Option.getD_some]
      rw [ran,foldl_written,List.nil_append]

theorem foldlM_mem {σ ι ε : Type*} {step : σ → ι → Except ε σ} {inputs : List ι} {s last : σ}
    (ran : inputs.foldlM step s = .ok last) {i : ι} (member : i ∈ inputs) : ∃ before after, step before i = .ok after := by
  induction inputs generalizing s with
  | nil => cases member
  | cons first rest ih =>
    rw [List.foldlM_cons] at ran
    cases stepped : step s first with
    | error e => rw [stepped] at ran; cases ran
    | ok next =>
      rw [stepped] at ran
      rcases List.mem_cons.mp member with rfl | later
      · exact ⟨s,next,stepped⟩
      · exact ih ran later

theorem merge_resolves {fuel : Nat} {pt1 pt2 merged : Ptree} {node : Text} (below : node ≠ [])
    (ran : ptreeMerge fuel pt1 pt2 node = .ok merged) : ∃ sub, Ptree.walk (reduced node) pt2 = some sub := by
  cases fuel with
  | zero => cases ran
  | succ fuel =>
    rw [ptreeMerge,if_pos below] at ran
    cases got : pt2.getChild node with
    | error e => rw [got] at ran; cases ran
    | ok sub => exact ⟨sub,Ptree.getChild_walk.mp got⟩

theorem merge_below_passable {fuel : Nat} {pt1 pt2 merged sub : Ptree} {node : Text} (below : node ≠ [])
    (found : Ptree.walk (reduced node) pt2 = some sub) (ran : ptreeMerge fuel pt1 pt2 node = .ok merged) :
    Passable (blankEnd node) sub := by
  induction fuel generalizing pt1 merged node sub with
  | zero => cases ran
  | succ fuel ih =>
    have got : pt2.getChild node = .ok sub := Ptree.getChild_walk.mpr found
    rw [ptreeMerge,if_pos below,got] at ran
    have each : ∀ v ∈ sub.children, v.2.children ≠ [] → ∃ before after,
        ptreeMerge fuel before pt2 (node ++ '.' :: v.1) = .ok after := by
      intro v member parent
      obtain ⟨before,after,stepped⟩ := foldlM_mem ran member
      rw [if_neg (by simpa using parent)] at stepped
      exact ⟨before,after,stepped⟩
    have walked : ∀ key, Ptree.walk (reduced (node ++ '.' :: key)) pt2 = Ptree.walk (gap (blankEnd node) ++ reduced key) sub := by
      intro key
      rw [reduced_join,Ptree.walk_append,found,Option.bind_some]
    constructor
    · intro v member parent
      obtain ⟨before,after,stepped⟩ := each v member parent
      obtain ⟨next,here⟩ := merge_resolves (by simp) stepped
      rw [walked] at here
      rw [here]
      rfl
    · intro v member parent next here
      obtain ⟨before,after,stepped⟩ := each v member parent
      rw [← walked] at here
      rw [← blankEnd_join node v.1]
      exact ih (by simp) here stepped

section Root
variable {pt2 : Ptree}

theorem root_steps {fuel : Nat} {pt1 merged : Ptree} (ran : ptreeMerge (fuel + 1) pt1 pt2 [] = .ok merged)
    {v : Text × Ptree} (member : v ∈ pt2.children) (parent : v.2.children ≠ []) :
    ∃ before after, ptreeMerge fuel before pt2 v.1 = .ok after := by
  rw [ptreeMerge,if_neg (by simp)] at ran
  obtain ⟨before,after,stepped⟩ := foldlM_mem ran member
  rw [if_neg (by simpa using parent)] at stepped
  exact ⟨before,after,stepped⟩

-- The path of such a child is the root's, whatever the fuel.
theorem merge_rooted {fuel : Nat} {pt1 merged : Ptree} (ran : ptreeMerge fuel pt1 pt2 [] = .ok merged) : Rooted pt2 := by
  intro v member parent nameless
  induction fuel generalizing pt1 merged with
  | zero => cases ran
  | succ fuel ih =>
    obtain ⟨before,after,stepped⟩ := root_steps ran member parent
    rw [nameless] at stepped
    exact ih stepped

theorem merge_passable {fuel : Nat} {pt1 merged : Ptree} (ran : ptreeMerge fuel pt1 pt2 [] = .ok merged) :
    Passable false pt2 := by
  have rooted := merge_rooted ran
  cases fuel with
  | zero => cases ran
  | succ fuel =>
    constructor
    · intro v member parent
      obtain ⟨before,after,stepped⟩ := root_steps ran member parent
      obtain ⟨next,here⟩ := merge_resolves (rooted v member parent) stepped
      simp [gap,here]
    · intro v member parent next here
      obtain ⟨before,after,stepped⟩ := root_steps ran member parent
      exact merge_below_passable (rooted v member parent) here stepped

theorem merge_finishes (pt1 : Ptree) : (∃ enough, ∀ fuel ≥ enough, ∃ merged, ptreeMerge fuel pt1 pt2 [] = .ok merged) ↔
    Rooted pt2 ∧ Passable false pt2 := by
  constructor
  · intro finishes
    obtain ⟨enough,all⟩ := finishes
    obtain ⟨merged,ran⟩ := all enough (Nat.le_refl _)
    exact ⟨merge_rooted ran,merge_passable ran⟩
  · intro clear
    refine ⟨descent false pt2,?_⟩
    intro fuel enough
    exact ⟨_,merge_writes clear.1 clear.2 enough pt1⟩

end Root

theorem Mergeable.passable {t : Ptree} (mergeable : Mergeable t) : Rooted t ∧ Passable false t := by
  induction mergeable with
  | @node data children plain named _ ih =>
    have filled : ∀ v ∈ children, v.2.children ≠ [] → v.1 ≠ [] := fun v member parent blank => parent (named v member blank)
    have single : ∀ v ∈ children, v.2.children ≠ [] → reduced v.1 = [v.1] := by
      intro v member parent
      rw [reduced_key (plain v member),if_neg (filled v member parent)]
    have walked : ∀ v ∈ children, v.2.children ≠ [] → ∀ t : Ptree,
        Ptree.walk (gap false ++ reduced v.1) t = t.find v.1 := by
      intro v member parent t
      rw [single v member parent]
      simp [gap]
    refine ⟨filled,?_,?_⟩
    · intro v member parent
      obtain ⟨first,found⟩ := Ptree.find_of_mem member
      rw [walked v member parent,found]
      rfl
    · intro v member parent found here
      rw [walked v member parent] at here
      have named : blankEnd v.1 = false := by
        rw [blankEnd,fragments_single (plain v member)]
        simpa using filled v member parent
      rw [named]
      exact (ih _ (Ptree.find_mem here)).2

-- A root array of objects is walked again and again.
theorem array_never_finishes : ¬ ∃ enough, ∀ fuel ≥ enough, ∃ merged,
    ptreeMerge fuel .empty (.node [] [([],.node [] [("a".toList,.leaf "1".toList)])]) [] = .ok merged := by
  intro finishes
  obtain ⟨enough,all⟩ := finishes
  obtain ⟨merged,ran⟩ := all enough (Nat.le_refl _)
  exact merge_rooted ran _ (List.mem_singleton_self _) (by simp) rfl

end Kisscpp
