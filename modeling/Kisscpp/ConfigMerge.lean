import Kisscpp.PropertyTree

namespace Kisscpp
open TextLines PropertyTree

-- ptree_bad_path; or the recursion is deeper than the fuel.
inductive MergeFailure where
  | badPath (e : BadPath)
  | unfinished

def ptreeAddOrPut (pt1 : Ptree) (name value : Text) : Ptree :=
  if (pt1.find name).isSome then pt1.put name value else pt1.add name value

-- Both branches write out ptreeAddOrPut. The subtree that is walked is looked
-- up again by its path from the root of pt2.
def ptreeMerge : Nat → Ptree → Ptree → Text → Except MergeFailure Ptree
  | 0,_,_,_ => .error .unfinished
  | fuel + 1,pt1,pt2,node =>
    if node ≠ [] then
      match pt2.getChild node with
      | .error e => .error (.badPath e)
      | .ok sub =>
        sub.children.foldlM (fun pt1 v =>
          let fullNodePath := node ++ '.' :: v.1
          if v.2.children.length = 0 then .ok (ptreeAddOrPut pt1 fullNodePath v.2.data)
          else ptreeMerge fuel pt1 pt2 fullNodePath) pt1
    else
      pt2.children.foldlM (fun pt1 v =>
        if v.2.children.length = 0 then .ok (ptreeAddOrPut pt1 v.1 v.2.data)
        else ptreeMerge fuel pt1 pt2 v.1) pt1

-- Keys that a path can carry. A key without a name, as in a JSON array, may
-- stand on childless nodes only.
inductive Mergeable : Ptree → Prop where
  | node {data : Text} {children : List (Text × Ptree)} (plain : ∀ v ∈ children, Plain v.1)
      (named : ∀ v ∈ children, v.1 = [] → v.2.children = []) (below : ∀ v ∈ children, Mergeable v.2) :
      Mergeable (.node data children)

theorem Mergeable.parts {t : Ptree} (mergeable : Mergeable t) :
    (∀ v ∈ t.children, Plain v.1) ∧ (∀ v ∈ t.children, v.1 = [] → v.2.children = []) ∧
      ∀ v ∈ t.children, Mergeable v.2 := by
  cases mergeable with
  | node plain named below => exact ⟨plain,named,below⟩

-- What the merge writes, in its order: a path and a value for each childless
-- node, every other node being replaced by the first of its name.
def edits : Nat → Ptree → List (List Text × Text)
  | 0,_ => []
  | depth + 1,t => t.children.flatMap fun v =>
      if v.2.children.length = 0 then [([v.1],v.2.data)]
      else (edits depth ((t.find v.1).getD .empty)).map fun e => (v.1 :: e.1,e.2)

-- One write: at the top level an existing key is overwritten, deeper a path
-- never is the name of a child, and a new node is added.
def edited (t : Ptree) (e : List Text × Text) : Ptree :=
  match e.1 with
  | [key] => if (t.find key).isSome then Ptree.assign (reduced key) e.2 t else Ptree.graft [key] (.leaf e.2) t
  | path => Ptree.graft path (.leaf e.2) t

theorem edits_plain {t : Ptree} (mergeable : Mergeable t) (depth : Nat) :
    ∀ e ∈ edits depth t, e.1 ≠ [] ∧ ∀ key ∈ e.1, Plain key := by
  induction depth generalizing t with
  | zero => intro e member; cases member
  | succ depth ih =>
    obtain ⟨plain,_,below⟩ := mergeable.parts
    intro e member
    obtain ⟨v,inChildren,inEdits⟩ := List.mem_flatMap.mp member
    split at inEdits
    · rw [List.mem_singleton.mp inEdits]
      exact ⟨by simp,by simpa using plain v inChildren⟩
    · obtain ⟨first,found⟩ := Ptree.find_of_mem inChildren
      rw [found,Option.getD_some] at inEdits
      obtain ⟨inner,isInner,rfl⟩ := List.mem_map.mp inEdits
      refine ⟨by simp,?_⟩
      intro key inPath
      rcases List.mem_cons.mp inPath with rfl | later
      · exact plain v inChildren
      · exact (ih (below _ (Ptree.find_mem found)) inner isInner).2 key later

def PlainRoot (t : Ptree) : Prop := ∀ v ∈ t.children, Plain v.1

-- No graft and no assignment gives the root a child whose key is not one of
-- the path.
section Keys
variable {allowed : Text → Prop}

theorem keys_modifyFirst {key : Text} (own : allowed key) (f : Ptree → Ptree) {children : List (Text × Ptree)}
    (keys : ∀ v ∈ children, allowed v.1) : ∀ v ∈ Ptree.modifyFirst key f children, allowed v.1 := by
  induction children with
  | nil =>
    intro v member
    rw [List.mem_singleton.mp member]
    exact own
  | cons first rest ih =>
    have later : ∀ v ∈ rest, allowed v.1 := fun v member => keys v (List.mem_cons_of_mem _ member)
    intro v member
    unfold Ptree.modifyFirst at member
    split at member
    · rcases List.mem_cons.mp member with rfl | old
      · exact keys first List.mem_cons_self
      · exact later v old
    · rcases List.mem_cons.mp member with rfl | old
      · exact keys v List.mem_cons_self
      · exact ih later v old

theorem keys_graft {path : List Text} {new t : Ptree} (own : ∀ key ∈ path, allowed key)
    (root : ∀ v ∈ t.children, allowed v.1) : ∀ v ∈ (Ptree.graft path new t).children, allowed v.1 := by
  match path with
  | [] => exact root
  | [key] =>
    intro v member
    rcases List.mem_append.mp member with old | added
    · exact root v old
    · rw [List.mem_singleton.mp added]
      exact own key (by simp)
  | key :: next :: rest => exact keys_modifyFirst (own key (by simp)) _ root

theorem keys_assign {path : List Text} {value : Text} {t : Ptree} (own : ∀ key ∈ path, allowed key)
    (root : ∀ v ∈ t.children, allowed v.1) : ∀ v ∈ (Ptree.assign path value t).children, allowed v.1 := by
  cases path with
  | nil => exact root
  | cons key rest => exact keys_modifyFirst (own key List.mem_cons_self) _ root

end Keys

theorem plainRoot_graft {path : List Text} {new t : Ptree} (plain : ∀ key ∈ path, Plain key) (root : PlainRoot t) :
    PlainRoot (Ptree.graft path new t) := keys_graft plain root

theorem plainRoot_assign {path : List Text} {value : Text} {t : Ptree} (plain : ∀ key ∈ path, Plain key)
    (root : PlainRoot t) : PlainRoot (Ptree.assign path value t) := keys_assign plain root

theorem reduced_key {key : Text} (plain : Plain key) : reduced key = if key = [] then [] else [key] := by
  by_cases blank : key = []
  · subst blank
    rfl
  · rw [if_neg blank]
    have single : dotted [key] = key := by simp [dotted]
    have reads : reduced (dotted [key]) = [key] := reduced_dotted (by simp) (by simpa using plain) (by simpa using blank)
    rwa [single] at reads

theorem plainRoot_edited {t : Ptree} {e : List Text × Text} (plain : ∀ key ∈ e.1, Plain key) (root : PlainRoot t) :
    PlainRoot (edited t e) := by
  unfold edited
  split
  · next key path =>
    have own : Plain key := plain key (by simp [path])
    split
    · refine plainRoot_assign ?_ root
      rw [reduced_key own]
      split
      · intro _ member; cases member
      · simpa using own
    · exact plainRoot_graft (by simpa using own) root
  · exact plainRoot_graft plain root

theorem addOrPut_key {key : Text} (plain : Plain key) (value : Text) (t : Ptree) :
    ptreeAddOrPut t key value = edited t ([key],value) := by
  have single : dotted [key] = key := by simp [dotted]
  have cut : fragments key = [key] := by
    have cuts : fragments (dotted [key]) = [key] := fragments_dotted (by simp) (by simpa using plain)
    rwa [single] at cuts
  unfold ptreeAddOrPut edited
  by_cases present : (t.find key).isSome
  · have there : (Ptree.walk (reduced key) t).isSome = true := by
      rw [reduced_key plain]
      split
      · rfl
      · simpa [Option.isSome_iff_exists] using present
    simp only [present,if_true,Ptree.put,there]
  · simp only [present,Ptree.add,cut]
    rfl

theorem addOrPut_path {path : List Text} (long : 2 ≤ path.length) (plain : ∀ key ∈ path, Plain key) (value : Text)
    {t : Ptree} (root : PlainRoot t) : ptreeAddOrPut t (dotted path) value = edited t (path,value) := by
  match path with
  | [] => simp at long
  | [_] => simp at long
  | first :: second :: rest =>
    have dot : '.' ∈ dotted (first :: second :: rest) := by
      simp [dotted,List.intercalate_cons_cons]
    have missing : t.find (dotted (first :: second :: rest)) = none := by
      cases found : t.find (dotted (first :: second :: rest)) with
      | none => rfl
      | some child => exact absurd dot (root _ (Ptree.find_mem found))
    have cut := fragments_dotted (by simp) plain
    simp [ptreeAddOrPut,missing,edited,Ptree.add,cut]

theorem foldlM_ok {σ ι ε : Type*} {step : σ → ι → Except ε σ} {next : σ → ι → σ} (keeps : σ → Prop)
    {inputs : List ι} (each : ∀ s, ∀ i ∈ inputs, keeps s → step s i = .ok (next s i) ∧ keeps (next s i)) {s : σ}
    (start : keeps s) : inputs.foldlM step s = .ok (inputs.foldl next s) ∧ keeps (inputs.foldl next s) := by
  induction inputs generalizing s with
  | nil => exact ⟨rfl,start⟩
  | cons i rest ih =>
    obtain ⟨stepped,kept⟩ := each s i List.mem_cons_self start
    obtain ⟨ran,held⟩ := ih (fun s j member => each s j (List.mem_cons_of_mem _ member)) kept
    refine ⟨?_,held⟩
    rw [List.foldlM_cons,stepped]
    exact ran

theorem plainRoot_edits (pre : List Text) (plain : ∀ key ∈ pre, Plain key) {es : List (List Text × Text)}
    (paths : ∀ e ∈ es, ∀ key ∈ e.1, Plain key) {t : Ptree} (root : PlainRoot t) :
    PlainRoot (es.foldl (fun t e => edited t (pre ++ e.1,e.2)) t) := by
  induction es generalizing t with
  | nil => exact root
  | cons e rest ih =>
    have path : ∀ key ∈ pre ++ e.1, Plain key := List.forall_mem_append.mpr ⟨plain,paths e List.mem_cons_self⟩
    exact ih (fun other member => paths other (List.mem_cons_of_mem _ member)) (plainRoot_edited path root)

theorem merge_below {pt2 : Ptree} (fuel : Nat) {path : List Text} (nonempty : path ≠ [])
    (plain : ∀ key ∈ path, Plain key) (last : path.getLast? ≠ some []) {sub : Ptree}
    (found : Ptree.walk path pt2 = some sub) (mergeable : Mergeable sub) (enough : sizeOf sub ≤ fuel) {pt1 : Ptree}
    (root : PlainRoot pt1) :
    ptreeMerge fuel pt1 pt2 (dotted path) =
      .ok ((edits fuel sub).foldl (fun t e => edited t (path ++ e.1,e.2)) pt1) := by
  induction fuel generalizing path sub pt1 with
  | zero =>
    obtain ⟨data,children⟩ := sub
    simp only [Ptree.node.sizeOf_spec] at enough
    omega
  | succ fuel ih =>
    obtain ⟨keys,named,below⟩ := mergeable.parts
    have node : dotted path ≠ [] := dotted_ne_nil nonempty last
    have got : pt2.getChild (dotted path) = .ok sub := by
      rw [Ptree.getChild,reduced_dotted nonempty plain last,found]
    rw [ptreeMerge,if_pos node,got]
    simp only [edits,List.foldl_flatMap]
    refine (foldlM_ok PlainRoot ?_ root).1
    intro t v member plainT
    have full : dotted path ++ '.' :: v.1 = dotted (path ++ [v.1]) := (dotted_snoc nonempty v.1).symm
    have plainPath : ∀ key ∈ path ++ [v.1], Plain key :=
      List.forall_mem_append.mpr ⟨plain,List.forall_mem_singleton.mpr (keys v member)⟩
    by_cases childless : v.2.children.length = 0
    · simp only [if_pos childless,full,List.foldl_cons,List.foldl_nil]
      have long : 2 ≤ (path ++ [v.1]).length := by
        have := List.length_pos_iff.mpr nonempty
        simp only [List.length_append,List.length_singleton]
        omega
      rw [addOrPut_path long plainPath _ plainT]
      exact ⟨rfl,plainRoot_edited plainPath plainT⟩
    · obtain ⟨first,foundFirst⟩ := Ptree.find_of_mem member
      have inSub := Ptree.find_mem foundFirst
      have walked : Ptree.walk (path ++ [v.1]) pt2 = some first := by
        rw [Ptree.walk_append,found]
        simp [foundFirst]
      have smaller : sizeOf first < sizeOf sub := Ptree.size_child inSub
      have filled : (path ++ [v.1]).getLast? ≠ some [] := by
        intro blank
        have nameless : v.1 = [] := by simpa using blank
        exact childless (by simp [named v member nameless])
      have ran := ih (by simp) plainPath filled walked (below _ inSub) (by omega) plainT
      simp only [if_neg childless,full,foundFirst,Option.getD_some,List.foldl_map]
      have same : (fun t (e : List Text × Text) => edited t (path ++ [v.1] ++ e.1,e.2)) =
          fun t e => edited t (path ++ v.1 :: e.1,e.2) := by
        funext t e
        simp
      rw [ran,same]
      refine ⟨rfl,?_⟩
      rw [← same]
      exact plainRoot_edits _ plainPath (fun e inEdits => (edits_plain (below _ inSub) fuel e inEdits).2) plainT

theorem merge_edits {pt1 pt2 : Ptree} (root : PlainRoot pt1) (mergeable : Mergeable pt2) {fuel : Nat}
    (enough : sizeOf pt2 ≤ fuel) : ptreeMerge fuel pt1 pt2 [] = .ok ((edits fuel pt2).foldl edited pt1) := by
  cases fuel with
  | zero =>
    obtain ⟨data,children⟩ := pt2
    simp only [Ptree.node.sizeOf_spec] at enough
    omega
  | succ fuel =>
    obtain ⟨keys,named,below⟩ := mergeable.parts
    simp only [ptreeMerge,ne_eq,not_true,if_false,edits,List.foldl_flatMap]
    refine (foldlM_ok PlainRoot ?_ root).1
    intro t v member plainT
    by_cases childless : v.2.children.length = 0
    · simp only [if_pos childless,List.foldl_cons,List.foldl_nil]
      rw [addOrPut_key (keys v member)]
      exact ⟨rfl,plainRoot_edited (by simpa using keys v member) plainT⟩
    · obtain ⟨first,foundFirst⟩ := Ptree.find_of_mem member
      have inSub := Ptree.find_mem foundFirst
      have smaller : sizeOf first < sizeOf pt2 := Ptree.size_child inSub
      have filled : [v.1].getLast? ≠ some [] := by
        intro blank
        have nameless : v.1 = [] := by simpa using blank
        exact childless (by simp [named v member nameless])
      have single : dotted [v.1] = v.1 := by simp [dotted]
      have walked : Ptree.walk [v.1] pt2 = some first := by simpa using foundFirst
      have within : sizeOf first ≤ fuel := by omega
      have ran := merge_below fuel (by simp) (by simpa using keys v member) filled walked (below _ inSub) within plainT
      rw [single] at ran
      simp only [if_neg childless,foundFirst,Option.getD_some,List.foldl_map]
      refine ⟨ran,?_⟩
      exact plainRoot_edits [v.1] (by simpa using keys v member)
        (fun e inEdits => (edits_plain (below _ inSub) fuel e inEdits).2) plainT

end Kisscpp
