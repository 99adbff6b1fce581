import Kisscpp.PropertyTree

namespace PropertyTree
open TextLines
namespace Ptree

def grafted (t : Ptree) (es : List (List Text × Text)) : Ptree := es.foldl (fun t e => graft e.1 (leaf e.2) t) t

-- What of them goes below a child of this name.
def under (key : Text) (es : List (List Text × Text)) : List (List Text × Text) := es.filterMap fun e =>
  match e.1 with
  | first :: next :: rest => if first = key then some (next :: rest,e.2) else none
  | _ => none

def starting (key : Text) (es : List (List Text × Text)) : List (List Text × Text) :=
  es.filter fun e => e.1.head? == some key

def named (key : Text) (t : Ptree) : List Ptree := (t.children.filter fun v => v.1 == key).map Prod.snd

def values (t : Ptree) : List Text := t.children.map fun v => v.2.data

theorem find_named (key : Text) (t : Ptree) : t.find key = (named key t).head? := by
  simp [find,named,List.head?_filter]

@[simp] theorem grafted_nil (t : Ptree) : grafted t [] = t := rfl
@[simp] theorem grafted_cons (t : Ptree) (e : List Text × Text) (es : List (List Text × Text)) :
    grafted t (e :: es) = grafted (graft e.1 (leaf e.2) t) es := rfl
@[simp] theorem under_nil (key : Text) : under key [] = [] := rfl

theorem under_append (key : Text) (earlier later : List (List Text × Text)) :
    under key (earlier ++ later) = under key earlier ++ under key later := List.filterMap_append

theorem under_deep (key : Text) (rest : List Text) (next value : Text) (es : List (List Text × Text)) :
    under key ((key :: next :: rest,value) :: es) = (next :: rest,value) :: under key es := by
  simp [under]

@[simp] theorem under_single (key first value : Text) (es : List (List Text × Text)) :
    under key (([first],value) :: es) = under key es := rfl

theorem under_other {key : Text} {path : List Text} (other : path.head? ≠ some key) (value : Text)
    (es : List (List Text × Text)) : under key ((path,value) :: es) = under key es := by
  match path with
  | [] => rfl
  | [_] => rfl
  | first :: next :: rest =>
    have different : first ≠ key := fun same => other (by rw [same]; rfl)
    simp [under,different]

theorem starting_append (key : Text) (earlier later : List (List Text × Text)) :
    starting key (earlier ++ later) = starting key earlier ++ starting key later := List.filter_append _ _

theorem under_starting (key : Text) (es : List (List Text × Text)) : under key (starting key es) = under key es := by
  induction es with
  | nil => rfl
  | cons e rest ih =>
    obtain ⟨path,value⟩ := e
    by_cases top : path.head? = some key
    · have kept : starting key ((path,value) :: rest) = (path,value) :: starting key rest :=
        List.filter_cons_of_pos (by simpa using top)
      rw [kept,← List.singleton_append,under_append,ih,← under_append,List.singleton_append]
    · have skipped : starting key ((path,value) :: rest) = starting key rest :=
        List.filter_cons_of_neg (by simpa using top)
      rw [skipped,ih,under_other top]

theorem mem_under {key : Text} {es : List (List Text × Text)} {e : List Text × Text} (member : e ∈ under key es) :
    (key :: e.1,e.2) ∈ es := by
  obtain ⟨⟨path,value⟩,isIn,below⟩ := List.mem_filterMap.mp member
  match path with
  | [] => cases below
  | [_] => cases below
  | first :: next :: rest =>
    by_cases same : first = key
    · simp only [if_pos same,Option.some.injEq] at below
      rwa [← below,← same]
    · simp only [if_neg same] at below
      cases below

theorem data_graft (path : List Text) (new t : Ptree) : (graft path new t).data = t.data := by
  match path with
  | [] => rfl
  | [_] => rfl
  | _ :: _ :: _ => rfl

theorem data_grafted (t : Ptree) (es : List (List Text × Text)) : (grafted t es).data = t.data := by
  induction es generalizing t with
  | nil => rfl
  | cons e rest ih => exact (ih _).trans (data_graft e.1 _ t)

theorem named_force_self (key : Text) (f : Ptree → Ptree) (t : Ptree) :
    named key (t.force key f) = f ((named key t).headD empty) :: (named key t).tail := by
  obtain ⟨data,children⟩ := t
  simp only [force,named,children_node]
  induction children with
  | nil => simp [modifyFirst]
  | cons v rest ih =>
    by_cases same : v.1 = key
    · simp [modifyFirst,same]
    · simpa [modifyFirst,same] using ih

theorem named_force_ne {key other : Text} (different : other ≠ key) (f : Ptree → Ptree) (t : Ptree) :
    named other (t.force key f) = named other t := by
  obtain ⟨data,children⟩ := t
  simp only [force,named,children_node]
  induction children with
  | nil => simp [modifyFirst,different.symm]
  | cons v rest ih =>
    by_cases same : v.1 = key
    · simp [modifyFirst,same,different.symm]
    · by_cases here : v.1 = other
      · simpa [modifyFirst,here,different] using ih
      · simpa [modifyFirst,same,here] using ih

theorem named_graft_deep (key next : Text) (rest : List Text) (new t : Ptree) :
    named key (graft (key :: next :: rest) new t) =
      graft (next :: rest) new ((named key t).headD empty) :: (named key t).tail := named_force_self key _ t

theorem named_graft_other {key : Text} {path : List Text} (other : path.head? ≠ some key) (new t : Ptree) :
    named key (graft path new t) = named key t := by
  match path with
  | [] => rfl
  | [first] =>
    have different : first ≠ key := fun same => other (by simp [same])
    simp [graft,named,List.filter_append,different]
  | first :: next :: rest =>
    have different : key ≠ first := fun same => other (by simp [same])
    exact named_force_ne different _ t

theorem named_grafted_cons {key : Text} {es : List (List Text × Text)} (deep : ∀ e ∈ es, e.1 ≠ [key]) {t first : Ptree}
    {others : List Ptree} (here : named key t = first :: others) :
    named key (grafted t es) = grafted first (under key es) :: others := by
  induction es generalizing t first with
  | nil => exact here
  | cons e rest ih =>
    have later : ∀ e ∈ rest, e.1 ≠ [key] := fun e member => deep e (List.mem_cons_of_mem _ member)
    obtain ⟨path,value⟩ := e
    by_cases top : path.head? = some key
    · match path with
      | [_] => exact absurd (by simpa using top) (deep _ List.mem_cons_self)
      | _ :: next :: others =>
        cases top
        have once := named_graft_deep key next others (leaf value) t
        rw [here] at once
        rw [under_deep,grafted_cons]
        exact ih later once
    · have once := named_graft_other top (leaf value) t
      rw [under_other top,grafted_cons]
      exact ih later (once.trans here)

theorem named_grafted_nil {key : Text} {es : List (List Text × Text)} (deep : ∀ e ∈ es, e.1 ≠ [key]) {t : Ptree}
    (none : named key t = []) :
    named key (grafted t es) = if under key es = [] then [] else [grafted empty (under key es)] := by
  induction es generalizing t with
  | nil => simpa using none
  | cons e rest ih =>
    have later : ∀ e ∈ rest, e.1 ≠ [key] := fun e member => deep e (List.mem_cons_of_mem _ member)
    obtain ⟨path,value⟩ := e
    by_cases top : path.head? = some key
    · match path with
      | [_] => exact absurd (by simpa using top) (deep _ List.mem_cons_self)
      | _ :: next :: others =>
        cases top
        have once := named_graft_deep key next others (leaf value) t
        rw [none] at once
        rw [under_deep,if_neg (by simp),grafted_cons]
        exact named_grafted_cons later once
    · have once := named_graft_other top (leaf value) t
      rw [under_other top,grafted_cons]
      exact ih later (once.trans none)

theorem find_graft_head {key : Text} {path : List Text} (top : path.head? = some key) (new : Ptree) {t child : Ptree}
    (found : t.find key = some child) : (graft path new t).find key = some (graft path.tail new child) := by
  match path with
  | [_] =>
    cases top
    rw [find_push,found]
    rfl
  | _ :: next :: rest =>
    cases top
    rw [graft,find_force_self,found]
    rfl

theorem find_graft_other {key : Text} {path : List Text} (other : path.head? ≠ some key) (new t : Ptree) :
    (graft path new t).find key = t.find key := by
  rw [find_named,find_named,named_graft_other other]

theorem find_grafted {key : Text} (es : List (List Text × Text)) {t child : Ptree} (found : t.find key = some child) :
    (grafted t es).find key = some (grafted child (under key es)) := by
  induction es generalizing t child with
  | nil => exact found
  | cons e rest ih =>
    obtain ⟨path,value⟩ := e
    rw [grafted_cons]
    by_cases top : path.head? = some key
    · have once := find_graft_head top (leaf value) found
      rw [ih once]
      match path with
      | [_] => rfl
      | _ :: next :: others =>
        cases top
        rw [under_deep]
        rfl
    · have once := find_graft_other top (leaf value) t
      rw [ih (once.trans found),under_other top]

theorem find_grafted_absent {key : Text} (es : List (List Text × Text)) {t : Ptree} (absent : t.find key = none) :
    (grafted t es).find key = (es.find? fun e => e.1.head? == some key).map fun e =>
      grafted (if e.1.length = 1 then leaf e.2 else empty) (under key es) := by
  induction es generalizing t with
  | nil => exact absent
  | cons e rest ih =>
    obtain ⟨path,value⟩ := e
    rw [grafted_cons]
    by_cases top : path.head? = some key
    · rw [List.find?_cons_of_pos (by simpa using top)]
      match path with
      | [_] =>
        cases top
        have once : (graft [key] (leaf value) t).find key = some (leaf value) := by rw [find_push,absent]; simp
        rw [find_grafted rest once,under_single]
        rfl
      | _ :: next :: others =>
        cases top
        have once : (graft (key :: next :: others) (leaf value) t).find key =
            some (graft (next :: others) (leaf value) empty) := by
          rw [graft,find_force_self,absent]
          rfl
        rw [find_grafted rest once,under_deep]
        rfl
    · have once := find_graft_other top (leaf value) t
      rw [List.find?_cons_of_neg (by simpa using top),ih (once.trans absent),
        under_other top]

theorem find_grafted_congr {key : Text} {t u : Ptree} (same : t.find key = u.find key) {es fs : List (List Text × Text)}
    (alike : starting key es = starting key fs) : (grafted t es).find key = (grafted u fs).find key := by
  have below : under key es = under key fs := by rw [← under_starting,alike,under_starting]
  cases present : t.find key with
  | some child => rw [find_grafted es present,find_grafted fs (same.symm.trans present),below]
  | none =>
    have first : (es.find? fun e => e.1.head? == some key) = fs.find? fun e => e.1.head? == some key := by
      rw [← List.head?_filter,← List.head?_filter]
      exact congrArg List.head? alike
    rw [find_grafted_absent es present,find_grafted_absent fs (same.symm.trans present),below,first]

theorem children_pushed (vs : List (Text × Text)) (t : Ptree) :
    (grafted t (vs.map fun v => ([v.1],v.2))).children = t.children ++ vs.map fun v => (v.1,leaf v.2) := by
  induction vs generalizing t with
  | nil => simp
  | cons v rest ih =>
    rw [List.map_cons,grafted_cons,ih]
    simp [graft]

theorem childless_leaf {t : Ptree} (childless : t.children = []) : t = leaf t.data := by
  obtain ⟨data,_⟩ := t
  cases childless
  rfl

theorem find_push_none (key other : Text) (new t : Ptree) :
    (graft [key] new t).find other = none ↔ t.find other = none ∧ other ≠ key := by
  rw [find_push]
  by_cases same : other = key
  · simp [same]
  · simp [same]

theorem find_force_none (key other : Text) (f : Ptree → Ptree) (t : Ptree) :
    (t.force key f).find other = none ↔ t.find other = none ∧ other ≠ key := by
  by_cases same : other = key
  · subst same
    simp [find_force_self]
  · simp [find_force_ne same,same]

theorem values_modifyFirst {key : Text} {f : Ptree → Ptree} (keeps : ∀ t, (f t).data = t.data)
    (children : List (Text × Ptree)) : (modifyFirst key f children).map (fun v => v.2.data) =
      children.map (fun v => v.2.data) ++ if (children.find? fun v => v.1 == key).isSome then [] else [[]] := by
  induction children with
  | nil => simp [modifyFirst,keeps,empty]
  | cons v rest ih =>
    by_cases same : v.1 = key
    · simp [modifyFirst,same,keeps]
    · simp only [modifyFirst,if_neg same,List.map_cons,ih,List.cons_append]
      rw [List.find?_cons_of_neg (by simpa using same)]

theorem values_graft_deep (key next : Text) (rest : List Text) (new t : Ptree) :
    (graft (key :: next :: rest) new t).values = t.values ++ if (t.find key).isSome then [] else [[]] := by
  have present : (t.find key).isSome = (t.children.find? fun v => v.1 == key).isSome := Option.isSome_map
  rw [present]
  exact values_modifyFirst (data_graft (next :: rest) new) t.children

def Made (es : List (List Text × Text)) (t : Ptree) : Prop :=
  ∃ key, t.find key = none ∧ ∃ e, es.find? (fun e => e.1.head? == some key) = some e ∧ e.1.length ≠ 1

theorem made_single (key value : Text) (rest : List (List Text × Text)) (t : Ptree) :
    Made (([key],value) :: rest) t ↔ Made rest (graft [key] (leaf value) t) := by
  constructor
  · intro made
    obtain ⟨other,absent,e,first,long⟩ := made
    have different : other ≠ key := by
      intro same
      subst same
      rw [List.find?_cons_of_pos (by simp)] at first
      cases first
      exact long rfl
    rw [List.find?_cons_of_neg (by simpa using different.symm)] at first
    exact ⟨other,(find_push_none key other _ t).mpr ⟨absent,different⟩,e,first,long⟩
  · intro made
    obtain ⟨other,absent,e,first,long⟩ := made
    obtain ⟨before,different⟩ := (find_push_none key other _ t).mp absent
    refine ⟨other,before,e,?_,long⟩
    rw [List.find?_cons_of_neg (by simpa using different.symm)]
    exact first

theorem made_deep (key next : Text) (others : List Text) (value : Text) (rest : List (List Text × Text)) (t : Ptree) :
    Made ((key :: next :: others,value) :: rest) t ↔
      t.find key = none ∨ Made rest (graft (key :: next :: others) (leaf value) t) := by
  constructor
  · intro made
    obtain ⟨other,absent,e,first,long⟩ := made
    by_cases same : other = key
    · exact .inl (same ▸ absent)
    · rw [List.find?_cons_of_neg (by simpa using Ne.symm same)] at first
      exact .inr ⟨other,(find_force_none key other _ t).mpr ⟨absent,same⟩,e,first,long⟩
  · intro made
    rcases made with absent | made
    · exact ⟨key,absent,_,List.find?_cons_of_pos (by simp),by simp⟩
    · obtain ⟨other,absent,e,first,long⟩ := made
      obtain ⟨before,different⟩ := (find_force_none key other _ t).mp absent
      refine ⟨other,before,e,?_,long⟩
      rw [List.find?_cons_of_neg (by simpa using different.symm)]
      exact first

theorem mem_values_grafted {es : List (List Text × Text)} (long : ∀ e ∈ es, e.1 ≠ []) {t : Ptree} {value : Text} :
    value ∈ (grafted t es).values ↔ value ∈ t.values ∨ (∃ key, ([key],value) ∈ es) ∨ value = [] ∧ Made es t := by
  induction es generalizing t with
  | nil => simp [Made]
  | cons e rest ih =>
    obtain ⟨path,new⟩ := e
    rw [grafted_cons,ih fun e member => long e (List.mem_cons_of_mem _ member)]
    match path with
    | [] => exact absurd rfl (long _ List.mem_cons_self)
    | [key] =>
      have pushed : value ∈ (graft [key] (leaf new) t).values ↔ value ∈ t.values ∨ value = new := by
        simp [graft,values,leaf]
      have entries : (∃ name, ([name],value) ∈ ([key],new) :: rest) ↔ value = new ∨ ∃ name, ([name],value) ∈ rest := by
        simp [exists_or]
      rw [pushed,entries,made_single,or_assoc,or_assoc]
    | key :: next :: others =>
      have grown : value ∈ (graft (key :: next :: others) (leaf new) t).values ↔
          value ∈ t.values ∨ value = [] ∧ t.find key = none := by
        rw [values_graft_deep]
        cases t.find key with
        | none => simp
        | some child => simp
      have entries : (∃ name, ([name],value) ∈ (key :: next :: others,new) :: rest) ↔ ∃ name, ([name],value) ∈ rest := by
        simp
      rw [grown,entries,made_deep,or_assoc,and_or_left]
      exact or_congr_right or_left_comm

theorem children_graft_congr {t u : Ptree} (same : t.children = u.children) (path : List Text) (new : Ptree) :
    (graft path new t).children = (graft path new u).children := by
  match path with
  | [] => exact same
  | [_] => simp [graft,same]
  | _ :: _ :: _ => simp [graft,force,same]

theorem children_grafted_congr {t u : Ptree} (same : t.children = u.children) (es : List (List Text × Text)) :
    (grafted t es).children = (grafted u es).children := by
  induction es generalizing t u with
  | nil => exact same
  | cons e rest ih => exact ih (children_graft_congr same e.1 _)

theorem size_modifyFirst (key : Text) {f : Ptree → Ptree} (grows : ∀ t, sizeOf t < sizeOf (f t))
    (children : List (Text × Ptree)) : sizeOf children < sizeOf (modifyFirst key f children) := by
  induction children with
  | nil =>
    simp only [modifyFirst,List.nil.sizeOf_spec,List.cons.sizeOf_spec,Prod.mk.sizeOf_spec]
    omega
  | cons v rest ih =>
    unfold modifyFirst
    split
    · have larger := grows v.2
      obtain ⟨name,child⟩ := v
      simp only [List.cons.sizeOf_spec,Prod.mk.sizeOf_spec] at larger ⊢
      omega
    · simp only [List.cons.sizeOf_spec]
      omega

theorem size_graft {path : List Text} (long : path ≠ []) (new t : Ptree) : sizeOf t < sizeOf (graft path new t) := by
  induction path generalizing t with
  | nil => exact absurd rfl long
  | cons key rest ih =>
    obtain ⟨data,children⟩ := t
    cases rest with
    | nil =>
      have longer : sizeOf children < sizeOf (children ++ [(key,new)]) := by
        induction children with
        | nil => simp only [List.nil_append,List.nil.sizeOf_spec,List.cons.sizeOf_spec]; omega
        | cons v others ih => simp only [List.cons_append,List.cons.sizeOf_spec]; omega
      simp only [graft,data_node,children_node,node.sizeOf_spec]
      omega
    | cons next others =>
      have larger := size_modifyFirst key (fun t => ih (by simp) t) children
      simp only [graft,force,data_node,children_node,node.sizeOf_spec]
      omega

end Ptree
end PropertyTree
