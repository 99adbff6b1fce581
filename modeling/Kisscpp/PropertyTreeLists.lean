import Kisscpp.PropertyTreeGrafts
import Kisscpp.PropertyTreePuts

namespace PropertyTree
open TextLines
namespace Ptree

-- Children of one name that are put in one after the other, as a loop over
-- add_child does.
def grafts (path : List Text) (news : List Ptree) (t : Ptree) : Ptree := news.foldl (fun t new => graft path new t) t

theorem grafts_single (key : Text) (news : List Ptree) (t : Ptree) :
    grafts [key] news t = .node t.data (t.children ++ news.map fun new => (key,new)) := by
  induction news generalizing t with
  | nil =>
    obtain ⟨data,children⟩ := t
    simp [grafts]
  | cons new rest ih =>
    change grafts [key] rest (graft [key] new t) = _
    rw [ih]
    simp [graft]

theorem modifyFirst_modifyFirst (key : Text) (f g : Ptree → Ptree) (children : List (Text × Ptree)) :
    modifyFirst key g (modifyFirst key f children) = modifyFirst key (g ∘ f) children := by
  induction children with
  | nil => simp [modifyFirst]
  | cons v rest ih =>
    by_cases here : v.1 = key
    · simp [modifyFirst,here]
    · simp [modifyFirst,here,ih]

theorem modifyFirst_last {key : Text} (f : Ptree → Ptree) {children : List (Text × Ptree)}
    (absent : key ∉ children.map Prod.fst) (rest : List (Text × Ptree)) :
    modifyFirst key f (children ++ rest) = children ++ modifyFirst key f rest := by
  induction children with
  | nil => rfl
  | cons v others ih =>
    rw [List.map_cons,List.mem_cons,not_or] at absent
    rw [List.cons_append,modifyFirst,if_neg (Ne.symm absent.1),ih absent.2,List.cons_append]

theorem force_force (key : Text) (f g : Ptree → Ptree) (t : Ptree) :
    (t.force key f).force key g = t.force key (g ∘ f) := by
  simp [force,modifyFirst_modifyFirst]

theorem grafts_deep (key next : Text) (others : List Text) (new : Ptree) (rest : List Ptree) (t : Ptree) :
    grafts (key :: next :: others) (new :: rest) t = t.force key (grafts (next :: others) (new :: rest)) := by
  induction rest generalizing t new with
  | nil => rfl
  | cons second rest ih =>
    change grafts (key :: next :: others) (second :: rest) (t.force key (graft (next :: others) new)) = _
    rw [ih,force_force]
    rfl

-- A tree with one more child at the end, left out for as long as it is empty.
def extended (key : Text) (below : List (Text × Ptree)) (t : Ptree) : Ptree :=
  if below = [] then t else .node t.data (t.children ++ [(key,.node [] below)])

section
variable {key : Text} {t : Ptree} (absent : key ∉ t.children.map Prod.fst)
include absent

theorem force_extended (f : Ptree → Ptree) (below : List (Text × Ptree)) :
    (extended key below t).force key f = .node t.data (t.children ++ [(key,f (.node [] below))]) := by
  have last := modifyFirst_last f absent
  unfold extended
  split
  next empty =>
    rw [empty,force]
    exact congrArg (node t.data) ((congrArg (modifyFirst key f) (List.append_nil _)).symm.trans (last []))
  next => simp [force,last,modifyFirst]

theorem extended_grafts (second third : Text) (news : List Ptree) :
    grafts [key,second,third] news t =
      extended key (if news = [] then [] else [(second,.node [] (news.map fun new => (third,new)))]) t := by
  cases news with
  | nil => rfl
  | cons new rest =>
    have start : t = extended key [] t := rfl
    rw [grafts_deep,start,force_extended absent]
    have below : grafts [second,third] (new :: rest) (.node [] []) =
        .node [] [(second,.node [] ((new :: rest).map fun new => (third,new)))] := by
      rw [grafts_deep,force]
      simp [modifyFirst,grafts_single,empty]
    rw [below]
    simp [extended]

theorem find_absent : t.find key = none := by
  rw [find,Option.map_eq_none_iff,List.find?_eq_none]
  intro v member same
  exact absent (List.mem_map.mpr ⟨v,member,by simpa using same⟩)

theorem find_extended (below : List (Text × Ptree)) :
    (extended key below t).find key = if below = [] then none else some (.node [] below) := by
  have nothing := find_absent absent
  unfold extended
  split
  · exact nothing
  · have other : (t.children.find? fun v => v.1 == key) = none := Option.map_eq_none_iff.mp nothing
    simp [find,List.find?_append,other]

theorem extended_put {path name : Text} (cut : reduced path = [key,name]) (whole : fragments path = [key,name])
    {below : List (Text × Ptree)} (new : name ∉ below.map Prod.fst) (value : Text) :
    (extended key below t).put path value = extended key (below ++ [(name,.leaf value)]) t := by
  have unknown : walk [key,name] (extended key below t) = none := by
    rw [walk_cons,find_extended absent]
    split
    · rfl
    · have absent : (node [] below).find name = none := find_absent new
      simpa using absent
  have made : graft [key,name] (.leaf value) (extended key below t) =
      (extended key below t).force key (graft [name] (.leaf value)) := rfl
  have longer : below ++ [(name,leaf value)] ≠ [] := by simp
  rw [put,cut,unknown,add,whole,made,force_extended absent]
  exact (if_neg longer).symm

end

def listed (path : List Text) (key : Text) (t : Ptree) : List Ptree :=
  match walk path t with
  | some found => named key found
  | none => []

theorem named_pairs (key : Text) (news : List Ptree) (data : Text) :
    named key (.node data (news.map fun new => (key,new))) = news := by
  induction news with
  | nil => rfl
  | cons new rest ih => simpa [named] using ih

theorem writable_extended {key : Text} {below : List (Text × Ptree)} {t : Ptree} (writes : writable t = true)
    (root : t.data = []) (each : ∀ v ∈ below, writable v.2 = true) : writable (extended key below t) = true := by
  have inner : writable (.node [] below) = true := writable_node.mpr ⟨.inl rfl,each⟩
  unfold extended
  split
  · exact writes
  · refine writable_node.mpr ⟨.inl root,?_⟩
    intro v member
    rcases List.mem_append.mp member with old | new
    · exact (writable_node.mp writes).2 v old
    · rw [List.mem_singleton.mp new]
      exact inner

end Ptree
end PropertyTree
