import Kisscpp.ConfigMerge
import Kisscpp.PropertyTreeGrafts

namespace Kisscpp
open TextLines PropertyTree

def copies (count : Nat) (es : List (List Text × Text)) : List (List Text × Text) := (List.replicate count es).flatten

@[simp] theorem copies_zero (es : List (List Text × Text)) : copies 0 es = [] := rfl
@[simp] theorem copies_nil (count : Nat) : copies count [] = [] := by simp [copies]

theorem copies_succ (count : Nat) (es : List (List Text × Text)) : copies (count + 1) es = es ++ copies count es := by
  simp [copies,List.replicate_succ]

theorem copies_add (first second : Nat) (es : List (List Text × Text)) :
    copies (first + second) es = copies first es ++ copies second es := by
  rw [copies,List.replicate_add,List.flatten_append,copies,copies]

theorem copies_copies (outer inner : Nat) (es : List (List Text × Text)) :
    copies outer (copies inner es) = copies (outer * inner) es := by
  induction outer with
  | zero => simp
  | succ outer ih => rw [copies_succ,ih,← copies_add,Nat.succ_mul,Nat.add_comm]

theorem under_copies (key : Text) (count : Nat) (es : List (List Text × Text)) :
    Ptree.under key (copies count es) = copies count (Ptree.under key es) := by
  induction count with
  | zero => rfl
  | succ count ih => rw [copies_succ,Ptree.under_append,ih,copies_succ]

theorem starting_copies (key : Text) (count : Nat) (es : List (List Text × Text)) :
    Ptree.starting key (copies count es) = copies count (Ptree.starting key es) := by
  induction count with
  | zero => rfl
  | succ count ih => rw [copies_succ,Ptree.starting_append,ih,copies_succ]

theorem mem_copies {count : Nat} {es : List (List Text × Text)} {e : List Text × Text} :
    e ∈ copies count es ↔ 0 < count ∧ e ∈ es := by
  simp [copies,Nat.pos_iff_ne_zero]

theorem copies_eq_nil {count : Nat} {es : List (List Text × Text)} : copies count es = [] ↔ count = 0 ∨ es = [] := by
  cases count with
  | zero => simp
  | succ count =>
    rw [copies_succ]
    constructor
    · intro none
      exact .inr (List.append_eq_nil_iff.mp none).1
    · intro none
      rcases none with zero | blank
      · cases zero
      · subst blank
        simp

theorem find_copies {count : Nat} (some : 0 < count) (p : List Text × Text → Bool) (es : List (List Text × Text)) :
    (copies count es).find? p = es.find? p := by
  induction count with
  | zero => cases some
  | succ count ih =>
    rw [copies_succ,List.find?_append]
    cases found : es.find? p with
    | some e => rfl
    | none =>
      cases count with
      | zero => rfl
      | succ count => rw [ih (Nat.succ_pos _),found]; rfl

theorem edits_nonempty (depth : Nat) (t : Ptree) : ∀ e ∈ edits depth t, e.1 ≠ [] := by
  cases depth with
  | zero => intro e member; cases member
  | succ depth =>
    intro e member
    obtain ⟨v,_,inEdits⟩ := List.mem_flatMap.mp member
    split at inEdits
    · rw [List.mem_singleton.mp inEdits]
      simp
    · obtain ⟨inner,_,rfl⟩ := List.mem_map.mp inEdits
      simp

theorem edits_childless {depth : Nat} {t : Ptree} (childless : t.children = []) : edits depth t = [] := by
  cases depth with
  | zero => rfl
  | succ depth => simp [edits,childless]

-- How often the merge walks the first child of this name.
def forks (key : Text) (children : List (Text × Ptree)) : Nat :=
  children.countP fun v => v.1 == key && v.2.children.length != 0

def listEdits (inner : Text → List (List Text × Text)) (children : List (Text × Ptree)) : List (List Text × Text) :=
  children.flatMap fun v => if v.2.children.length = 0 then [([v.1],v.2.data)]
    else (inner v.1).map fun e => (v.1 :: e.1,e.2)

theorem edits_eq (depth : Nat) (t : Ptree) :
    edits (depth + 1) t = listEdits (fun key => edits depth ((t.find key).getD .empty)) t.children := rfl

theorem under_deeper (key : Text) {es : List (List Text × Text)} (paths : ∀ e ∈ es, e.1 ≠ []) :
    Ptree.under key (es.map fun e => (key :: e.1,e.2)) = es := by
  induction es with
  | nil => rfl
  | cons e rest ih =>
    obtain ⟨path,value⟩ := e
    cases path with
    | nil => exact absurd rfl (paths _ List.mem_cons_self)
    | cons next further =>
      rw [List.map_cons,Ptree.under_deep,ih fun e member => paths e (List.mem_cons_of_mem _ member)]

theorem under_elsewhere {key other : Text} (different : other ≠ key) (es : List (List Text × Text)) :
    Ptree.under key (es.map fun e => (other :: e.1,e.2)) = [] := by
  induction es with
  | nil => rfl
  | cons e rest ih => rw [List.map_cons,Ptree.under_other (by simpa using different),ih]

theorem under_listEdits (key : Text) {inner : Text → List (List Text × Text)} (paths : ∀ e ∈ inner key, e.1 ≠ [])
    (children : List (Text × Ptree)) :
    Ptree.under key (listEdits inner children) = copies (forks key children) (inner key) := by
  induction children with
  | nil => rfl
  | cons v rest ih =>
    simp only [listEdits,List.flatMap_cons,Ptree.under_append] at ih ⊢
    have count : forks key (v :: rest) = forks key rest + if v.1 == key && v.2.children.length != 0 then 1 else 0 :=
      List.countP_cons
    rw [ih,count]
    by_cases childless : v.2.children.length = 0
    · simp [childless]
    · by_cases same : v.1 = key
      · subst same
        simp only [if_neg childless,under_deeper v.1 paths]
        rw [← copies_succ]
        simp [childless]
      · simp only [if_neg childless,under_elsewhere same]
        simp [same]

theorem under_edits (key : Text) (depth : Nat) (t : Ptree) :
    Ptree.under key (edits (depth + 1) t) = copies (forks key t.children) (edits depth ((t.find key).getD .empty)) := by
  rw [edits_eq,under_listEdits key (edits_nonempty depth _)]

theorem forks_pos {key : Text} {t child : Ptree} (found : t.find key = some child) (parent : child.children ≠ []) :
    0 < forks key t.children := by
  rw [forks,List.countP_pos_iff]
  exact ⟨_,Ptree.find_mem found,by simpa using parent⟩

theorem first_listEdits (key : Text) (inner : Text → List (List Text × Text)) (children : List (Text × Ptree)) :
    match children.find? fun v => v.1 == key with
    | none => (listEdits inner children).find? (fun e => e.1.head? == some key) = none
    | some v => if v.2.children = [] then
          (listEdits inner children).find? (fun e => e.1.head? == some key) = some ([key],v.2.data)
        else ∀ e others, inner key = e :: others →
          (listEdits inner children).find? (fun e => e.1.head? == some key) = some (key :: e.1,e.2) := by
  induction children with
  | nil => rfl
  | cons v rest ih =>
    by_cases same : v.1 = key
    · rw [List.find?_cons_of_pos (by simpa using same)]
      by_cases childless : v.2.children = []
      · simp [listEdits,childless,same]
      · simp only [childless,if_false]
        intro e others starts
        simp [listEdits,childless,same,starts]
    · rw [List.find?_cons_of_neg (by simpa using same)]
      have skipped : (listEdits inner (v :: rest)).find? (fun e => e.1.head? == some key) =
          (listEdits inner rest).find? fun e => e.1.head? == some key := by
        simp only [listEdits,List.flatMap_cons,List.find?_append]
        split
        · simp [same]
        · have none : ((inner v.1).map fun e => (v.1 :: e.1,e.2)).find? (fun e => e.1.head? == some key) = none := by
            rw [List.find?_map]
            simp [Function.comp_def,same]
          rw [none]
          rfl
      simpa only [skipped] using ih

theorem first_absent {key : Text} {t : Ptree} (absent : t.find key = none) (depth : Nat) :
    (edits (depth + 1) t).find? (fun e => e.1.head? == some key) = none := by
  have first := first_listEdits key (fun key => edits depth ((t.find key).getD .empty)) t.children
  rw [Option.map_eq_none_iff.mp absent] at first
  exact first

theorem first_leaf {key value : Text} {t : Ptree} (found : t.find key = some (.leaf value)) (depth : Nat) :
    (edits (depth + 1) t).find? (fun e => e.1.head? == some key) = some ([key],value) := by
  have first := first_listEdits key (fun key => edits depth ((t.find key).getD .empty)) t.children
  obtain ⟨v,finds,same⟩ := Option.map_eq_some_iff.mp found
  rw [finds] at first
  simp only [same,Ptree.leaf,Ptree.children_node,if_true,Ptree.data_node] at first
  exact first

theorem first_parent {key : Text} {t child : Ptree} (found : t.find key = some child) (parent : child.children ≠ [])
    {depth : Nat} {e : List Text × Text} {others : List (List Text × Text)} (starts : edits depth child = e :: others) :
    (edits (depth + 1) t).find? (fun e => e.1.head? == some key) = some (key :: e.1,e.2) := by
  have first := first_listEdits key (fun key => edits depth ((t.find key).getD .empty)) t.children
  obtain ⟨v,finds,same⟩ := Option.map_eq_some_iff.mp found
  rw [finds] at first
  simp only [same,parent,if_false,found,Option.getD_some] at first
  exact first e others starts

theorem edits_values {t : Ptree} (values : ∀ v ∈ t.children, v.2.children = []) (depth : Nat) :
    edits (depth + 1) t = (t.children.map fun v => (v.1,v.2.data)).map fun v => ([v.1],v.2) := by
  rw [edits_eq]
  generalize (fun key => edits depth ((t.find key).getD .empty)) = inner
  obtain ⟨data,children⟩ := t
  simp only [Ptree.children_node] at values ⊢
  induction children with
  | nil => rfl
  | cons v rest ih =>
    have own := values v List.mem_cons_self
    have later := ih fun w member => values w (List.mem_cons_of_mem _ member)
    simp only [listEdits,List.flatMap_cons,List.map_cons] at later ⊢
    rw [later]
    simp [own]

end Kisscpp
