import Mathlib.Data.List.Nodup
import Kisscpp.TextLines

namespace PropertyTree
open TextLines

-- A tree of data with named children, in which names may repeat.
inductive Ptree where
  | node (data : Text) (children : List (Text × Ptree))

structure BadPath where
  path : Text
  deriving DecidableEq

def BadPath.what (e : BadPath) : Text := "No such node (".toList ++ e.path ++ ")".toList

namespace Ptree

def data : Ptree → Text
  | .node data _ => data

def children : Ptree → List (Text × Ptree)
  | .node _ children => children

@[simp] theorem data_node (data : Text) (children : List (Text × Ptree)) : (node data children).data = data := rfl
@[simp] theorem children_node (data : Text) (children : List (Text × Ptree)) :
    (node data children).children = children := rfl

def leaf (value : Text) : Ptree := .node value []
def empty : Ptree := .node [] []

def find (key : Text) (t : Ptree) : Option Ptree := (t.children.find? fun v => v.1 == key).map Prod.snd

-- operator[] on the way down: the first child of that name, or a new one at
-- the end.
def modifyFirst (key : Text) (f : Ptree → Ptree) : List (Text × Ptree) → List (Text × Ptree)
  | [] => [(key,f empty)]
  | v :: rest => if v.1 = key then (v.1,f v.2) :: rest else v :: modifyFirst key f rest

def force (key : Text) (f : Ptree → Ptree) (t : Ptree) : Ptree := .node t.data (modifyFirst key f t.children)

def walk : List Text → Ptree → Option Ptree
  | [],t => some t
  | key :: rest,t => (t.find key).bind (walk rest)

def graft : List Text → Ptree → Ptree → Ptree
  | [],_,t => t
  | [key],new,t => .node t.data (t.children ++ [(key,new)])
  | key :: next :: rest,new,t => t.force key (graft (next :: rest) new)

def assign : List Text → Text → Ptree → Ptree
  | [],value,t => .node value t.children
  | key :: rest,value,t => t.force key (assign rest value)

end Ptree

-- A path is cut at every dot; a lookup stops where nothing is left to cut.
def fragments (path : Text) : List Text := path.splitOn '.'

def reduced (path : Text) : List Text :=
  if (fragments path).getLast? = some [] then (fragments path).dropLast else fragments path

namespace Ptree

def getChild (path : Text) (t : Ptree) : Except BadPath Ptree :=
  match walk (reduced path) t with
  | some found => .ok found
  | none => .error ⟨path⟩

def get (path : Text) (t : Ptree) : Except BadPath Text := (t.getChild path).map data

def getD (path value : Text) (t : Ptree) : Text :=
  match walk (reduced path) t with
  | some found => found.data
  | none => value

def addChild (path : Text) (new t : Ptree) : Ptree := graft (fragments path) new t

def add (path value : Text) (t : Ptree) : Ptree := graft (fragments path) (leaf value) t

def put (path value : Text) (t : Ptree) : Ptree :=
  if (walk (reduced path) t).isSome then assign (reduced path) value t else t.add path value

end Ptree

def dotted (keys : List Text) : Text := ['.'].intercalate keys

def Plain (key : Text) : Prop := '.' ∉ key

instance (key : Text) : Decidable (Plain key) := inferInstanceAs (Decidable ('.' ∉ key))

theorem fragments_ne_nil (path : Text) : fragments path ≠ [] := by
  rw [fragments,List.splitOn_eq_splitOnP]
  exact List.splitOnP_ne_nil _ _

theorem fragments_join (first second : Text) : fragments (first ++ '.' :: second) = fragments first ++ fragments second := by
  simp only [fragments,List.splitOn_eq_splitOnP]
  exact List.splitOnP_append_cons first second (by simp)

theorem fragments_single {path : Text} (plain : Plain path) : fragments path = [path] := by
  rw [fragments,List.splitOn_eq_splitOnP]
  apply List.splitOnP_eq_singleton
  intro c member
  have different : c ≠ '.' := fun dot => plain (dot ▸ member)
  simpa using different

theorem fragments_plain (path : Text) : ∀ key ∈ fragments path, Plain key := by
  induction path with
  | nil =>
    intro key member
    rw [List.mem_singleton.mp member]
    simp [Plain]
  | cons c rest ih =>
    by_cases dot : c = '.'
    · subst dot
      have cut : fragments ('.' :: rest) = [] :: fragments rest := fragments_join [] rest
      rw [cut]
      intro key member
      rcases List.mem_cons.mp member with rfl | later
      · simp [Plain]
      · exact ih key later
    · have cut : fragments (c :: rest) = (fragments rest).modifyHead (c :: ·) := by
        simp only [fragments,List.splitOn_eq_splitOnP,List.splitOnP_cons_eq_if_modifyHead]
        rw [if_neg (by simpa using dot)]
      rw [cut]
      cases parts : fragments rest with
      | nil => exact absurd parts (fragments_ne_nil rest)
      | cons first others =>
        rw [parts] at ih
        intro key member
        rcases List.mem_cons.mp member with rfl | later
        · intro inside
          rcases List.mem_cons.mp inside with same | deeper
          · exact dot same.symm
          · exact ih first List.mem_cons_self deeper
        · exact ih key (List.mem_cons_of_mem _ later)

theorem fragments_long {path : Text} (dotted : ¬ Plain path) : 2 ≤ (fragments path).length := by
  obtain ⟨front,behind,rfl⟩ := List.append_of_mem (not_not.mp dotted)
  have first := List.length_pos_iff.mpr (fragments_ne_nil front)
  have second := List.length_pos_iff.mpr (fragments_ne_nil behind)
  rw [fragments_join,List.length_append]
  omega

theorem fragments_dotted {keys : List Text} (nonempty : keys ≠ []) (plain : ∀ key ∈ keys, Plain key) :
    fragments (dotted keys) = keys := List.splitOn_intercalate '.' plain nonempty

theorem reduced_dotted {keys : List Text} (nonempty : keys ≠ []) (plain : ∀ key ∈ keys, Plain key)
    (last : keys.getLast? ≠ some []) : reduced (dotted keys) = keys := by
  rw [reduced,fragments_dotted nonempty plain,if_neg last]

theorem fragments_cut {path : Text} (blank : (fragments path).getLast? = some []) :
    fragments path = reduced path ++ [[]] := by
  rw [reduced,if_pos blank]
  exact (List.dropLast_append_getLast? _ blank).symm

theorem dotted_fragments (path : Text) : dotted (fragments path) = path := List.intercalate_splitOn '.'

theorem fragments_injective {first second : Text} (same : fragments first = fragments second) : first = second := by
  have joined := congrArg dotted same
  rwa [dotted_fragments,dotted_fragments] at joined

theorem getLast_join (front key : Text) : (fragments (front ++ '.' :: key)).getLast? = (fragments key).getLast? := by
  rw [fragments_join]
  exact List.getLast?_append_of_ne_nil _ (fragments_ne_nil key)

theorem reduced_below (first second : Text) : reduced (first ++ '.' :: second) = fragments first ++ reduced second := by
  rw [reduced,reduced,getLast_join]
  split
  · rw [fragments_join,List.dropLast_append_of_ne_nil (fragments_ne_nil second)]
  · exact fragments_join first second

theorem reduced_nil {path : Text} (none : reduced path = []) : path = [] := by
  unfold reduced at none
  split at none
  · next blank =>
    have single := fragments_cut blank
    rw [reduced,if_pos blank,none] at single
    exact fragments_injective (single.trans (@fragments_single [] (by simp [Plain])).symm)
  · exact absurd none (fragments_ne_nil path)

theorem dotted_snoc {keys : List Text} (nonempty : keys ≠ []) (key : Text) :
    dotted (keys ++ [key]) = dotted keys ++ '.' :: key := by
  induction keys with
  | nil => exact absurd rfl nonempty
  | cons first rest ih =>
    cases rest with
    | nil => simp [dotted,List.intercalate_cons_cons]
    | cons second others =>
      have later := ih (by simp)
      simp only [dotted,List.cons_append,List.intercalate_cons_cons] at later ⊢
      rw [later]
      simp

theorem dotted_ne_nil {keys : List Text} (nonempty : keys ≠ []) (last : keys.getLast? ≠ some []) : dotted keys ≠ [] := by
  rcases List.eq_nil_or_concat keys with rfl | ⟨front,key,rfl⟩
  · exact absurd rfl nonempty
  · rw [List.concat_eq_append] at last ⊢
    have filled : key ≠ [] := fun blank => last (by simp [blank])
    cases front with
    | nil => simpa [dotted] using filled
    | cons => rw [dotted_snoc (by simp)]; simp

namespace Ptree

@[simp] theorem find_leaf (key value : Text) : (leaf value).find key = none := rfl
@[simp] theorem find_empty (key : Text) : empty.find key = none := rfl
@[simp] theorem walk_nil (t : Ptree) : walk [] t = some t := rfl
@[simp] theorem walk_cons (key : Text) (rest : List Text) (t : Ptree) :
    walk (key :: rest) t = (t.find key).bind (walk rest) := rfl
@[simp] theorem bind_walk_nil (found : Option Ptree) : found.bind (walk []) = found := by cases found <;> rfl
@[simp] theorem data_force (key : Text) (f : Ptree → Ptree) (t : Ptree) : (t.force key f).data = t.data := rfl

theorem walk_append (earlier later : List Text) (t : Ptree) :
    walk (earlier ++ later) t = (walk earlier t).bind (walk later) := by
  induction earlier generalizing t with
  | nil => rfl
  | cons key rest ih =>
    simp only [List.cons_append,walk_cons,Option.bind_assoc]
    congr 1
    funext child
    exact ih child

theorem walk_below {outer : Text} {t middle : Ptree} (found : t.find outer = some middle) (inner : Text) :
    walk [outer,inner] t = middle.find inner := by
  rw [walk_cons,found,Option.bind_some,walk_cons,bind_walk_nil]

theorem find_force_self (key : Text) (f : Ptree → Ptree) (t : Ptree) :
    (t.force key f).find key = some (f ((t.find key).getD empty)) := by
  obtain ⟨data,children⟩ := t
  simp only [force,find,children_node]
  induction children with
  | nil => simp [modifyFirst]
  | cons v rest ih =>
    by_cases same : v.1 = key
    · simp [modifyFirst,same]
    · simpa [modifyFirst,same] using ih

theorem find_force_ne {key other : Text} (different : other ≠ key) (f : Ptree → Ptree) (t : Ptree) :
    (t.force key f).find other = t.find other := by
  obtain ⟨data,children⟩ := t
  simp only [force,find,children_node]
  induction children with
  | nil => simp [modifyFirst,different.symm]
  | cons v rest ih =>
    by_cases same : v.1 = key
    · simp [modifyFirst,same,different.symm]
    · by_cases here : v.1 = other
      · simp [modifyFirst,here,different]
      · simpa [modifyFirst,same,here] using ih

theorem find_push (key other : Text) (new t : Ptree) :
    (graft [key] new t).find other = (t.find other).or (if other = key then some new else none) := by
  simp only [graft,find,children_node,List.find?_append,Option.map_or]
  by_cases same : other = key
  · simp [same]
  · simp [same,Ne.symm same]

theorem walk_graft (path keys : List Text) (new : Ptree) {t found : Ptree} (here : walk keys t = some found) :
    ∃ kept, walk keys (graft path new t) = some kept ∧ kept.data = found.data := by
  induction path generalizing keys t with
  | nil => exact ⟨found,here,rfl⟩
  | cons key rest ih =>
    cases keys with
    | nil =>
      cases here
      cases rest with
      | nil => exact ⟨_,rfl,rfl⟩
      | cons next others => exact ⟨_,rfl,rfl⟩
    | cons first others =>
      rw [walk_cons] at here ⊢
      obtain ⟨child,foundChild,below⟩ := Option.bind_eq_some_iff.mp here
      cases rest with
      | nil =>
        rw [find_push,foundChild]
        exact ⟨found,below,rfl⟩
      | cons next further =>
        rw [graft]
        by_cases same : first = key
        · subst same
          rw [find_force_self,foundChild]
          exact ih others below
        · rw [find_force_ne same,foundChild]
          exact ⟨found,below,rfl⟩

theorem walk_assign_self (path : List Text) (value : Text) (t : Ptree) :
    ∃ kept, walk path (assign path value t) = some kept ∧ kept.data = value := by
  induction path generalizing t with
  | nil => exact ⟨_,rfl,rfl⟩
  | cons key rest ih =>
    rw [walk_cons,assign,find_force_self]
    exact ih _

theorem walk_assign_ne (path keys : List Text) (value : Text) (different : keys ≠ path) {t found : Ptree}
    (here : walk keys t = some found) : ∃ kept, walk keys (assign path value t) = some kept ∧ kept.data = found.data := by
  induction path generalizing keys t with
  | nil =>
    cases keys with
    | nil => exact absurd rfl different
    | cons first others => exact ⟨found,here,rfl⟩
  | cons key rest ih =>
    cases keys with
    | nil =>
      cases here
      exact ⟨_,rfl,rfl⟩
    | cons first others =>
      rw [walk_cons] at here ⊢
      obtain ⟨child,foundChild,below⟩ := Option.bind_eq_some_iff.mp here
      rw [assign]
      by_cases same : first = key
      · subst same
        rw [find_force_self,foundChild]
        exact ih others (fun equal => different (by rw [equal])) below
      · rw [find_force_ne same,foundChild]
        exact ⟨found,below,rfl⟩

theorem walk_empty {path : List Text} (long : path ≠ []) : walk path empty = none := by
  cases path with
  | nil => exact absurd rfl long
  | cons key rest => rfl

theorem walk_graft_absent {path : List Text} (new : Ptree) {t : Ptree} (absent : walk path t = none) :
    walk path (graft path new t) = some new := by
  induction path generalizing t with
  | nil => cases absent
  | cons key rest ih =>
    cases rest with
    | nil =>
      have missing : t.find key = none := by simpa using absent
      rw [walk_cons,find_push,missing]
      simp
    | cons next others =>
      rw [walk_cons,graft,find_force_self,Option.bind_some]
      apply ih
      cases found : t.find key with
      | none => exact walk_empty (by simp)
      | some child => rwa [walk_cons,found,Option.bind_some] at absent

theorem read_assign_ne (path keys : List Text) (value : Text) (different : keys ≠ path) {t : Ptree}
    (there : (walk path t).isSome) : (walk keys (assign path value t)).map data = (walk keys t).map data := by
  induction path generalizing keys t with
  | nil =>
    cases keys with
    | nil => exact absurd rfl different
    | cons first others => rfl
  | cons key rest ih =>
    cases keys with
    | nil => rfl
    | cons first others =>
      rw [walk_cons,walk_cons,assign]
      by_cases same : first = key
      · subst same
        cases found : t.find first with
        | none => simp [found] at there
        | some child =>
          rw [walk_cons,found] at there
          rw [find_force_self,found]
          exact ih others (fun equal => different (by rw [equal])) there
      · rw [find_force_ne same]

theorem getChild_walk {path : Text} {t node : Ptree} : t.getChild path = .ok node ↔ walk (reduced path) t = some node := by
  rw [getChild]
  cases walk (reduced path) t with
  | none => simp
  | some found => simp

theorem get_reads {path value : Text} {t : Ptree} :
    t.get path = .ok value ↔ ∃ found, walk (reduced path) t = some found ∧ found.data = value := by
  rw [get,getChild]
  cases walk (reduced path) t with
  | none => simp [Except.map]
  | some found => simp [Except.map]

theorem get_walked {path : Text} {t found : Ptree} (here : walk (reduced path) t = some found) : t.get path = .ok found.data :=
  get_reads.mpr ⟨found,here,rfl⟩

theorem get_congr {path : Text} {t u : Ptree} (same : (walk (reduced path) t).map data = (walk (reduced path) u).map data) :
    t.get path = u.get path ∧ ∀ value, t.getD path value = u.getD path value := by
  simp only [get,getChild,getD]
  cases inT : walk (reduced path) t with
  | none =>
    cases inU : walk (reduced path) u with
    | none => simp
    | some _ => rw [inT,inU] at same; cases same
  | some found =>
    cases inU : walk (reduced path) u with
    | none => rw [inT,inU] at same; cases same
    | some other =>
      rw [inT,inU] at same
      have equal : found.data = other.data := Option.some.inj same
      simp [Except.map,equal]

theorem get_put_elsewhere {path other : Text} (value : Text) {t : Ptree} (there : (walk (reduced path) t).isSome)
    (different : reduced other ≠ reduced path) : (t.put path value).get other = t.get other ∧
      ∀ d, (t.put path value).getD other d = t.getD other d := by
  rw [put,if_pos there]
  exact get_congr (read_assign_ne _ _ value different there)

theorem modifyFirst_same {key : Text} {f : Ptree → Ptree} {children : List (Text × Ptree)} {v : Text × Ptree}
    (first : children.find? (fun v => v.1 == key) = some v) (same : f v.2 = v.2) : modifyFirst key f children = children := by
  induction children with
  | nil => cases first
  | cons head rest ih =>
    by_cases here : head.1 = key
    · rw [List.find?_cons_of_pos (by simpa using here)] at first
      cases Option.some.inj first
      rw [modifyFirst,if_pos here,same]
    · rw [List.find?_cons_of_neg (by simpa using here)] at first
      rw [modifyFirst,if_neg here,ih first]

theorem assign_same {path : List Text} {t found : Ptree} (here : walk path t = some found) :
    assign path found.data t = t := by
  induction path generalizing t with
  | nil =>
    cases Option.some.inj here
    cases found
    rfl
  | cons key rest ih =>
    obtain ⟨child,foundChild,below⟩ := Option.bind_eq_some_iff.mp here
    obtain ⟨v,first,rfl⟩ := Option.map_eq_some_iff.mp foundChild
    rw [assign,force,modifyFirst_same first (ih below)]
    cases t
    rfl

theorem walk_graft_parent {path : List Text} (long : path ≠ []) (key : Text) (new : Ptree) {t : Ptree}
    (absent : walk path t = none) : ∃ made, walk path (graft (path ++ [key]) new t) = some made ∧ made.data = [] := by
  induction path generalizing t with
  | nil => exact absurd rfl long
  | cons first rest ih =>
    cases rest with
    | nil =>
      have missing : t.find first = none := by simpa using absent
      refine ⟨graft [key] new empty,?_,rfl⟩
      have step : graft ([first] ++ [key]) new t = t.force first (graft [key] new) := rfl
      rw [step,walk_cons,find_force_self,missing]
      rfl
    | cons next others =>
      rw [walk_cons,List.cons_append,List.cons_append,graft,find_force_self,Option.bind_some]
      apply ih (by simp)
      cases found : t.find first with
      | none => exact walk_empty (by simp)
      | some child => rwa [walk_cons,found,Option.bind_some] at absent

theorem find_assign_isSome (path : List Text) (value key : Text) {t : Ptree} (there : (walk path t).isSome) :
    ((assign path value t).find key).isSome = (t.find key).isSome := by
  cases path with
  | nil => rfl
  | cons first rest =>
    by_cases same : key = first
    · subst same
      rw [assign,find_force_self]
      cases found : t.find key with
      | none => simp [found] at there
      | some child => rfl
    · rw [assign,find_force_ne same]

theorem find_mem {key : Text} {t child : Ptree} (found : t.find key = some child) : (key,child) ∈ t.children := by
  obtain ⟨v,first,rfl⟩ := Option.map_eq_some_iff.mp found
  have same : v.1 = key := by simpa using List.find?_some first
  rw [← same]
  exact List.mem_of_find?_eq_some first

theorem find_of_mem {key : Text} {t child : Ptree} (member : (key,child) ∈ t.children) :
    ∃ first, t.find key = some first := by
  cases found : t.find key with
  | some first => exact ⟨first,rfl⟩
  | none =>
    have absent := List.find?_eq_none.mp (Option.map_eq_none_iff.mp found) _ member
    simp at absent

theorem find_unique {key : Text} {t child : Ptree} (unique : (t.children.map Prod.fst).Nodup)
    (member : (key,child) ∈ t.children) : t.find key = some child := by
  obtain ⟨first,found⟩ := find_of_mem member
  have same := List.inj_on_of_nodup_map unique (find_mem found) member rfl
  rw [found,(Prod.mk.inj same).2]

theorem size_child {key : Text} {t child : Ptree} (member : (key,child) ∈ t.children) : sizeOf child < sizeOf t := by
  obtain ⟨data,children⟩ := t
  have inList := List.sizeOf_lt_of_mem member
  simp only [children_node,Prod.mk.sizeOf_spec,node.sizeOf_spec] at inList ⊢
  omega

theorem get_put {path : Text} (cut : reduced path = fragments path) (value : Text) (t : Ptree) :
    (t.put path value).get path = .ok value := by
  rw [get,getChild,put]
  by_cases there : (walk (reduced path) t).isSome
  · obtain ⟨kept,walked,same⟩ := walk_assign_self (reduced path) value t
    rw [if_pos there,walked,← same]
    rfl
  · have missing : walk (fragments path) t = none := by simpa [cut] using there
    rw [if_neg there,add,cut,walk_graft_absent (leaf value) missing]
    rfl

-- A plain key that is put is read back, and every other key as before.
section Put
variable {key : Text} (single : fragments key = [key]) (named : reduced key = [key]) (value : Text) (t : Ptree)
include single named

theorem find_put_self : ∃ kept, (t.put key value).find key = some kept ∧ kept.data = value := by
  rw [put,named,walk_cons,bind_walk_nil]
  cases found : t.find key with
  | some child => exact ⟨_,find_force_self key _ t,rfl⟩
  | none =>
    refine ⟨leaf value,?_,rfl⟩
    rw [if_neg (by simp),add,single,find_push,found]
    simp

theorem find_put_ne {other : Text} (different : other ≠ key) : (t.put key value).find other = t.find other := by
  rw [put,named,add,single]
  split
  · exact find_force_ne different _ t
  · rw [find_push,if_neg different,Option.or_none]

theorem get_put_self : (t.put key value).get key = .ok value := by
  obtain ⟨kept,found,same⟩ := find_put_self single named value t
  rw [get,getChild,named,walk_cons,found,← same]
  rfl

theorem get_put_ne {other : Text} (otherNamed : reduced other = [other]) (different : other ≠ key) :
    (t.put key value).get other = t.get other := by
  rw [get,get,getChild,getChild,otherNamed,walk_cons,walk_cons,find_put_ne single named value t different]

end Put

end Ptree
end PropertyTree
