import Mathlib.Algebra.Ring.Nat
import Mathlib.Data.List.Nodup
import Mathlib.Order.Lattice

structure OrderedMap (κ ν : Type*) [LinearOrder κ] where
  entries : List (κ × ν)
  sorted : entries.Pairwise fun e later => e.1 < later.1

namespace OrderedMap
variable {κ ν : Type*} [LinearOrder κ]

def empty : OrderedMap κ ν := ⟨[],.nil⟩

def lookup (key : κ) (es : List (κ × ν)) : Option ν := (es.find? fun e => e.1 = key).map Prod.snd

def find (key : κ) (m : OrderedMap κ ν) : Option ν := lookup key m.entries

def insertEntry (key : κ) (value : ν) : List (κ × ν) → List (κ × ν)
  | [] => [(key,value)]
  | e :: rest =>
    if key < e.1 then (key,value) :: e :: rest
    else if key = e.1 then (key,value) :: rest
    else e :: insertEntry key value rest

theorem insertEntry_keys {key : κ} {value : ν} {es : List (κ × ν)} :
    ∀ e ∈ insertEntry key value es, e.1 = key ∨ e ∈ es := by
  induction es with
  | nil =>
    intro e member
    rw [List.mem_singleton.mp member]
    exact .inl rfl
  | cons first rest ih =>
    intro e member
    unfold insertEntry at member
    split at member
    · rcases List.mem_cons.mp member with rfl | old
      · exact .inl rfl
      · exact .inr old
    · split at member
      · rcases List.mem_cons.mp member with rfl | old
        · exact .inl rfl
        · exact .inr (List.mem_cons_of_mem _ old)
      · rcases List.mem_cons.mp member with rfl | deeper
        · exact .inr List.mem_cons_self
        · exact (ih e deeper).imp_right (List.mem_cons_of_mem _)

theorem insertEntry_sorted (key : κ) (value : ν) {es : List (κ × ν)} (sorted : es.Pairwise fun e later => e.1 < later.1) :
    (insertEntry key value es).Pairwise fun e later => e.1 < later.1 := by
  induction es with
  | nil => exact List.pairwise_singleton _ _
  | cons first rest ih =>
    obtain ⟨least,sortedRest⟩ := List.pairwise_cons.mp sorted
    unfold insertEntry
    split
    · next earlier =>
      refine List.pairwise_cons.mpr ⟨?_,sorted⟩
      intro e member
      rcases List.mem_cons.mp member with rfl | later
      · exact earlier
      · exact lt_trans earlier (least e later)
    · next notBefore =>
      split
      · next same =>
        refine List.pairwise_cons.mpr ⟨?_,sortedRest⟩
        intro e member
        rw [same]
        exact least e member
      · next different =>
        refine List.pairwise_cons.mpr ⟨?_,ih sortedRest⟩
        intro e member
        rcases insertEntry_keys e member with here | old
        · rw [here]
          exact lt_of_le_of_ne (not_lt.mp notBefore) (Ne.symm different)
        · exact least e old

-- m[key] = value
def put (key : κ) (value : ν) (m : OrderedMap κ ν) : OrderedMap κ ν :=
  ⟨insertEntry key value m.entries,insertEntry_sorted key value m.sorted⟩

@[simp] theorem find_empty (key : κ) : (empty : OrderedMap κ ν).find key = none := rfl

theorem lookup_cons (key : κ) (e : κ × ν) (es : List (κ × ν)) :
    lookup key (e :: es) = if e.1 = key then some e.2 else lookup key es := by
  by_cases same : e.1 = key
  · simp [lookup,same]
  · simp [lookup,same]

theorem lookup_fresh {key : κ} {es : List (κ × ν)} (fresh : key ∉ es.map Prod.fst) : lookup key es = none := by
  rw [lookup,List.find?_eq_none.mpr]
  · rfl
  · intro e member
    have apart : e.1 ≠ key := fun same => fresh (List.mem_map.mpr ⟨e,member,same⟩)
    simpa using apart

@[simp] theorem lookup_insertEntry_self (key : κ) (value : ν) (es : List (κ × ν)) :
    lookup key (insertEntry key value es) = some value := by
  induction es with
  | nil => simp [insertEntry,lookup]
  | cons first rest ih =>
    unfold insertEntry
    split
    · simp [lookup_cons]
    · split
      · simp [lookup_cons]
      · next different => rw [lookup_cons,if_neg (Ne.symm different),ih]

theorem lookup_insertEntry_ne {key other : κ} (different : other ≠ key) (value : ν) (es : List (κ × ν)) :
    lookup other (insertEntry key value es) = lookup other es := by
  induction es with
  | nil => simp [insertEntry,lookup,different.symm]
  | cons first rest ih =>
    unfold insertEntry
    split
    · rw [lookup_cons,if_neg different.symm]
    · split
      · next same => rw [lookup_cons,lookup_cons,if_neg different.symm,if_neg (same ▸ different.symm)]
      · rw [lookup_cons,lookup_cons,ih]

@[simp] theorem find_put_self (key : κ) (value : ν) (m : OrderedMap κ ν) : (m.put key value).find key = some value :=
  lookup_insertEntry_self key value m.entries

theorem find_put_ne {key other : κ} (different : other ≠ key) (value : ν) (m : OrderedMap κ ν) :
    (m.put key value).find other = m.find other := lookup_insertEntry_ne different value m.entries

theorem keys_nodup (m : OrderedMap κ ν) : (m.entries.map Prod.fst).Nodup := by
  refine List.pairwise_map.mpr (m.sorted.imp ?_)
  intro e later before
  exact ne_of_lt before

theorem mem_entries {m : OrderedMap κ ν} {key : κ} {value : ν} :
    (key,value) ∈ m.entries ↔ m.find key = some value := by
  constructor
  · intro member
    have present : (m.entries.find? fun e => e.1 = key).isSome := by
      rw [List.find?_isSome]
      exact ⟨_,member,by simp⟩
    obtain ⟨e,found⟩ := Option.isSome_iff_exists.mp present
    have same : e.1 = key := by simpa using List.find?_some found
    have whole : e = (key,value) := List.inj_on_of_nodup_map m.keys_nodup (List.mem_of_find?_eq_some found) member same
    rw [find,lookup,found,whole]
    rfl
  · intro found
    obtain ⟨e,first,rfl⟩ := Option.map_eq_some_iff.mp found
    have same : e.1 = key := by simpa using List.find?_some first
    rw [← same]
    exact List.mem_of_find?_eq_some first

def mapValues {μ : Type*} (f : ν → μ) (m : OrderedMap κ ν) : OrderedMap κ μ :=
  ⟨m.entries.map fun e => (e.1,f e.2),List.pairwise_map.mpr m.sorted⟩

@[simp] theorem find_mapValues {μ : Type*} (f : ν → μ) (key : κ) (m : OrderedMap κ ν) :
    (m.mapValues f).find key = (m.find key).map f := by
  simp only [find,lookup,mapValues,List.find?_map,Option.map_map]
  rfl

theorem sum_insertEntry (weight : ν → Nat) (key : κ) (value : ν) {es : List (κ × ν)}
    (sorted : es.Pairwise fun e later => e.1 < later.1) :
    ((insertEntry key value es).map fun e => weight e.2).sum + (lookup key es).elim 0 weight =
      (es.map fun e => weight e.2).sum + weight value := by
  induction es with
  | nil => simp [insertEntry,lookup]
  | cons first rest ih =>
    obtain ⟨least,sortedRest⟩ := List.pairwise_cons.mp sorted
    have later := ih sortedRest
    unfold insertEntry
    split
    · next earlier =>
      have absent : lookup key (first :: rest) = none := by
        rw [lookup,List.find?_eq_none.mpr]
        · rfl
        · intro e member
          rcases List.mem_cons.mp member with rfl | behind
          · simpa using ne_of_gt earlier
          · simpa using ne_of_gt (lt_trans earlier (least e behind))
      rw [absent]
      simp only [List.map_cons,List.sum_cons,Option.elim_none]
      omega
    · split
      · next same =>
        rw [lookup_cons,if_pos same.symm]
        simp only [List.map_cons,List.sum_cons,Option.elim_some]
        omega
      · next different =>
        rw [lookup_cons,if_neg (Ne.symm different)]
        simp only [List.map_cons,List.sum_cons]
        omega

theorem sum_put (weight : ν → Nat) (key : κ) (value : ν) (m : OrderedMap κ ν) :
    ((m.put key value).entries.map fun e => weight e.2).sum + (m.find key).elim 0 weight =
      (m.entries.map fun e => weight e.2).sum + weight value := sum_insertEntry weight key value m.sorted

theorem ext_find {m n : OrderedMap κ ν} (same : ∀ key, m.find key = n.find key) : m = n := by
  have members : ∀ e, e ∈ m.entries ↔ e ∈ n.entries := by
    rintro ⟨key,value⟩
    rw [mem_entries,mem_entries,same]
  have perm : m.entries.Perm n.entries :=
    (List.perm_ext_iff_of_nodup (m.keys_nodup.of_map _) (n.keys_nodup.of_map _)).mpr members
  have entries := List.Perm.eq_of_pairwise (fun _ _ _ _ before after => absurd after (lt_asymm before)) m.sorted n.sorted perm
  cases m
  cases n
  cases entries
  rfl

theorem find_refilled {μ : Type*} (f : ν → μ) {es : List (κ × ν)} (distinct : (es.map Prod.fst).Nodup)
    (start : OrderedMap κ μ) (key : κ) :
    (es.foldl (fun m e => m.put e.1 (f e.2)) start).find key = ((lookup key es).map f).or (start.find key) := by
  induction es generalizing start with
  | nil => rfl
  | cons e rest ih =>
    obtain ⟨apart,others⟩ := List.nodup_cons.mp distinct
    rw [List.foldl_cons,ih others,lookup_cons]
    by_cases same : key = e.1
    · rw [same,lookup_fresh apart,find_put_self]
      simp
    · rw [find_put_ne same,if_neg (Ne.symm same)]

theorem refilled {μ : Type*} (f : ν → μ) (m : OrderedMap κ ν) :
    m.entries.foldl (fun filled e => filled.put e.1 (f e.2)) empty = m.mapValues f := by
  refine ext_find fun key => ?_
  rw [find_refilled f m.keys_nodup,find_mapValues,find_empty,Option.or_none]
  rfl

-- begin() and ++ of an iterator: the first key, and the first one behind a key.
def first (m : OrderedMap κ ν) : Option κ := m.entries.head?.map Prod.fst

def next (key : κ) (m : OrderedMap κ ν) : Option κ := (m.entries.find? fun e => key < e.1).map Prod.fst

theorem found_mem {m : OrderedMap κ ν} {key : κ} (known : (m.find key).isSome = true) : ∃ e ∈ m.entries, e.1 = key := by
  obtain ⟨value,found⟩ := Option.isSome_iff_exists.mp known
  exact ⟨_,mem_entries.mpr found,rfl⟩

theorem mem_found {m : OrderedMap κ ν} {e : κ × ν} (member : e ∈ m.entries) : (m.find e.1).isSome = true := by
  rw [mem_entries.mp (show (e.1,e.2) ∈ m.entries from member)]
  rfl

theorem first_some {m : OrderedMap κ ν} {key : κ} (start : m.first = some key) :
    (m.find key).isSome = true ∧ ∀ other, (m.find other).isSome = true → key ≤ other := by
  obtain ⟨e,head,rfl⟩ := Option.map_eq_some_iff.mp start
  have member := List.mem_of_mem_head? head
  refine ⟨mem_found member,?_⟩
  intro other known
  obtain ⟨later,inside,rfl⟩ := found_mem known
  have sorted := m.sorted
  cases entries : m.entries with
  | nil =>
    rw [entries] at inside
    cases inside
  | cons front rest =>
    rw [entries] at head inside sorted
    cases head
    rcases List.mem_cons.mp inside with rfl | behind
    · exact le_rfl
    · exact le_of_lt ((List.pairwise_cons.mp sorted).1 later behind)

theorem first_none {m : OrderedMap κ ν} (nothing : m.first = none) (key : κ) : m.find key = none := by
  have empty : m.entries = [] := by simpa [first] using nothing
  rw [find,empty]
  rfl

theorem next_some {m : OrderedMap κ ν} {key behind : κ} (step : m.next key = some behind) :
    key < behind ∧ (m.find behind).isSome = true ∧
      ∀ other, (m.find other).isSome = true → key < other → behind ≤ other := by
  obtain ⟨e,found,rfl⟩ := Option.map_eq_some_iff.mp step
  have greater : key < e.1 := by simpa using List.find?_some found
  refine ⟨greater,mem_found (List.mem_of_find?_eq_some found),?_⟩
  intro other known above
  obtain ⟨later,inside,rfl⟩ := found_mem known
  obtain ⟨_,earlier,after,split,skipped⟩ := List.find?_eq_some_iff_append.mp found
  rw [split] at inside
  rcases List.mem_append.mp inside with before | rest
  · have below := skipped later before
    simp only [Bool.not_eq_true',decide_eq_false_iff_not] at below
    exact absurd above below
  · rcases List.mem_cons.mp rest with rfl | further
    · exact le_rfl
    · have sorted := m.sorted
      rw [split] at sorted
      exact le_of_lt ((List.pairwise_cons.mp (List.pairwise_append.mp sorted).2.1).1 later further)

theorem next_none {m : OrderedMap κ ν} {key : κ} (last : m.next key = none) (other : κ)
    (known : (m.find other).isSome = true) : other ≤ key := by
  have none : m.entries.find? (fun e => key < e.1) = none := Option.map_eq_none_iff.mp last
  obtain ⟨e,inside,rfl⟩ := found_mem known
  have below := List.find?_eq_none.mp none e inside
  simpa using below

theorem first_past {m : OrderedMap κ ν} {key : κ} (past : ∀ front, m.first = some front → key < front) :
    m.find key = none := by
  rw [← Option.not_isSome_iff_eq_none]
  intro known
  cases start : m.first with
  | none =>
    rw [first_none start key] at known
    cases known
  | some front => exact absurd ((first_some start).2 key known) (not_le.mpr (past front start))

theorem next_past {m : OrderedMap κ ν} {key later : κ} (above : key < later)
    (past : ∀ behind, m.next key = some behind → later < behind) : m.find later = none := by
  rw [← Option.not_isSome_iff_eq_none]
  intro known
  cases step : m.next key with
  | none => exact absurd (next_none step later known) (not_le.mpr above)
  | some behind => exact absurd ((next_some step).2.2 later known above) (not_le.mpr (past behind step))

end OrderedMap
