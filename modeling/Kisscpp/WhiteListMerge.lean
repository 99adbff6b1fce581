import Kisscpp.MergeBelow
import Kisscpp.WhiteLists

namespace Kisscpp
open TextLines PropertyTree

theorem edits_filled {depth : Nat} {t : Ptree} (parent : t.children ≠ []) (enough : sizeOf t ≤ depth) :
    edits depth t ≠ [] := by
  induction depth generalizing t with
  | zero =>
    obtain ⟨data,children⟩ := t
    simp only [Ptree.node.sizeOf_spec] at enough
    omega
  | succ depth ih =>
    obtain ⟨data,children⟩ := t
    cases children with
    | nil => exact absurd rfl parent
    | cons v rest =>
      have smaller : sizeOf v.2 < sizeOf (Ptree.node data (v :: rest)) :=
        Ptree.size_child (show (v.1,v.2) ∈ (Ptree.node data (v :: rest)).children from List.mem_cons_self)
      have first : (Ptree.node data (v :: rest)).find v.1 = some v.2 := by simp [Ptree.find]
      intro none
      have own := List.flatMap_eq_nil_iff.mp none v List.mem_cons_self
      by_cases childless : v.2.children.length = 0
      · simp [childless] at own
      · rw [if_neg childless,first,Option.getD_some] at own
        exact ih (by simpa using childless) (by omega) (List.map_eq_nil_iff.mp own)

def copied (count depth : Nat) (e f : Ptree) : Ptree := Ptree.grafted e (copies count (edits depth f))

theorem copied_childless {f : Ptree} (childless : f.children = []) (count depth : Nat) (e : Ptree) :
    copied count depth e f = e := by
  rw [copied,edits_childless childless,copies_nil,Ptree.grafted_nil]

theorem values_copied {t child : Ptree} (plain : ∀ v ∈ child.children, v.2.children = []) (count depth : Nat)
    (value : Text) : value ∈ (copied count (depth + 1) t child).values ↔
      value ∈ t.values ∨ 0 < count ∧ value ∈ child.values := by
  rw [copied,edits_values plain,copies,← List.map_replicate,← List.map_flatten,Ptree.values,Ptree.children_pushed,
    List.map_append,List.mem_append]
  refine or_congr Iff.rfl ?_
  simp [Ptree.values,Nat.pos_iff_ne_zero,Ptree.leaf]

theorem find_copied (count depth : Nat) (f : Ptree) {e child : Ptree} {key : Text} (present : e.find key = some child) :
    (copied count (depth + 1) e f).find key =
      some (copied (count * forks key f.children) depth child ((f.find key).getD .empty)) := by
  rw [copied,Ptree.find_grafted _ present,under_copies,under_edits,copies_copies,copied]

section Copied
variable {e f : Ptree} {count : Nat} (repeated : 0 < count) (depth : Nat) {key : Text}
include repeated

theorem find_copied_none (absent : e.find key = none) (neither : f.find key = none) :
    (copied count (depth + 1) e f).find key = none := by
  rw [copied,Ptree.find_grafted_absent _ absent,find_copies repeated,first_absent neither]
  rfl

theorem find_copied_leaf (absent : e.find key = none) {value : Text} (own : f.find key = some (.leaf value)) :
    (copied count (depth + 1) e f).find key = some (.leaf value) := by
  rw [copied,Ptree.find_grafted_absent _ absent,find_copies repeated,first_leaf own,under_copies,under_edits,own,
    Option.getD_some,edits_childless rfl]
  simp

theorem find_copied_parent (absent : e.find key = none) {child : Ptree} (own : f.find key = some child)
    (parent : child.children ≠ []) (filled : edits depth child ≠ []) : (copied count (depth + 1) e f).find key =
      some (copied (count * forks key f.children) depth .empty child) := by
  obtain ⟨first,others,starts⟩ := List.exists_cons_of_ne_nil filled
  have deep : first.1 ≠ [] := edits_nonempty depth child first (by rw [starts]; exact List.mem_cons_self)
  rw [copied,Ptree.find_grafted_absent _ absent,find_copies repeated,first_parent own parent starts,under_copies,
    under_edits,own,Option.getD_some,copies_copies,copied]
  simp [deep]

theorem find_copied_childless (absent : e.find key = none) (childless : ∀ x, f.find key = some x → x.children = []) :
    (copied count (depth + 1) e f).find key = f.find key := by
  cases own : f.find key with
  | none => exact find_copied_none repeated depth absent own
  | some x =>
    have leaf := Ptree.childless_leaf (childless x own)
    rw [leaf] at own ⊢
    exact find_copied_leaf repeated depth absent own

theorem find_copied_list (absent : e.find key = none) {l : Ptree} (own : f.find key = some l)
    (plain : ∀ v ∈ l.children, v.2.children = []) :
    ∃ now, (copied count (depth + 2) e f).find key = some now ∧ ∀ i, i ∈ now.values ↔ i ∈ l.values := by
  by_cases childless : l.children = []
  · refine ⟨l,?_,fun i => Iff.rfl⟩
    rw [find_copied_childless repeated (depth + 1) absent,own]
    intro x same
    cases own.symm.trans same
    exact childless
  · have filled : edits (depth + 1) l ≠ [] := by
      rw [edits_values plain]
      simpa using childless
    refine ⟨_,find_copied_parent repeated (depth + 1) absent own childless filled,?_⟩
    intro i
    have times := Nat.mul_pos repeated (forks_pos own childless)
    rw [values_copied plain,and_iff_right times]
    simp [Ptree.values,Ptree.empty]

end Copied

-- What keeps its text in the merge: a value under a key without a dot.
def Entry (v : Text × Ptree) : Prop := v.2.children = [] ∧ Plain v.1

instance (v : Text × Ptree) : Decidable (Entry v) := inferInstanceAs (Decidable (_ ∧ _))

theorem find_again {p q : α → Bool} {l : List α} {v w : α} (first : l.find? p = some v) (other : l.find? q = some w)
    (own : q v = true) (back : p w = true) : v = w := by
  induction l with
  | nil => cases first
  | cons u rest ih =>
    cases holds : p u with
    | true =>
      rw [List.find?_cons_of_pos holds] at first
      cases first
      rw [List.find?_cons_of_pos own] at other
      exact Option.some.inj other
    | false =>
      rw [List.find?_cons_of_neg (by simp [holds])] at first
      cases also : q u with
      | true =>
        rw [List.find?_cons_of_pos also] at other
        cases other
        rw [holds] at back
        cases back
      | false =>
        rw [List.find?_cons_of_neg (by simp [also])] at other
        exact ih first other

theorem spelled_own {key : Text} (plain : Plain key) (filled : key ≠ []) {t child : Ptree} (found : t.find key = some child) :
    ∃ v, spelled key t = some v ∧ (Plain v.1 → v.2 = child) := by
  obtain ⟨w,first,rfl⟩ := Option.map_eq_some_iff.mp found
  have named : w.1 = key := by simpa using List.find?_some first
  have top : (fragments w.1).head? = some key := by rw [named,fragments_single plain]; rfl
  have leading : leads t w = true := by
    rw [leads,named,reduced_key plain,if_neg filled,Ptree.walk_cons,Ptree.bind_walk_nil,found]
    by_cases childless : w.2.children = [] <;> simp [childless]
  have isSpelled : ((fragments w.1).head? == some key && leads t w) = true := by simp [top,leading]
  cases shown : spelled key t with
  | none =>
    exact absurd isSpelled (List.find?_eq_none.mp shown w (List.mem_of_find?_eq_some first))
  | some v =>
    refine ⟨v,rfl,?_⟩
    intro single
    have same := plain_unaliased single (spelled_some shown).2.1
    rw [spelled] at shown
    rw [find_again shown first (by simpa using same) isSpelled]

theorem spelled_find {key : Text} (filled : key ≠ []) {t : Ptree} {v : Text × Ptree} (plain : Plain v.1)
    (first : spelled key t = some v) : t.find key = some v.2 := by
  obtain ⟨member,top,_⟩ := spelled_some first
  have same := plain_unaliased plain top
  cases found : t.find key with
  | none => exact absurd (by simpa using same) (List.find?_eq_none.mp (Option.map_eq_none_iff.mp found) v member)
  | some child =>
    obtain ⟨w,other,own⟩ := spelled_own (same ▸ plain) filled found
    cases first.symm.trans other
    rw [own plain]

-- Two configurations with a white list each. No key of either is cut into a path
-- into one of these nodes of it.
structure FileLevels (inners : List Text) (common own commonOuter ownOuter : Ptree) : Prop where
  inCommon : common.find "kcc-white-list".toList = some commonOuter
  inOwn : own.find "kcc-white-list".toList = some ownOuter
  commonRoot : ∀ inner ∈ inners, Clear "kcc-white-list".toList inner common
  ownRoot : ∀ inner ∈ inners, Clear "kcc-white-list".toList inner own

def brought (own ownOuter : Ptree) (depth : Nat) : List (List Text × Text) :=
  copies (forks "kcc-white-list".toList own.children) (writes depth false ownOuter)

theorem under_brought {own ownOuter : Ptree} {inner : Text} (plain : Plain inner) (filled : inner ≠ [])
    (unaliased : Unaliased inner ownOuter) (depth : Nat) : Ptree.under inner (brought own ownOuter (depth + 1)) =
      copies (forks "kcc-white-list".toList own.children * forks inner ownOuter.children)
        (writes depth false ((ownOuter.find inner).getD .empty)) := by
  rw [brought,under_copies,under_writes plain filled depth unaliased,copies_copies]

section FileLevels
variable {inners : List Text} {common own commonOuter ownOuter : Ptree}
  (levels : FileLevels inners common own commonOuter ownOuter) (depth : Nat)
include levels

theorem FileLevels.passable (passable : Passable false own) : Passable false ownOuter :=
  passable_below (by decide) (by decide) passable levels.inOwn

theorem white_list_brought : ∃ now, ((writes (depth + 1) false own).foldl (written []) common).find
    "kcc-white-list".toList = some now ∧ ∀ inner ∈ inners,
      now.find inner = (Ptree.grafted commonOuter (brought own ownOuter depth)).find inner := by
  obtain ⟨now,finds,same⟩ := find_allWritten (writes_plain (depth + 1) false own) levels.inCommon
  refine ⟨now,finds,fun inner known => ?_⟩
  have starts := starting_writes (by decide) (by decide) depth (levels.ownRoot inner known)
  rw [levels.inOwn] at starts
  rw [same inner (levels.commonRoot inner known)]
  exact Ptree.find_grafted_congr rfl starts

theorem brought_first (key : Text) : (brought own ownOuter (depth + 1)).find? (fun e => e.1.head? == some key) =
    (writes (depth + 1) false ownOuter).find? fun e => e.1.head? == some key := by
  by_cases childless : ownOuter.children = []
  · have nothing : writes (depth + 1) false ownOuter = [] := by simp [writes_eq,childless]
    simp [brought,nothing]
  · exact find_copies (forks_pos levels.inOwn childless) _ _

theorem forks_brought {inner : Text} {list : Ptree} (inOwn : ownOuter.find inner = some list)
    (parent : list.children ≠ []) :
    0 < forks "kcc-white-list".toList own.children * forks inner ownOuter.children := by
  have ownParent : ownOuter.children ≠ [] := List.ne_nil_of_mem (Ptree.find_mem inOwn)
  exact Nat.mul_pos (forks_pos levels.inOwn ownParent) (forks_pos inOwn parent)

theorem merged_isTrue {path inner : Text} (splits : reduced path = ["kcc-white-list".toList,inner])
    (known : inner ∈ inners) (passable : Passable false own) (enough : descent false ownOuter ≤ depth + 1) :
    Config.isTrue ((writes (depth + 2) false own).foldl (written []) common) path = true ↔
      Config.isTrue common path = true ∨ commonOuter.find inner = none ∧
        ∃ v, spelled inner ownOuter = some v ∧ Entry v ∧ v.2.data = "true".toList := by
  obtain ⟨now,finds,inside⟩ := white_list_brought levels (depth + 1)
  have passes := levels.passable passable
  rw [isTrue_below path splits finds,inside _ known,isTrue_below path splits levels.inCommon]
  cases present : commonOuter.find inner with
  | some flag =>
    rw [Ptree.find_grafted _ present]
    simp [Ptree.data_grafted]
  | none =>
    rw [Ptree.find_grafted_absent _ present,brought_first levels depth]
    cases inOwn : spelled inner ownOuter with
    | none =>
      rw [first_writes passes enough,inOwn]
      simp
    | some v =>
      obtain ⟨e,first,single,value⟩ := first_write passes enough inOwn
      rw [first]
      by_cases entry : Entry v
      · simp [Ptree.data_grafted,single.mpr entry,value entry.1,entry,Ptree.leaf]
      · have long : ¬ e.1.length = 1 := fun one => entry (single.mp one)
        simp [Ptree.data_grafted,long,entry,Ptree.empty]

end FileLevels

theorem Mergeable.writes {t : Ptree} (mergeable : Mergeable t) (depth : Nat) : writes depth false t = edits depth t := by
  induction depth generalizing t with
  | zero => rfl
  | succ depth ih =>
    obtain ⟨plain,named,below⟩ := mergeable.parts
    rw [writes_eq,edits]
    apply List.flatMap_congr
    intro v member
    have single := fragments_single (plain v member)
    unfold childWrites
    split
    · rw [single]
    · next parent =>
      have filled : v.1 ≠ [] := fun blank => parent (by rw [named v member blank]; rfl)
      have ends : blankEnd v.1 = false := by
        rw [blankEnd,single]
        simpa using filled
      obtain ⟨first,found⟩ := Ptree.find_of_mem member
      have walked : Ptree.walk (gap false ++ reduced v.1) t = some first := by
        rw [reduced_key (plain v member),if_neg filled]
        simp [gap,found]
      rw [single,ends,walked,found,Option.getD_some,ih (below _ (Ptree.find_mem found))]
      rfl

theorem merged_list {common own commonOuter ownOuter commonInner ownInner : Ptree} {inners : List Text} {inner : Text}
    (levels : FileLevels inners common own commonOuter ownOuter) (known : inner ∈ inners) (plain : Plain inner)
    (filled : inner ≠ []) (unaliased : Unaliased inner ownOuter) (commonList : commonOuter.find inner = some commonInner)
    (ownList : ownOuter.find inner = some ownInner) (mergeable : Mergeable ownInner) (depth : Nat) :
    ∃ outerNow count, ((writes (depth + 2) false own).foldl (written []) common).find "kcc-white-list".toList =
        some outerNow ∧
      outerNow.find inner = some (copied count depth commonInner ownInner) ∧ (ownInner.children ≠ [] → 0 < count) := by
  obtain ⟨outerNow,finds,inside⟩ := white_list_brought levels (depth + 1)
  have innerNow := Ptree.find_grafted (brought own ownOuter (depth + 1)) commonList
  rw [under_brought plain filled unaliased depth,ownList,Option.getD_some,mergeable.writes] at innerNow
  exact ⟨outerNow,_,finds,(inside inner known).trans innerNow,forks_brought levels ownList⟩

theorem edits_parents {key : Text} {t : Ptree} (parents : ∀ e ∈ t.named key, e.children ≠ []) (depth : Nat) :
    ∀ e ∈ edits depth t, e.1 ≠ [key] := by
  cases depth with
  | zero => intro e member; cases member
  | succ depth =>
    intro e member path
    obtain ⟨v,inTree,inEdits⟩ := List.mem_flatMap.mp member
    split at inEdits
    · next childless =>
      rw [List.mem_singleton.mp inEdits] at path
      have same : v.1 = key := by simpa using path
      have entry : v.2 ∈ t.named key := List.mem_map.mpr ⟨v,List.mem_filter.mpr ⟨inTree,by simpa using same⟩,rfl⟩
      exact parents v.2 entry (List.length_eq_zero_iff.mp childless)
    · obtain ⟨inner,isInner,rfl⟩ := List.mem_map.mp inEdits
      exact edits_nonempty _ _ inner isInner (List.cons.inj path).2

theorem forks_none {key : Text} {t : Ptree} (none : t.named key = []) : forks key t.children = 0 := by
  rw [forks,List.countP_eq_zero]
  intro v member fork
  have same : v.1 = key := by
    simp only [Bool.and_eq_true,beq_iff_eq] at fork
    exact fork.1
  have entry : v.2 ∈ t.named key := List.mem_map.mpr ⟨v,List.mem_filter.mpr ⟨member,by simpa using same⟩,rfl⟩
  rw [none] at entry
  cases entry

theorem merged_entries {commonList ownList first : Ptree} {key : Text} {others : List Ptree}
    (ownEntries : ownList.named key = first :: others) (parents : ∀ e ∈ ownList.named key, e.children ≠ [])
    {count depth : Nat} (repeated : 0 < count) (enough : sizeOf ownList ≤ depth) : ∃ times, 0 < times ∧
      (copied count (depth + 1) commonList ownList).named key =
        copied times depth ((commonList.named key).headD .empty) first ::
          (commonList.named key).tail := by
  have found : ownList.find key = some first := by rw [Ptree.find_named,ownEntries]; rfl
  have parent := parents first (by rw [ownEntries]; exact List.mem_cons_self)
  have deep : ∀ e ∈ copies count (edits (depth + 1) ownList), e.1 ≠ [key] :=
    fun e member => edits_parents parents _ e (mem_copies.mp member).2
  have times := Nat.mul_pos repeated (forks_pos found parent)
  have under : Ptree.under key (copies count (edits (depth + 1) ownList)) =
      copies (count * forks key ownList.children) (edits depth first) := by
    rw [under_copies,under_edits,copies_copies,found,Option.getD_some]
  refine ⟨_,times,?_⟩
  rw [copied,copied,← under]
  cases entries : commonList.named key with
  | cons e rest => exact Ptree.named_grafted_cons deep entries
  | nil =>
    have small := Ptree.size_child (Ptree.find_mem found)
    have filled := edits_filled parent (Nat.le_of_lt (Nat.lt_of_lt_of_le small enough))
    have some : Ptree.under key (copies count (edits (depth + 1) ownList)) ≠ [] := by
      rw [under]
      exact fun none => (copies_eq_nil.mp none).elim (Nat.ne_of_gt times) filled
    rw [Ptree.named_grafted_nil deep entries,if_neg some]
    rfl

theorem merged_entries_none {commonList ownList : Ptree} {key : Text} (ownEntries : ownList.named key = [])
    (count depth : Nat) : (copied count (depth + 1) commonList ownList).named key = commonList.named key := by
  have deep : ∀ e ∈ copies count (edits (depth + 1) ownList), e.1 ≠ [key] :=
    fun e member => edits_parents (by rw [ownEntries]; simp) _ e (mem_copies.mp member).2
  have under : Ptree.under key (copies count (edits (depth + 1) ownList)) = [] := by
    rw [under_copies,under_edits,forks_none ownEntries]
    simp
  rw [copied]
  cases entries : commonList.named key with
  | cons e rest => rw [Ptree.named_grafted_cons deep entries,under]; rfl
  | nil => rw [Ptree.named_grafted_nil deep entries,if_pos under]

end Kisscpp
