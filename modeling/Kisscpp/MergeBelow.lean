import Mathlib.Data.List.Find
import Kisscpp.MergeCopies
import Kisscpp.MergeFinish

namespace Kisscpp
open TextLines PropertyTree

-- No other key of these children is cut into a path that starts with this one.
def Unaliased (key : Text) (t : Ptree) : Prop := ∀ v ∈ t.children, (fragments v.1).head? = some key → v.1 = key

instance (key : Text) (t : Ptree) : Decidable (Unaliased key t) :=
  inferInstanceAs (Decidable (∀ v ∈ t.children, (fragments v.1).head? = some key → v.1 = key))

-- No key of these children is cut into a path that goes into this one.
def Clear (key inner : Text) (t : Ptree) : Prop := ∀ v ∈ t.children, ¬ [key,inner] <+: fragments v.1

instance (key inner : Text) (t : Ptree) : Decidable (Clear key inner t) :=
  inferInstanceAs (Decidable (∀ v ∈ t.children, ¬ [key,inner] <+: fragments v.1))

theorem plain_unaliased {key other : Text} (plain : Plain other) (first : (fragments other).head? = some key) :
    other = key := by
  rw [fragments_single plain] at first
  exact Option.some.inj first

theorem writes_plain (depth : Nat) (flag : Bool) (t : Ptree) :
    ∀ e ∈ writes depth flag t, e.1 ≠ [] ∧ ∀ key ∈ e.1, Plain key := by
  induction depth generalizing flag t with
  | zero => intro e member; cases member
  | succ depth ih =>
    intro e member
    obtain ⟨v,_,inWrites⟩ := List.mem_flatMap.mp member
    split at inWrites
    · rw [List.mem_singleton.mp inWrites]
      exact ⟨fragments_ne_nil v.1,fragments_plain v.1⟩
    · obtain ⟨inner,isInner,rfl⟩ := List.mem_map.mp inWrites
      refine ⟨fun none => fragments_ne_nil v.1 (List.append_eq_nil_iff.mp none).1,?_⟩
      intro key inPath
      rcases List.mem_append.mp inPath with front | deeper
      · exact fragments_plain v.1 key front
      · exact (ih _ _ inner isInner).2 key deeper

section Written
variable {key : Text} {e : List Text × Text} (long : e.1 ≠ []) (cut : ∀ key ∈ e.1, Plain key)
include long cut

theorem written_cases (t : Ptree) : written [] t e = Ptree.graft e.1 (.leaf e.2) t ∨
    (t.find (dotted e.1)).isSome ∧ written [] t e = Ptree.assign (reduced (dotted e.1)) e.2 t := by
  unfold written ptreeAddOrPut
  simp only [List.nil_append,Ptree.put,Ptree.add,fragments_dotted long cut]
  split
  · next literal =>
    split
    · exact .inr ⟨literal,rfl⟩
    · exact .inl rfl
  · exact .inl rfl

theorem clear_written {inner : Text} {t : Ptree} (clear : Clear key inner t) : Clear key inner (written [] t e) := by
  have own : ∀ other ∈ e.1, ¬ [key,inner] <+: fragments other := by
    intro other member
    rw [fragments_single (cut other member)]
    simp
  rcases written_cases long cut t with grafted | ⟨_,assigned⟩
  · rw [grafted]
    exact keys_graft own clear
  · rw [assigned]
    refine keys_assign (fun other member => own other ?_) clear
    have whole := fragments_gap (dotted e.1)
    rw [fragments_dotted long cut] at whole
    rw [whole]
    exact List.mem_append_left _ member

theorem find_written {t child : Ptree} (found : t.find key = some child) :
    ∃ now, (written [] t e).find key = some now ∧
      ∀ inner, Clear key inner t → now.find inner = (Ptree.grafted child (Ptree.under key [e])).find inner := by
  rcases written_cases long cut t with grafted | ⟨literal,assigned⟩
  · rw [grafted]
    exact ⟨_,Ptree.find_grafted [e] found,fun _ _ => rfl⟩
  · obtain ⟨v,here⟩ := Option.isSome_iff_exists.mp literal
    have free {inner : Text} (clear : Clear key inner t) : ¬ [key,inner] <+: e.1 := by
      have named := clear _ (Ptree.find_mem here)
      rwa [fragments_dotted long cut] at named
    have still {inner : Text} (clear : Clear key inner t) :
        (Ptree.grafted child (Ptree.under key [e])).find inner = child.find inner := by
      have elsewhere : Ptree.starting inner (Ptree.under key [e]) = Ptree.starting inner [] := by
        refine List.filter_eq_nil_iff.mpr fun deeper inside top => free clear ?_
        have path : key :: deeper.1 = e.1 := congrArg Prod.fst (List.mem_singleton.mp (Ptree.mem_under inside))
        obtain ⟨more,starts⟩ := List.head?_eq_some_iff.mp (by simpa using top : deeper.1.head? = some inner)
        rw [← path,starts]
        simp
      exact Ptree.find_grafted_congr rfl elsewhere
    have whole := fragments_gap (dotted e.1)
    rw [fragments_dotted long cut] at whole
    rw [assigned]
    cases walked : reduced (dotted e.1) with
    | nil => exact ⟨child,found,fun inner clear => (still clear).symm⟩
    | cons first rest =>
      by_cases same : key = first
      · subst same
        refine ⟨_,Ptree.find_force_self key _ t,fun inner clear => ?_⟩
        rw [still clear,found]
        match rest with
        | [] => rfl
        | next :: more =>
          have different : inner ≠ next := by
            rintro rfl
            apply free clear
            rw [whole,walked]
            simp
          exact Ptree.find_force_ne different _ child
      · exact ⟨child,(Ptree.find_force_ne same _ t).trans found,fun inner clear => (still clear).symm⟩

end Written

theorem find_allWritten {key : Text} {es : List (List Text × Text)} (cut : ∀ e ∈ es, e.1 ≠ [] ∧ ∀ key ∈ e.1, Plain key)
    {t child : Ptree} (found : t.find key = some child) : ∃ now, (es.foldl (written []) t).find key = some now ∧
      ∀ inner, Clear key inner t → now.find inner = (Ptree.grafted child (Ptree.under key es)).find inner := by
  induction es generalizing t child with
  | nil => exact ⟨child,found,fun _ _ => rfl⟩
  | cons e rest ih =>
    obtain ⟨long,keys⟩ := cut e List.mem_cons_self
    obtain ⟨middle,finds,same⟩ := find_written long keys found
    obtain ⟨now,last,children⟩ := ih (fun e member => cut e (List.mem_cons_of_mem _ member)) finds
    refine ⟨now,last,fun inner clear => ?_⟩
    have split : Ptree.under key (e :: rest) = Ptree.under key [e] ++ Ptree.under key rest := Ptree.under_append key [e] rest
    rw [children inner (clear_written long keys clear),Ptree.find_grafted_congr (same inner clear) rfl,split]
    simp only [Ptree.grafted,List.foldl_append]

def childWrites (depth : Nat) (flag : Bool) (t : Ptree) (v : Text × Ptree) : List (List Text × Text) :=
  if v.2.children.length = 0 then [(fragments v.1,v.2.data)]
  else (writes depth (blankEnd v.1) ((Ptree.walk (gap flag ++ reduced v.1) t).getD .empty)).map fun e =>
    (fragments v.1 ++ e.1,e.2)

theorem writes_eq (depth : Nat) (flag : Bool) (t : Ptree) :
    writes (depth + 1) flag t = t.children.flatMap (childWrites depth flag t) := rfl

theorem childWrites_front {depth : Nat} {flag : Bool} {t : Ptree} {v : Text × Ptree} :
    ∀ e ∈ childWrites depth flag t v, fragments v.1 <+: e.1 := by
  intro e member
  unfold childWrites at member
  split at member
  · cases List.mem_singleton.mp member
    exact List.prefix_rfl
  · obtain ⟨inner,_,rfl⟩ := List.mem_map.mp member
    exact List.prefix_append _ _

theorem childWrites_head {depth : Nat} {flag : Bool} {t : Ptree} {v : Text × Ptree} :
    ∀ e ∈ childWrites depth flag t v, e.1.head? = (fragments v.1).head? := by
  intro e member
  obtain ⟨more,whole⟩ := childWrites_front e member
  rw [← whole]
  exact List.head?_append_of_ne_nil _ (fragments_ne_nil v.1)

theorem childWrites_deep {depth : Nat} {flag : Bool} {t : Ptree} {v : Text × Ptree} (parent : v.2.children ≠ []) :
    ∀ e ∈ childWrites depth flag t v, 1 < e.1.length := by
  intro e member
  rw [childWrites,if_neg (by simpa using parent)] at member
  obtain ⟨inner,isInner,rfl⟩ := List.mem_map.mp member
  have front := List.length_pos_iff.mpr (fragments_ne_nil v.1)
  have further := List.length_pos_iff.mpr (writes_plain _ _ _ inner isInner).1
  rw [List.length_append]
  omega

theorem under_nothing {key : Text} {es : List (List Text × Text)} (other : ∀ e ∈ es, e.1.head? ≠ some key) :
    Ptree.under key es = [] := by
  induction es with
  | nil => rfl
  | cons e rest ih =>
    obtain ⟨path,value⟩ := e
    rw [Ptree.under_other (other _ List.mem_cons_self),ih fun e member => other e (List.mem_cons_of_mem _ member)]

theorem forks_flatMap {key : Text} {part : List (List Text × Text) → List (List Text × Text)} (nil : part [] = [])
    (append : ∀ earlier later, part (earlier ++ later) = part earlier ++ part later)
    {f : Text × Ptree → List (List Text × Text)} {es : List (List Text × Text)} {l : List (Text × Ptree)}
    (each : ∀ v ∈ l, part (f v) = if v.1 == key && v.2.children.length != 0 then es else []) :
    part (l.flatMap f) = copies (forks key l) es := by
  induction l with
  | nil => exact nil
  | cons v rest ih =>
    have count : forks key (v :: rest) = forks key rest + if v.1 == key && v.2.children.length != 0 then 1 else 0 :=
      List.countP_cons
    rw [List.flatMap_cons,append,ih fun w member => each w (List.mem_cons_of_mem _ member),count,each v List.mem_cons_self]
    split
    · rw [copies_succ]
    · rfl

section Below
variable {key : Text} (plain : Plain key) (filled : key ≠ []) (depth : Nat) {t : Ptree}
include plain

theorem fragments_own {other : Text} (cut : fragments other = [key]) : other = key :=
  fragments_injective (cut.trans (fragments_single plain).symm)

include filled

theorem under_own {v : Text × Ptree} (same : v.1 = key) : Ptree.under key (childWrites depth false t v) =
    if v.1 == key && v.2.children.length != 0 then writes depth false ((t.find key).getD .empty) else [] := by
  have named : blankEnd key = false := by
    rw [blankEnd,fragments_single plain]
    simpa using filled
  have walked : Ptree.walk (gap false ++ reduced key) t = t.find key := by
    rw [reduced_key plain,if_neg filled]
    simp [gap]
  unfold childWrites
  rw [same,fragments_single plain,named,walked]
  by_cases childless : v.2.children.length = 0
  · simp [childless]
  · have paths := fun e inWrites => (writes_plain depth false ((t.find key).getD .empty) e inWrites).1
    have below := under_deeper key paths
    simpa [childless] using below

theorem under_writes (unaliased : Unaliased key t) : Ptree.under key (writes (depth + 1) false t) =
    copies (forks key t.children) (writes depth false ((t.find key).getD .empty)) := by
  refine forks_flatMap (Ptree.under_nil key) (Ptree.under_append key) fun v member => ?_
  change Ptree.under key (childWrites depth false t v) = _
  by_cases same : v.1 = key
  · exact under_own plain filled depth same
  · have other : ∀ e ∈ childWrites depth false t v, e.1.head? ≠ some key := by
      intro e inWrites top
      exact same (unaliased v member ((childWrites_head e inWrites).symm.trans top))
    rw [under_nothing other]
    simp [same]

theorem starting_writes {inner : Text} (clear : Clear key inner t) :
    Ptree.starting inner (Ptree.under key (writes (depth + 1) false t)) =
      Ptree.starting inner (copies (forks key t.children) (writes depth false ((t.find key).getD .empty))) := by
  have each : ∀ v ∈ t.children, Ptree.starting inner (Ptree.under key (childWrites depth false t v)) =
      if v.1 == key && v.2.children.length != 0 then
        Ptree.starting inner (writes depth false ((t.find key).getD .empty)) else [] := by
    intro v member
    by_cases same : v.1 = key
    · rw [under_own plain filled depth same]
      split <;> rfl
    · have nothing : Ptree.starting inner (Ptree.under key (childWrites depth false t v)) = [] := by
        refine List.filter_eq_nil_iff.mpr fun e inside top => ?_
        obtain ⟨more,starts⟩ := List.head?_eq_some_iff.mp (by simpa using top : e.1.head? = some inner)
        have front := childWrites_front _ (Ptree.mem_under inside)
        rw [starts] at front
        cases cut : fragments v.1 with
        | nil => exact fragments_ne_nil v.1 cut
        | cons first rest =>
          rw [cut,List.cons_prefix_cons] at front
          obtain ⟨rfl,deeper⟩ := front
          cases rest with
          | nil => exact same (fragments_own plain cut)
          | cons next others =>
            obtain ⟨rfl,_⟩ := List.cons_prefix_cons.mp deeper
            exact clear v member (by rw [cut]; simp)
      rw [nothing]
      simp [same]
  rw [starting_copies]
  have append : ∀ earlier later, Ptree.starting inner (Ptree.under key (earlier ++ later)) =
      Ptree.starting inner (Ptree.under key earlier) ++ Ptree.starting inner (Ptree.under key later) := by
    intro earlier later
    rw [Ptree.under_append,Ptree.starting_append]
  exact @forks_flatMap key (fun es => Ptree.starting inner (Ptree.under key es)) rfl append _ _ _ each

end Below

-- Where no child is a value, some child's key leads to a node with children:
-- the first key that leads on is that of a child, and so leads on itself.
theorem leads_onward {flag : Bool} {t : Ptree} (passable : Passable flag t) (parent : t.children ≠ [])
    (parents : ∀ v ∈ t.children, v.2.children ≠ []) :
    ∃ v ∈ t.children, ∃ found, Ptree.walk (gap flag ++ reduced v.1) t = some found ∧ found.children ≠ [] := by
  obtain ⟨v,rest,starts⟩ := List.exists_cons_of_ne_nil parent
  have member : v ∈ t.children := by rw [starts]; exact List.mem_cons_self
  obtain ⟨found,here,_⟩ := passable.parts v member (parents v member)
  cases flag with
  | true =>
    obtain ⟨u,nameless,_⟩ := Option.bind_eq_some_iff.mp here
    have inTree := Ptree.find_mem nameless
    exact ⟨_,inTree,u,(Ptree.bind_walk_nil _).trans nameless,parents _ inTree⟩
  | false =>
    have first : Ptree.walk (reduced v.1) t = some found := here
    cases cut : reduced v.1 with
    | nil =>
      refine ⟨v,member,t,?_,parent⟩
      simp [gap,cut]
    | cons key further =>
      rw [cut] at first
      obtain ⟨u,finds,_⟩ := Option.bind_eq_some_iff.mp first
      have inTree := Ptree.find_mem finds
      have plain : Plain key := by
        apply fragments_plain v.1
        rw [fragments_gap,cut]
        simp
      by_cases blank : key = []
      · subst blank
        exact ⟨_,inTree,t,rfl,parent⟩
      · refine ⟨_,inTree,u,?_,parents _ inTree⟩
        simp [gap,reduced_key plain,blank,finds]

theorem writes_filled {flag : Bool} {t : Ptree} (passable : Passable flag t) (parent : t.children ≠ []) {depth : Nat}
    (enough : descent flag t ≤ depth) : writes depth flag t ≠ [] := by
  induction depth generalizing flag t with
  | zero => exact absurd enough (Nat.not_le.mpr (descent_pos _ _))
  | succ depth ih =>
    have shown : ∀ v ∈ t.children, childWrites depth flag t v ≠ [] → writes (depth + 1) flag t ≠ [] := by
      intro v member some none
      exact some (List.flatMap_eq_nil_iff.mp none v member)
    by_cases leaf : ∃ v ∈ t.children, v.2.children = []
    · obtain ⟨v,member,childless⟩ := leaf
      apply shown v member
      simp [childWrites,childless]
    · have parents : ∀ v ∈ t.children, v.2.children ≠ [] := fun v member childless => leaf ⟨v,member,childless⟩
      obtain ⟨v,member,found,walked,more⟩ := leads_onward passable parent parents
      obtain ⟨next,here,passes⟩ := passable.parts v member (parents v member)
      cases walked.symm.trans here
      have less := descent_walk here
      have some := ih passes more (by omega)
      apply shown v member
      unfold childWrites
      rw [if_neg (by simpa using parents v member),here]
      simpa using some

theorem passable_below {key : Text} (plain : Plain key) (filled : key ≠ []) {t child : Ptree} (passable : Passable false t)
    (found : t.find key = some child) : Passable false child := by
  by_cases childless : child.children = []
  · constructor
    · simp [childless]
    · simp [childless]
  · obtain ⟨next,here,passes⟩ := passable.parts _ (Ptree.find_mem found) childless
    have walked : Ptree.walk (gap false ++ reduced key) t = some child := by
      rw [reduced_key plain,if_neg filled]
      simp [gap,found]
    cases here.symm.trans walked
    have named : blankEnd key = false := by
      rw [blankEnd,fragments_single plain]
      simpa using filled
    rwa [named] at passes

-- A child that is merged somewhere: a value, or a node whose key leads to a
-- node with children.
def leads (t : Ptree) (v : Text × Ptree) : Bool :=
  v.2.children.isEmpty || !((Ptree.walk (reduced v.1) t).getD .empty).children.isEmpty

-- The first such child whose key, cut at its dots, starts with this one.
def spelled (key : Text) (t : Ptree) : Option (Text × Ptree) :=
  t.children.find? fun v => (fragments v.1).head? == some key && leads t v

theorem spelled_some {key : Text} {t : Ptree} {v : Text × Ptree} (found : spelled key t = some v) :
    v ∈ t.children ∧ (fragments v.1).head? = some key ∧ leads t v = true := by
  rw [spelled] at found
  have both := List.find?_some found
  simp only [Bool.and_eq_true,beq_iff_eq] at both
  exact ⟨List.mem_of_find?_eq_some found,both⟩

theorem find_flatMap {p : β → Bool} {q : α → Bool} {f : α → List β} {l : List α} (agree : ∀ v ∈ l, ∀ e ∈ f v, p e = q v) :
    (l.flatMap f).find? p = (l.find? fun v => q v && !(f v).isEmpty).bind fun v => (f v).head? := by
  induction l with
  | nil => rfl
  | cons v rest ih =>
    rw [List.flatMap_cons,List.find?_append,ih fun w member => agree w (List.mem_cons_of_mem _ member)]
    cases made : f v with
    | nil => simp [made]
    | cons e others =>
      have own : p e = q v := agree v List.mem_cons_self e (by rw [made]; exact List.mem_cons_self)
      cases holds : q v with
      | true => simp [made,own.trans holds,holds]
      | false =>
        have skipped : (e :: others).find? p = none := by
          apply List.find?_eq_none.mpr
          intro e' member
          rw [agree v List.mem_cons_self e' (by rwa [made]),holds]
          exact Bool.false_ne_true
        rw [skipped]
        simp [holds]

theorem childWrites_leads {t : Ptree} (passable : Passable false t) {depth : Nat} (enough : descent false t ≤ depth + 1)
    {v : Text × Ptree} (member : v ∈ t.children) : (childWrites depth false t v).isEmpty = !leads t v := by
  unfold childWrites leads
  by_cases childless : v.2.children = []
  · simp [childless]
  · obtain ⟨next,here,passes⟩ := passable.parts v member childless
    have less := descent_walk here
    have walked : Ptree.walk (reduced v.1) t = some next := here
    rw [if_neg (by simpa using childless),here,walked,Option.getD_some,List.isEmpty_map,
      List.isEmpty_eq_false_iff.mpr childless]
    by_cases parent : next.children = []
    · have nothing : writes depth (blankEnd v.1) next = [] := by
        cases depth with
        | zero => rfl
        | succ depth => simp [writes_eq,parent]
      simp [nothing,parent]
    · have some := writes_filled passes parent (show descent (blankEnd v.1) next ≤ depth by omega)
      rw [List.isEmpty_eq_false_iff.mpr some,List.isEmpty_eq_false_iff.mpr parent]
      simp

section First
variable {key : Text} {t : Ptree} (passable : Passable false t) {depth : Nat} (enough : descent false t ≤ depth + 1)
include passable enough

theorem first_writes : (writes (depth + 1) false t).find? (fun e => e.1.head? == some key) =
    (spelled key t).bind fun v => (childWrites depth false t v).head? := by
  have agree : ∀ v ∈ t.children, ∀ e ∈ childWrites depth false t v,
      (e.1.head? == some key) = ((fragments v.1).head? == some key) := by
    intro v _ e inWrites
    rw [childWrites_head e inWrites]
  rw [writes_eq,find_flatMap agree,spelled]
  congr 1
  apply List.find?_congr
  intro v member
  rw [childWrites_leads passable enough member,Bool.not_not]

theorem first_write {v : Text × Ptree} (found : spelled key t = some v) :
    ∃ e, (writes (depth + 1) false t).find? (fun e => e.1.head? == some key) = some e ∧
      (e.1.length = 1 ↔ v.2.children = [] ∧ Plain v.1) ∧ (v.2.children = [] → e.2 = v.2.data) := by
  obtain ⟨member,_,leading⟩ := spelled_some found
  have filled := childWrites_leads passable enough member
  rw [first_writes passable enough,found,Option.bind_some]
  by_cases childless : v.2.children = []
  · have own : childWrites depth false t v = [(fragments v.1,v.2.data)] := by simp [childWrites,childless]
    refine ⟨_,by rw [own]; rfl,?_,fun _ => rfl⟩
    by_cases plain : Plain v.1
    · simp [fragments_single plain,childless,plain]
    · have long := fragments_long plain
      refine iff_of_false ?_ fun both => plain both.2
      simp only
      omega
  · cases begins : childWrites depth false t v with
    | nil =>
      rw [begins,leading] at filled
      cases filled
    | cons e others =>
      refine ⟨e,rfl,?_,fun none => absurd none childless⟩
      have inWrites : e ∈ childWrites depth false t v := by rw [begins]; exact List.mem_cons_self
      have deep := childWrites_deep childless e inWrites
      exact iff_of_false (by omega) fun both => childless both.1

end First

end Kisscpp
