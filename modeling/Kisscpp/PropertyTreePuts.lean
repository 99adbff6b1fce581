import Mathlib.Data.Char
import Mathlib.Data.List.Induction
import Mathlib.Data.List.Lex
import Kisscpp.PropertyTree

namespace PropertyTree
open TextLines

theorem reduced_filled {path : Text} (filled : path ≠ []) : reduced path ≠ [] := fun none => filled (reduced_nil none)

theorem reduced_front (path : Text) : reduced path <+: fragments path := by
  unfold reduced
  split
  · exact List.dropLast_prefix _
  · exact List.prefix_rfl

theorem fragments_extend {first second : Text} (front : fragments first <+: fragments second) :
    second = first ∨ ∃ rest, second = first ++ '.' :: rest := by
  obtain ⟨more,split⟩ := front
  rcases more with _ | ⟨key,others⟩
  · rw [List.append_nil] at split
    exact .inl (fragments_injective split.symm)
  · have plain : ∀ part ∈ key :: others, Plain part := fun part member =>
      fragments_plain second part (split ▸ List.mem_append_right _ member)
    refine .inr ⟨dotted (key :: others),fragments_injective ?_⟩
    rw [fragments_join,fragments_dotted (by simp) plain,split]

theorem extend_lt (front : Text) (c : Char) (rest : Text) : front < front ++ c :: rest := by
  have longer : front ++ [] < front ++ c :: rest := List.append_left_lt (List.nil_lt_cons _ _)
  rwa [List.append_nil] at longer

theorem blank_dot {path : Text} (filled : path ≠ []) (blank : reduced path ≠ fragments path) :
    ∃ front, path = front ++ ['.'] ∧ reduced path = fragments front := by
  have last : (fragments path).getLast? = some [] := by
    by_contra named
    exact blank (if_neg named)
  have cut := fragments_cut last
  have plain : ∀ key ∈ reduced path, Plain key := fun key member =>
    fragments_plain path key (cut ▸ List.mem_append_left _ member)
  have whole := fragments_dotted (reduced_filled filled) plain
  refine ⟨dotted (reduced path),fragments_injective ?_,whole.symm⟩
  rw [fragments_join,whole,cut]
  rfl

namespace Ptree

-- No node has data and children.
mutual
def writable : Ptree → Bool
  | .node data children => (data.isEmpty || children.isEmpty) && writableChildren children

def writableChildren : List (Text × Ptree) → Bool
  | [] => true
  | (_,child) :: rest => writable child && writableChildren rest
end

theorem writable_node {t : Ptree} : writable t = true ↔
    (t.data = [] ∨ t.children = []) ∧ ∀ v ∈ t.children, writable v.2 = true := by
  obtain ⟨data,children⟩ := t
  have below : ∀ children, writableChildren children = true ↔ ∀ v ∈ children, writable v.2 = true := by
    intro children
    induction children with
    | nil => simp [writableChildren]
    | cons v rest ih => simp [writableChildren,ih]
  simp [writable,below]

theorem writable_find {key : Text} {t child : Ptree} (writes : writable t = true) (found : t.find key = some child) :
    writable child = true := (writable_node.mp writes).2 _ (find_mem found)

theorem writable_walk {path : List Text} {t found : Ptree} (writes : writable t = true) (here : walk path t = some found) :
    writable found = true := by
  induction path generalizing t with
  | nil =>
    cases here
    exact writes
  | cons key rest ih =>
    obtain ⟨child,foundChild,below⟩ := Option.bind_eq_some_iff.mp here
    exact ih (writable_find writes foundChild) below

theorem writable_above {above below : List Text} (longer : below ≠ []) {t upper lower : Ptree} (writes : writable t = true)
    (here : walk above t = some upper) (deeper : walk (above ++ below) t = some lower) : upper.data = [] := by
  rw [walk_append,here,Option.bind_some] at deeper
  cases below with
  | nil => exact absurd rfl longer
  | cons key rest =>
    obtain ⟨child,found,_⟩ := Option.bind_eq_some_iff.mp deeper
    rcases (writable_node.mp (writable_walk writes here)).1 with plain | childless
    · exact plain
    · have member := find_mem found
      rw [childless] at member
      cases member

theorem walk_push {key first : Text} {others : List Text} {value : Text} {t found : Ptree}
    (here : walk (first :: others) (graft [key] (leaf value) t) = some found) :
    walk (first :: others) t = some found ∨ first :: others = [key] := by
  rw [walk_cons,find_push] at here
  cases there : t.find first with
  | some child =>
    rw [there] at here
    exact .inl (by rw [walk_cons,there]; exact here)
  | none =>
    rw [there,Option.none_or] at here
    split at here
    · next same =>
      subst same
      cases others with
      | nil => exact .inr rfl
      | cons second more => cases here
    · cases here

theorem walk_child {first : Text} {others : List Text} {t old : Ptree}
    (before : walk others ((t.find first).getD empty) = some old) :
    walk (first :: others) t = some old ∨ (others = [] ∧ old = empty) := by
  cases there : t.find first with
  | some child =>
    rw [there] at before
    exact .inl (by rw [walk_cons,there]; exact before)
  | none =>
    rw [there] at before
    cases others with
    | nil => exact .inr ⟨rfl,(Option.some.inj before).symm⟩
    | cons second more => cases before

theorem walk_graft_cases (path keys : List Text) (value : Text) {t found : Ptree}
    (here : walk keys (graft path (leaf value) t) = some found) :
    (∃ old, walk keys t = some old ∧ old.data = found.data) ∨ (keys <+: path ∧ (keys = path ∨ found.data = [])) := by
  induction path generalizing keys t with
  | nil => exact .inl ⟨found,here,rfl⟩
  | cons key rest ih =>
    cases keys with
    | nil =>
      cases here
      refine .inl ⟨t,rfl,?_⟩
      cases rest <;> rfl
    | cons first others =>
      cases rest with
      | nil =>
        rcases walk_push here with old | whole
        · exact .inl ⟨found,old,rfl⟩
        · exact .inr ⟨whole ▸ List.prefix_rfl,.inl whole⟩
      | cons next further =>
        rw [walk_cons,graft] at here
        by_cases same : first = key
        · subst same
          rw [find_force_self,Option.bind_some] at here
          rcases ih others here with ⟨old,before,equal⟩ | ⟨front,made⟩
          · rcases walk_child before with there | ⟨rfl,rfl⟩
            · exact .inl ⟨old,there,equal⟩
            · exact .inr ⟨⟨next :: further,rfl⟩,.inr equal.symm⟩
          · refine .inr ⟨(List.prefix_cons_inj first).mpr front,made.imp_left ?_⟩
            intro whole
            rw [whole]
        · rw [find_force_ne same] at here
          exact .inl ⟨found,by rw [walk_cons]; exact here,rfl⟩

theorem modifyFirst_mem {key : Text} {f : Ptree → Ptree} {children : List (Text × Ptree)} {v : Text × Ptree}
    (member : v ∈ modifyFirst key f children) :
    v ∈ children ∨ v.2 = f ((((children.find? fun v => v.1 == key).map Prod.snd)).getD empty) := by
  induction children with
  | nil =>
    rw [List.mem_singleton.mp member]
    exact .inr rfl
  | cons head rest ih =>
    unfold modifyFirst at member
    split at member
    · next here =>
      rcases List.mem_cons.mp member with rfl | later
      · exact .inr (by simp [here])
      · exact .inl (List.mem_cons_of_mem _ later)
    · next other =>
      rcases List.mem_cons.mp member with rfl | later
      · exact .inl List.mem_cons_self
      · rcases ih later with old | made
        · exact .inl (List.mem_cons_of_mem _ old)
        · rw [List.find?_cons_of_neg (by simpa using other)]
          exact .inr made

theorem writable_graft (path : List Text) (value : Text) {t : Ptree} (writes : writable t = true)
    (blank : ∀ above below found, path = above ++ below → below ≠ [] → walk above t = some found → found.data = []) :
    writable (graft path (leaf value) t) = true := by
  induction path generalizing t with
  | nil => exact writes
  | cons key rest ih =>
    have root : t.data = [] := blank [] (key :: rest) t rfl (by simp) rfl
    have children := (writable_node.mp writes).2
    cases rest with
    | nil =>
      refine writable_node.mpr ⟨.inl root,?_⟩
      intro v member
      rcases List.mem_append.mp member with old | new
      · exact children v old
      · rw [List.mem_singleton.mp new]
        exact writable_node.mpr ⟨.inr rfl,fun _ none => by cases none⟩
    | cons next further =>
      refine writable_node.mpr ⟨.inl root,?_⟩
      intro v member
      rcases modifyFirst_mem member with old | made
      · exact children v old
      · rw [made]
        change writable (graft (next :: further) (leaf value) ((t.find key).getD empty)) = true
        cases there : t.find key with
        | some child =>
          refine ih (writable_find writes there) ?_
          intro above below found split longer here
          refine blank (key :: above) below found (by rw [split]; rfl) longer ?_
          rw [walk_cons,there]
          exact here
        | none =>
          refine ih (writable_node.mpr ⟨.inl rfl,fun _ none => by cases none⟩) ?_
          intro above below found split longer here
          cases above with
          | nil =>
            cases here
            rfl
          | cons => cases here

theorem put_others {name other before : Text} (value : Text) {t : Ptree} (different : reduced other ≠ reduced name)
    (reads : t.get other = .ok before) : (t.put name value).get other = .ok before := by
  obtain ⟨found,here,rfl⟩ := get_reads.mp reads
  rw [put]
  split
  · obtain ⟨kept,there,same⟩ := walk_assign_ne (reduced name) _ value different here
    rw [get_walked there,same]
  · obtain ⟨kept,there,same⟩ := walk_graft (fragments name) _ (.leaf value) here
    rw [add,get_walked there,same]

theorem put_same {name value : Text} {t : Ptree} (reads : t.get name = .ok value) : t.put name value = t := by
  obtain ⟨found,here,rfl⟩ := get_reads.mp reads
  rw [put,if_pos (by rw [here]; rfl)]
  exact assign_same here

def puts (es : List (Text × Text)) (t : Ptree) : Ptree := es.foldl (fun t e => t.put e.1 e.2) t

theorem puts_snoc (es : List (Text × Text)) (e : Text × Text) (t : Ptree) :
    puts (es ++ [e]) t = (puts es t).put e.1 e.2 := by
  simp only [puts,List.foldl_append,List.foldl_cons,List.foldl_nil]

theorem walk_put_absent {keys : List Text} {path : Text} (aside : ¬ keys <+: fragments path) (value : Text) {t : Ptree}
    (absent : walk keys t = none) : walk keys (t.put path value) = none := by
  cases here : walk keys (t.put path value) with
  | none => rfl
  | some found =>
    rw [put] at here
    split at here
    · next there =>
      have same := read_assign_ne (reduced path) keys value (fun equal => aside (equal ▸ reduced_front path)) there
      rw [here,absent] at same
      cases same
    · rcases walk_graft_cases _ keys value here with ⟨old,before,_⟩ | ⟨front,_⟩
      · rw [absent] at before
        cases before
      · exact absurd front aside

-- What a tree has after puts of paths that it has nothing of: nodes on their
-- ways, and data at their ends.
structure Grown (base : Ptree) (done : List (Text × Text)) (t : Ptree) : Prop where
  writes : writable t = true
  nodes : ∀ keys found, walk keys t = some found → (walk keys base).isSome = true ∨ ∃ e ∈ done, keys <+: fragments e.1
  filled : ∀ keys found, walk keys t = some found → found.data ≠ [] →
    (∃ old, walk keys base = some old ∧ old.data ≠ []) ∨ ∃ e ∈ done, keys = reduced e.1
  reads : ∀ e ∈ done, t.get e.1 = .ok e.2

-- No path goes on from another, and one that ends in a dot says again what the
-- one without the dot says.
structure Apart (es : List (Text × Text)) : Prop where
  named : ∀ e ∈ es, e.1 ≠ []
  again : ∀ e ∈ es, ∀ front, e.1 = front ++ ['.'] → (front,e.2) ∈ es
  below : ∀ e ∈ es, ∀ other ∈ es, ∀ rest, other.1 = e.1 ++ '.' :: rest → rest = []

theorem met_longer {property : Text × Text → Prop} {done : List (Text × Text)} (more : List (Text × Text))
    (met : ∃ e ∈ done, property e) : ∃ e ∈ done ++ more, property e := by
  obtain ⟨e,member,holds⟩ := met
  exact ⟨e,List.mem_append_left _ member,holds⟩

theorem grown_base {base : Ptree} (writes : writable base = true) : Grown base [] base :=
  ⟨writes,fun _ _ here => .inl (by rw [here]; rfl),fun _ found here data => .inl ⟨found,here,data⟩,fun _ none => by cases none⟩

section Apart
variable {es : List (Text × Text)} (apart : Apart es)
include apart

theorem Apart.whole {e : Text × Text} (member : e ∈ es) : ∃ front ∈ es, reduced e.1 = fragments front.1 := by
  by_cases cut : reduced e.1 = fragments e.1
  · exact ⟨e,member,cut⟩
  · obtain ⟨front,dot,same⟩ := blank_dot (apart.named e member) cut
    exact ⟨_,apart.again e member front dot,same⟩

theorem Grown.root {base t : Ptree} (grown : Grown base es t) (root : base.data = []) : t.data = [] := by
  by_contra data
  rcases grown.filled [] t rfl data with ⟨old,here,oldData⟩ | ⟨e,member,none⟩
  · cases here
    exact oldData root
  · exact reduced_filled (apart.named e member) none.symm

variable {base t : Ptree} (root : base.data = [])
  (clear : ∀ e ∈ es, ∀ keys, keys <+: fragments e.1 → keys ≠ [] → walk keys base = none) {done : List (Text × Text)}
  {e : Text × Text} (member : e ∈ es) (earlier : ∀ k ∈ done, k ∈ es ∧ k.1 < e.1)
  (complete : ∀ k ∈ es, k.1 < e.1 → k ∈ done) (grown : Grown base done t)
include member grown

theorem Apart.put_again (complete : ∀ k ∈ es, k.1 < e.1 → k ∈ done) (blank : reduced e.1 ≠ fragments e.1) :
    t.get e.1 = .ok e.2 := by
  obtain ⟨front,dot,same⟩ := blank_dot (apart.named e member) blank
  have known := apart.again e member front dot
  have cut : reduced front = fragments front := by
    by_contra blankFront
    obtain ⟨shorter,dotFront,_⟩ := blank_dot (apart.named _ known) blankFront
    change front = shorter ++ ['.'] at dotFront
    have twice : e.1 = shorter ++ '.' :: ['.'] := by rw [dot,dotFront,List.append_assoc]; rfl
    exact absurd (apart.below _ (apart.again _ known shorter dotFront) e member _ twice) (by simp)
  obtain ⟨found,here,data⟩ := get_reads.mp (grown.reads _ (complete _ known (dot ▸ extend_lt front '.' [])))
  exact get_reads.mpr ⟨found,by rw [same,← cut]; exact here,data⟩

include root clear earlier

omit apart root in
theorem absent_new (cut : reduced e.1 = fragments e.1) : walk (reduced e.1) t = none := by
  cases here : walk (reduced e.1) t with
  | none => rfl
  | some found =>
    rw [cut] at here
    rcases grown.nodes _ _ here with old | ⟨k,inDone,front⟩
    · rw [clear e member _ List.prefix_rfl (fragments_ne_nil e.1)] at old
      cases old
    · have before := (earlier k inDone).2
      rcases fragments_extend front with same | ⟨rest,longer⟩
      · exact absurd before (same ▸ lt_irrefl _)
      · exact absurd before (longer ▸ lt_asymm (extend_lt e.1 '.' rest))

theorem Apart.way_blank (cut : reduced e.1 = fragments e.1) {above below : List Text} (split : fragments e.1 = above ++ below)
    (longer : below ≠ []) {found : Ptree} (here : walk above t = some found) : found.data = [] := by
  by_contra data
  rcases grown.filled _ _ here data with ⟨old,before,oldData⟩ | ⟨k,inDone,whole⟩
  · cases above with
    | nil =>
      cases before
      exact oldData root
    | cons first others =>
      rw [clear e member _ ⟨below,split.symm⟩ (by simp)] at before
      cases before
  · obtain ⟨front,inEs,same⟩ := apart.whole (earlier k inDone).1
    rw [whole,same] at split
    rcases fragments_extend ⟨below,split.symm⟩ with equal | ⟨rest,further⟩
    · rw [equal] at split
      exact longer (List.append_right_eq_self.mp split.symm)
    · cases apart.below front inEs e member rest further
      rw [further,reduced_below,fragments_join] at cut
      exact absurd (List.append_cancel_left cut) (by decide)

theorem Apart.put_new (cut : reduced e.1 = fragments e.1) : Grown base (done ++ [e]) (t.put e.1 e.2) := by
  have absent := absent_new clear member earlier grown cut
  have made : t.put e.1 e.2 = graft (fragments e.1) (leaf e.2) t := by
    rw [put,if_neg (by rw [absent]; simp),add]
  refine ⟨?_,?_,?_,?_⟩
  · rw [made]
    exact writable_graft _ _ grown.writes fun above below found split longer here =>
      apart.way_blank root clear member earlier grown cut split longer here
  · intro keys found here
    rw [made] at here
    rcases walk_graft_cases _ _ _ here with ⟨old,before,_⟩ | ⟨front,_⟩
    · exact (grown.nodes keys old before).imp_right (met_longer [e])
    · exact .inr ⟨e,by simp,front⟩
  · intro keys found here data
    rw [made] at here
    rcases walk_graft_cases _ _ _ here with ⟨old,before,same⟩ | ⟨_,whole | blank⟩
    · exact (grown.filled keys old before (same ▸ data)).imp_right (met_longer [e])
    · exact .inr ⟨e,by simp,whole.trans cut.symm⟩
    · exact absurd blank data
  · intro k inAll
    rcases List.mem_append.mp inAll with inDone | last
    · have reads := grown.reads k inDone
      refine put_others e.2 ?_ reads
      intro same
      obtain ⟨found,here,_⟩ := get_reads.mp reads
      rw [same,absent] at here
      cases here
    · rw [List.mem_singleton.mp last]
      exact get_put cut e.2 t

include complete

theorem Apart.grown_put : Grown base (done ++ [e]) (t.put e.1 e.2) := by
  by_cases cut : reduced e.1 = fragments e.1
  · exact apart.put_new root clear member earlier grown cut
  · have reads := apart.put_again member grown complete cut
    rw [put_same reads]
    refine ⟨grown.writes,?_,?_,?_⟩
    · intro keys found here
      exact (grown.nodes keys found here).imp_right (met_longer [e])
    · intro keys found here data
      exact (grown.filled keys found here data).imp_right (met_longer [e])
    · intro k inAll
      rcases List.mem_append.mp inAll with inDone | last
      · exact grown.reads k inDone
      · rw [List.mem_singleton.mp last]
        exact reads

omit member earlier complete grown in
theorem Apart.grown_puts (sorted : es.Pairwise fun e later => e.1 < later.1) (writes : writable base = true) :
    Grown base es (puts es base) := by
  have step : ∀ done rest, es = done ++ rest → Grown base done (puts done base) := by
    intro done
    induction done using List.reverseRecOn with
    | nil =>
      intro rest _
      exact grown_base writes
    | append_singleton done e ih =>
      intro rest split
      rw [List.append_assoc] at split
      rw [puts_snoc]
      have order := sorted
      rw [split] at order
      obtain ⟨_,behind,across⟩ := List.pairwise_append.mp order
      have least := (List.pairwise_cons.mp behind).1
      refine apart.grown_put root clear (split ▸ by simp) ?_ ?_ (ih _ split)
      · intro k inDone
        exact ⟨split ▸ List.mem_append_left _ inDone,across k inDone e (by simp)⟩
      · intro k inEs before
        rw [split] at inEs
        rcases List.mem_append.mp inEs with inDone | later
        · exact inDone
        · rcases List.mem_cons.mp later with rfl | inRest
          · exact absurd before (lt_irrefl _)
          · exact absurd before (lt_asymm (least k inRest))
  exact step es [] (List.append_nil es).symm

end Apart

theorem puts_absent {keys : List Text} {ks : List (Text × Text)} (aside : ∀ k ∈ ks, ¬ keys <+: fragments k.1) {t : Ptree}
    (absent : walk keys t = none) : walk keys (puts ks t) = none := by
  induction ks generalizing t with
  | nil => exact absent
  | cons k rest ih =>
    exact ih (fun other member => aside other (List.mem_cons_of_mem _ member))
      (walk_put_absent (aside k List.mem_cons_self) k.2 absent)

theorem puts_others {name value : Text} {ks : List (Text × Text)} (different : ∀ k ∈ ks, reduced name ≠ reduced k.1)
    {t : Ptree} (reads : t.get name = .ok value) : (puts ks t).get name = .ok value := by
  induction ks generalizing t with
  | nil => exact reads
  | cons k rest ih =>
    exact ih (fun other member => different other (List.mem_cons_of_mem _ member))
      (put_others k.2 (different k List.mem_cons_self) reads)

theorem put_blank {path front : Text} (dot : path = front ++ ['.']) (value : Text) {t : Ptree}
    (absent : walk (fragments front) t = none) : (t.put path value).get path = .ok [] := by
  have parts : fragments path = fragments front ++ [[]] := by
    rw [dot]
    exact fragments_join front []
  have cut : reduced path = fragments front := by
    rw [reduced,parts,if_pos (by simp),List.dropLast_concat]
  obtain ⟨made,here,blank⟩ := walk_graft_parent (fragments_ne_nil front) [] (leaf value) absent
  rw [put,cut,if_neg (by rw [absent]; simp),add,parts]
  exact get_reads.mpr ⟨made,by rw [cut]; exact here,blank⟩

section Reads
variable {es : List (Text × Text)} {t : Ptree} (writes : writable t = true) (reads : ∀ e ∈ es, t.get e.1 = .ok e.2)
  (filled : ∀ e ∈ es, e.2 ≠ [])
include writes reads filled

theorem reads_aside {e other : Text × Text} (first : e ∈ es) (second : other ∈ es) {more : List Text} (longer : more ≠ []) :
    reduced other.1 ≠ reduced e.1 ++ more := by
  intro split
  obtain ⟨upper,here,data⟩ := get_reads.mp (reads e first)
  obtain ⟨lower,deeper,_⟩ := get_reads.mp (reads other second)
  rw [split] at deeper
  exact filled e first (data ▸ writable_above longer writes here deeper)

theorem reads_below {e other : Text × Text} (first : e ∈ es) (second : other ∈ es) {rest : Text}
    (further : other.1 = e.1 ++ '.' :: rest) : rest = [] := by
  by_contra more
  obtain ⟨cut,parts⟩ := reduced_front e.1
  refine reads_aside writes reads filled first second ?_ (by rw [further,reduced_below,← parts,List.append_assoc])
  intro none
  exact reduced_filled more (List.append_eq_nil_iff.mp none).2

theorem reads_known {e : Text × Text} (inside : e ∈ es) (named : ∀ e ∈ es, e.1 ≠ []) {front value : Text}
    (dot : e.1 = front ++ ['.']) (known : (front,value) ∈ es) : value = e.2 := by
  have cut : reduced e.1 = fragments front := by
    rw [dot,reduced_below]
    exact List.append_nil _
  have whole : reduced front = fragments front := by
    by_contra blank
    obtain ⟨shorter,dotFront,same⟩ := blank_dot (named _ known) blank
    change front = shorter ++ ['.'] at dotFront
    have parts : fragments front = reduced front ++ [[]] := by
      rw [same,dotFront]
      exact fragments_join shorter []
    exact reads_aside writes reads filled known inside (List.cons_ne_nil [] []) (cut.trans parts)
  obtain ⟨found,here,data⟩ := get_reads.mp (reads _ known)
  obtain ⟨other,there,same⟩ := get_reads.mp (reads e inside)
  rw [cut,← whole] at there
  change walk (reduced front) t = some found at here
  rw [here] at there
  cases there
  exact data.symm.trans same

end Reads

-- In a sorted list a path that ends in a dot finds nothing before it, and no
-- later path leads to where it does, unless the one without the dot is listed.
section Alone
variable {es before after : List (Text × Text)} {e : Text × Text} (split : es = before ++ e :: after)
  (sorted : es.Pairwise fun e later => e.1 < later.1) {front : Text} (dot : e.1 = front ++ ['.'])
  (other : ∀ k ∈ es, k.1 ≠ front)
include split sorted dot other

theorem alone_absent {base : Ptree} (clear : walk (fragments front) base = none) :
    walk (fragments front) (puts before base) = none := by
  rw [split] at sorted
  have across := (List.pairwise_append.mp sorted).2.2
  refine puts_absent ?_ clear
  intro k member onWay
  have earlier := across k member e (by simp)
  rcases fragments_extend onWay with same | ⟨rest,longer⟩
  · exact other k (split ▸ List.mem_append_left _ member) same
  · cases rest with
    | nil => exact absurd earlier (by rw [longer,dot]; exact lt_irrefl _)
    | cons c others =>
      have behindDot : e.1 < k.1 := by
        rw [longer,dot,show front ++ '.' :: c :: others = (front ++ ['.']) ++ c :: others by simp]
        exact extend_lt _ c others
      exact absurd earlier (lt_asymm behindDot)

theorem alone_later (named : ∀ e ∈ es, e.1 ≠ []) {k : Text × Text} (later : k ∈ after) : fragments front ≠ reduced k.1 := by
  intro same
  have inEs : k ∈ es := split ▸ List.mem_append_right _ (List.mem_cons_of_mem _ later)
  rw [split] at sorted
  have least := (List.pairwise_cons.mp (List.pairwise_append.mp sorted).2.1).1
  by_cases whole : reduced k.1 = fragments k.1
  · exact other k inEs (fragments_injective (whole.symm.trans same.symm))
  · obtain ⟨shorter,dotK,ends⟩ := blank_dot (named k inEs) whole
    have equal := fragments_injective (same.trans ends)
    exact absurd (least k later) (by rw [dotK,← equal,← dot]; exact lt_irrefl _)

end Alone

theorem reads_again {es before after last : List (Text × Text)} {e : Text × Text} {t base : Ptree}
    (writes : writable t = true) (reads : ∀ e ∈ es, t.get e.1 = .ok e.2) (filled : ∀ e ∈ es, e.2 ≠ [])
    (split : es = before ++ e :: after) (sorted : es.Pairwise fun e later => e.1 < later.1) (named : ∀ e ∈ es, e.1 ≠ [])
    (clear : walk (reduced e.1) base = none) (apart : ∀ k ∈ last, reduced e.1 ≠ reduced k.1)
    (made : t = puts (es ++ last) base) {front : Text} (dot : e.1 = front ++ ['.']) : (front,e.2) ∈ es := by
  have inside : e ∈ es := split ▸ by simp
  by_contra missing
  have other : ∀ k ∈ es, k.1 ≠ front := by
    intro k member same
    have known : (front,k.2) ∈ es := same ▸ member
    rw [reads_known writes reads filled inside named dot known] at known
    exact missing known
  have cut : reduced e.1 = fragments front := by
    rw [dot,reduced_below]
    exact List.append_nil _
  have absent := alone_absent split sorted dot other (cut ▸ clear)
  have different : ∀ k ∈ after ++ last, reduced e.1 ≠ reduced k.1 := by
    intro k member
    rcases List.mem_append.mp member with later | extra
    · rw [cut]
      exact alone_later split sorted dot other named later
    · exact apart k extra
  have final := puts_others different (put_blank dot e.2 absent)
  have whole : t = puts (after ++ last) ((puts before base).put e.1 e.2) := by
    rw [made,split]
    simp [puts,List.foldl_append]
  rw [← whole,reads e inside] at final
  exact filled e inside (Except.ok.inj final)

end Ptree
end PropertyTree
