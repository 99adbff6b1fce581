import Mathlib.Data.List.Perm.Basic

namespace LevelLists

-- Lists by level, the lower levels first.
variable {σ α : Type*}

def appendAt (level : Nat) (x : α) (lists : List (List α)) : List (List α) := lists.modify level (· ++ [x])

def dropAt (level : Nat) (lists : List (List α)) : List (List α) := lists.modify level List.tail

-- The first level with something in it, or the number of levels.
def lowest (lists : List (List α)) : Nat := lists.findIdx fun l => !l.isEmpty

theorem map_modify {β : Type*} {f : α → α} {g : β → β} {view : α → β} (commutes : ∀ x, view (f x) = g (view x))
    (l : List α) (i : Nat) : (l.modify i f).map view = (l.map view).modify i g := by
  induction l generalizing i with
  | nil => simp
  | cons x rest ih =>
    cases i with
    | zero => simp [commutes]
    | succ i => simp [ih]

theorem lowest_full {lists : List (List α)} : lowest lists = lists.length ↔ ∀ l ∈ lists, l = [] := by
  have same : lowest lists = lists.length ↔ ∀ l ∈ lists, (!l.isEmpty) = false := List.findIdx_eq_length
  simpa using same

theorem lowest_at {lists : List (List α)} {level : Nat} {x : α} {rest : List α}
    (here : lists[level]? = some (x :: rest)) (below : ∀ lower < level, lists[lower]? = some []) :
    lowest lists = level := by
  obtain ⟨inside,holds⟩ := List.getElem?_eq_some_iff.mp here
  refine (List.findIdx_eq inside).mpr ⟨by simp [holds],?_⟩
  intro lower earlier
  obtain ⟨_,nothing⟩ := List.getElem?_eq_some_iff.mp (below lower earlier)
  simp [nothing]

theorem lowest_first {lists : List (List α)} (some : ¬ ∀ l ∈ lists, l = []) :
    ∃ x rest, lists[lowest lists]? = .some (x :: rest) ∧ ∀ lower < lowest lists, lists[lower]? = .some [] := by
  have inside : lowest lists < lists.length := by
    apply Nat.lt_of_le_of_ne List.findIdx_le_length
    exact fun full => some (lowest_full.mp full)
  have nonempty : (!lists[lowest lists].isEmpty) = true :=
    List.findIdx_getElem (p := fun l : List α => !l.isEmpty) (w := inside)
  cases holds : lists[lowest lists] with
  | nil => simp [holds] at nonempty
  | cons x rest =>
    refine ⟨x,rest,by rw [List.getElem?_eq_getElem inside,holds],?_⟩
    intro lower earlier
    have nothing := List.not_of_lt_findIdx (p := fun l : List α => !l.isEmpty) earlier
    rw [List.getElem?_eq_getElem (by omega)]
    simpa using nothing

theorem lowest_single {levels level : Nat} (inside : level < levels) (x : α) :
    lowest (appendAt level x (List.replicate levels [])) = level := by
  apply @lowest_at _ _ _ x []
  · rw [appendAt,List.getElem?_modify_eq,List.getElem?_replicate_of_lt inside]
    rfl
  · intro lower earlier
    rw [appendAt,List.getElem?_modify_ne _ _ (Nat.ne_of_gt earlier),
      List.getElem?_replicate_of_lt (Nat.lt_trans earlier inside)]

theorem dropAt_set {level : Nat} {x : α} {rest : List α} {lists : List (List α)}
    (here : lists[level]? = some (x :: rest)) : dropAt level lists = lists.set level rest := by
  induction lists generalizing level with
  | nil => simp at here
  | cons first others ih =>
    cases level with
    | zero =>
      have same : first = x :: rest := by simpa using here
      rw [same]
      rfl
    | succ level =>
      have deeper := ih (by simpa using here)
      simp only [dropAt,List.modify_succ_cons,List.set_cons_succ] at deeper ⊢
      rw [deeper]

theorem flatten_appendAt {level : Nat} (x : α) {lists : List (List α)} (inside : level < lists.length) :
    (appendAt level x lists).flatten.Perm (x :: lists.flatten) := by
  induction lists generalizing level with
  | nil => cases inside
  | cons first rest ih =>
    cases level with
    | zero =>
      simp only [appendAt,List.modify_zero_cons,List.flatten_cons,List.append_assoc,List.singleton_append]
      exact List.perm_middle
    | succ level =>
      have deeper := ih (Nat.lt_of_succ_lt_succ inside)
      simp only [appendAt,List.modify_succ_cons,List.flatten_cons] at deeper ⊢
      exact (deeper.append_left first).trans List.perm_middle

theorem flatten_dropAt {level : Nat} {x : α} {rest : List α} {lists : List (List α)}
    (here : lists[level]? = some (x :: rest)) : lists.flatten.Perm (x :: (dropAt level lists).flatten) := by
  induction lists generalizing level with
  | nil => simp at here
  | cons first others ih =>
    cases level with
    | zero =>
      have same : first = x :: rest := by simpa using here
      rw [same]
      exact List.Perm.refl _
    | succ level =>
      have deeper := ih (by simpa using here)
      simp only [dropAt,List.modify_succ_cons,List.flatten_cons] at deeper ⊢
      exact (deeper.append_left first).trans List.perm_middle

end LevelLists
