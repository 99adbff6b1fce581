import Mathlib.Data.List.Basic
import Mathlib.Algebra.Group.Nat.Defs

namespace BitGroups

def bits : Nat → Nat → List Bool
  | 0,_ => []
  | w + 1,n => n.testBit w :: bits w n

def value : List Bool → Nat
  | [] => 0
  | bit :: rest => 2 ^ rest.length * bit.toNat + value rest

def groupsFrom (w : Nat) : List Bool → List Bool → List (List Bool) × List Bool
  | pending,[] => ([],pending)
  | pending,bit :: rest =>
    if pending.length + 1 = w then
      let later := groupsFrom w [] rest
      ((pending ++ [bit]) :: later.1,later.2)
    else groupsFrom w (pending ++ [bit]) rest

def groups (w : Nat) (l : List Bool) : List (List Bool) × List Bool := groupsFrom w [] l

def filled (w : Nat) (l : List Bool) : List (List Bool) :=
  match (groups w l).2 with
  | [] => (groups w l).1
  | rest => (groups w l).1 ++ [rest ++ List.replicate (w - rest.length) false]

@[simp] theorem length_bits (w n : Nat) : (bits w n).length = w := by
  induction w with
  | zero => rfl
  | succ w ih => rw [bits,List.length_cons,ih]

theorem value_bits (w n : Nat) : value (bits w n) = n % 2 ^ w := by
  induction w with
  | zero => rw [Nat.pow_zero,Nat.mod_one]; rfl
  | succ w ih => rw [bits,value,length_bits,ih,Nat.mod_pow_succ,Nat.toNat_testBit,Nat.add_comm]

theorem value_lt (l : List Bool) : value l < 2 ^ l.length := by
  induction l with
  | nil => exact Nat.one_pos
  | cons bit rest ih =>
    rw [value,List.length_cons,Nat.pow_succ]
    cases bit with
    | false => simp only [Bool.toNat_false]; omega
    | true => simp only [Bool.toNat_true]; omega

theorem bits_congr {w first second : Nat} (same : ∀ i < w, first.testBit i = second.testBit i) :
    bits w first = bits w second := by
  induction w with
  | zero => rfl
  | succ w ih => rw [bits,bits,same w (Nat.lt_succ_self w),ih fun i small => same i (Nat.lt_succ_of_lt small)]

theorem bits_value (l : List Bool) : bits l.length (value l) = l := by
  induction l with
  | nil => rfl
  | cons bit rest ih =>
    have below := value_lt rest
    have split := Nat.testBit_two_pow_mul_add bit.toNat below
    have top : (value (bit :: rest)).testBit rest.length = bit := by
      rw [value,split,if_neg (Nat.lt_irrefl _),Nat.sub_self]
      cases bit <;> rfl
    have low : bits rest.length (value (bit :: rest)) = bits rest.length (value rest) := by
      apply bits_congr
      intro i small
      rw [value,split,if_pos small]
    rw [List.length_cons,bits,top,low,ih]

theorem bits_zero (w : Nat) : bits w 0 = List.replicate w false := by
  induction w with
  | zero => rfl
  | succ w ih => rw [bits,ih,Nat.zero_testBit,List.replicate_succ]

theorem groupsFrom_short {w : Nat} {pending l : List Bool} (short : pending.length + l.length < w) :
    groupsFrom w pending l = ([],pending ++ l) := by
  induction l generalizing pending with
  | nil => rw [groupsFrom,List.append_nil]
  | cons bit rest ih =>
    rw [List.length_cons] at short
    rw [groupsFrom,if_neg (by omega),ih (by rw [List.length_append,List.length_singleton]; omega),List.append_assoc]
    rfl

theorem groupsFrom_full {w : Nat} {pending l : List Bool} (some : l ≠ []) (full : pending.length + l.length = w)
    (rest : List Bool) :
    groupsFrom w pending (l ++ rest) = ((pending ++ l) :: (groups w rest).1,(groups w rest).2) := by
  induction l generalizing pending with
  | nil => exact absurd rfl some
  | cons bit later ih =>
    rw [List.length_cons] at full
    cases later with
    | nil =>
      rw [List.length_nil] at full
      rw [List.cons_append,List.nil_append,groupsFrom,if_pos (by omega)]
      rfl
    | cons next others =>
      rw [List.length_cons] at full
      rw [List.cons_append,groupsFrom,if_neg (by omega)]
      rw [ih (List.cons_ne_nil _ _) (by rw [List.length_append,List.length_singleton,List.length_cons]; omega)]
      rw [List.append_assoc]
      rfl

theorem groupsFrom_append {w : Nat} {pending l : List Bool} (short : pending.length + l.length < w) (rest : List Bool) :
    groupsFrom w pending (l ++ rest) = groupsFrom w (pending ++ l) rest := by
  induction l generalizing pending with
  | nil => rw [List.nil_append,List.append_nil]
  | cons bit later ih =>
    rw [List.length_cons] at short
    have next := @ih (pending ++ [bit]) (by rw [List.length_append,List.length_singleton]; omega)
    rw [List.cons_append,groupsFrom,if_neg (by omega),next,List.append_assoc]
    rfl

theorem groupsFrom_cut {w : Nat} {pending l : List Bool} (open_ : pending.length < w)
    (full : w ≤ (pending ++ l).length) (once : (pending ++ l).length < 2 * w) (rest : List Bool) :
    groupsFrom w pending (l ++ rest) = ((pending ++ l).take w :: (groupsFrom w ((pending ++ l).drop w) rest).1,
      (groupsFrom w ((pending ++ l).drop w) rest).2) := by
  rw [List.length_append] at full once
  have missing : (l.take (w - pending.length)).length = w - pending.length := by
    rw [List.length_take]
    omega
  have some : l.take (w - pending.length) ≠ [] := List.ne_nil_of_length_pos (by omega)
  have first := @groupsFrom_full w pending _ some (by omega) (l.drop (w - pending.length) ++ rest)
  have second := @groupsFrom_append w [] (l.drop (w - pending.length)) (by
    rw [List.length_nil,List.length_drop]
    omega) rest
  rw [← List.append_assoc,List.take_append_drop,groups,second,List.nil_append] at first
  rw [first,List.take_append,List.take_of_length_le (Nat.le_of_lt open_),List.drop_append,
    List.drop_eq_nil_of_le (Nat.le_of_lt open_),List.nil_append]

theorem groups_flatten {w : Nat} (positive : 0 < w) {gs : List (List Bool)} (even : ∀ g ∈ gs, g.length = w)
    {rest : List Bool} (short : rest.length < w) : groups w (gs.flatten ++ rest) = (gs,rest) := by
  induction gs with
  | nil => exact groupsFrom_short (by rw [List.length_nil,Nat.zero_add]; exact short)
  | cons g others ih =>
    have here := even g List.mem_cons_self
    have later := ih fun other member => even other (List.mem_cons_of_mem _ member)
    have some : g ≠ [] := List.ne_nil_of_length_pos (by omega)
    rw [List.flatten_cons,List.append_assoc,groups,groupsFrom_full some (by rw [List.length_nil]; omega),later]
    rfl

theorem groupsFrom_parts {w : Nat} {pending l : List Bool} (short : pending.length < w) :
    (groupsFrom w pending l).1.flatten ++ (groupsFrom w pending l).2 = pending ++ l ∧
      (∀ g ∈ (groupsFrom w pending l).1, g.length = w) ∧ (groupsFrom w pending l).2.length < w := by
  induction l generalizing pending with
  | nil =>
    rw [groupsFrom]
    exact ⟨(List.append_nil _).symm,fun g member => (by cases member),short⟩
  | cons bit rest ih =>
    rw [groupsFrom]
    split
    · next full =>
      obtain ⟨whole,even,left⟩ := @ih [] (by rw [List.length_nil]; omega)
      refine ⟨?_,?_,left⟩
      · rw [List.flatten_cons,List.append_assoc,whole,List.append_assoc]
        rfl
      · intro g member
        rcases List.mem_cons.mp member with first | later
        · rw [first,List.length_append]
          exact full
        · exact even g later
    · next more =>
      obtain ⟨whole,even,left⟩ := @ih (pending ++ [bit]) (by rw [List.length_append,List.length_singleton]; omega)
      refine ⟨?_,even,left⟩
      rw [whole,List.append_assoc]
      rfl

theorem length_even {w : Nat} {gs : List (List Bool)} (even : ∀ g ∈ gs, g.length = w) :
    gs.flatten.length = gs.length * w := by
  induction gs with
  | nil => rw [List.flatten_nil,List.length_nil,List.length_nil,Nat.zero_mul]
  | cons g others ih =>
    have later := ih fun other member => even other (List.mem_cons_of_mem _ member)
    rw [List.flatten_cons,List.length_append,even g List.mem_cons_self,later,List.length_cons,Nat.succ_mul,Nat.add_comm]

theorem filled_parts {w : Nat} (positive : 0 < w) (l : List Bool) : ∃ zeros < w,
    (filled w l).flatten = l ++ List.replicate zeros false ∧ ∀ g ∈ filled w l, g.length = w := by
  obtain ⟨whole,even,short⟩ := @groupsFrom_parts w [] l positive
  rw [List.nil_append] at whole
  change (groups w l).1.flatten ++ (groups w l).2 = l at whole
  unfold filled
  cases left : (groups w l).2 with
  | nil =>
    rw [left] at whole
    rw [List.append_nil] at whole
    exact ⟨0,positive,whole.trans (List.append_nil l).symm,even⟩
  | cons bit rest =>
    rw [left] at whole
    have smaller : (bit :: rest).length < w := left ▸ short
    refine ⟨w - (bit :: rest).length,by rw [List.length_cons]; omega,?_,?_⟩
    · rw [List.flatten_append,List.flatten_singleton,← List.append_assoc,whole]
    · intro g member
      rcases List.mem_append.mp member with full | last
      · exact even g full
      · rw [List.mem_singleton.mp last,List.length_append,List.length_replicate]
        omega

end BitGroups
