import Kisscpp.Base64

namespace Base64
open TextLines BitGroups

-- The loop that fills a string from the range, with the indices it reads. A
-- byte is begun unless the text has ended, and is read until it has eight bits:
-- where the text ends before, the last index is that of the terminator.
def readRange (i : Nat) (begun : Bool) (left : List Bool) : Text → Option (List UInt8) × List Nat
  | [] => if begun then (none,[i]) else (some [],[])
  | c :: rest =>
    if isSpace c then
      let later := readRange (i + 1) true left rest
      (later.1,i :: later.2)
    else match charSextet c with
      | none => (none,[i])
      | some n =>
        let held := left ++ bits 6 n
        if held.length < 8 then
          let later := readRange (i + 1) true held rest
          (later.1,i :: later.2)
        else
          let later := readRange (i + 1) false (held.drop 8) rest
          (later.1.map fun bytes => UInt8.ofNat (value (held.take 8)) :: bytes,i :: later.2)

def Legible (text : Text) : Prop := ∀ c ∈ text, isSpace c = false → (charSextet c).isSome = true

instance (text : Text) : Decidable (Legible text) :=
  decidable_of_iff (text.all (fun c => isSpace c || (charSextet c).isSome) = true) (by
    simp only [Legible,List.all_eq_true,Bool.or_eq_true]
    refine forall₂_congr fun c _ => ?_
    cases isSpace c <;> simp)

def unfinished (begun : Bool) (left : List Bool) (text : Text) : Bool :=
  (text.getLast?.map isSpace).getD begun || (left.length + 6 * (text.filter isSignificant).length) % 8 = 6

theorem unfinished_space {c : Char} (space : isSpace c = true) (begun : Bool) (left : List Bool) (rest : Text) :
    unfinished begun left (c :: rest) = unfinished true left rest := by
  have skipped : (c :: rest).filter isSignificant = rest.filter isSignificant := by
    rw [List.filter_cons_of_neg (by rw [isSignificant,space]; decide)]
  unfold unfinished
  rw [skipped]
  cases rest with
  | nil => simp [space]
  | cons next others => rw [List.getLast?_cons_cons]; rfl

theorem unfinished_significant {c : Char} (significant : isSpace c = false) {begun begun' : Bool} {left left' : List Bool}
    (rest : Text) (held : (left.length + 6) % 8 = left'.length % 8)
    (here : begun' = true ↔ left'.length % 8 = 6) :
    unfinished begun left (c :: rest) = unfinished begun' left' rest := by
  have counted : ((c :: rest).filter isSignificant).length = (rest.filter isSignificant).length + 1 := by
    rw [List.filter_cons_of_pos (by rw [isSignificant,significant]; rfl),List.length_cons]
  have bits : (left.length + 6 * ((rest.filter isSignificant).length + 1)) % 8 =
      (left'.length + 6 * (rest.filter isSignificant).length) % 8 := by omega
  unfold unfinished
  rw [counted,bits]
  cases rest with
  | nil =>
    cases begun' with
    | false => simp [significant]
    | true => simp [here.mp rfl]
  | cons next others => rw [List.getLast?_cons_cons]; rfl

structure Held (begun : Bool) (left : List Bool) : Prop where
  even : left.length % 2 = 0
  short : left.length < 8
  begun : left.length = 6 → begun = true

theorem Held.start : Held false [] := ⟨rfl,by decide,by decide⟩

theorem Held.space {begun : Bool} {left : List Bool} (held : Held begun left) : Held true left :=
  ⟨held.even,held.short,fun _ => rfl⟩

theorem Held.sextet {begun : Bool} {left : List Bool} (held : Held begun left) (n : Nat)
    (more : (left ++ bits 6 n).length < 8) : Held true (left ++ bits 6 n) := by
  have even := held.even
  rw [List.length_append,length_bits] at more
  refine ⟨?_,?_,fun _ => rfl⟩ <;> rw [List.length_append,length_bits] <;> omega

theorem Held.byte {begun : Bool} {left : List Bool} (held : Held begun left) (n : Nat)
    (full : ¬ (left ++ bits 6 n).length < 8) : Held false ((left ++ bits 6 n).drop 8) := by
  have even := held.even
  have short := held.short
  rw [List.length_append,length_bits] at full
  refine ⟨?_,?_,?_⟩ <;> rw [List.length_drop,List.length_append,length_bits] <;> omega

theorem Held.unfinished_sextet {begun : Bool} {left : List Bool} (held : Held begun left) (n : Nat)
    (more : (left ++ bits 6 n).length < 8) {c : Char} (significant : isSpace c = false) (rest : Text) :
    unfinished begun left (c :: rest) = unfinished true (left ++ bits 6 n) rest := by
  have even := held.even
  rw [List.length_append,length_bits] at more
  apply unfinished_significant significant
  · rw [List.length_append,length_bits]
  · rw [List.length_append,length_bits,eq_self_iff_true,true_iff]
    omega

theorem Held.unfinished_byte {begun : Bool} {left : List Bool} (held : Held begun left) (n : Nat)
    (full : ¬ (left ++ bits 6 n).length < 8) {c : Char} (significant : isSpace c = false) (rest : Text) :
    unfinished begun left (c :: rest) = unfinished false ((left ++ bits 6 n).drop 8) rest := by
  have short := held.short
  rw [List.length_append,length_bits] at full
  apply unfinished_significant significant
  · rw [List.length_drop,List.length_append,length_bits]
    omega
  · rw [List.length_drop,List.length_append,length_bits]
    simp only [Bool.false_eq_true,false_iff]
    omega

theorem readRange_bytes {text : Text} {i : Nat} {begun : Bool} {left : List Bool} (held : Held begun left) :
    (readRange i begun left text).1 = if unfinished begun left text then none
      else ((text.filter isSignificant).mapM charSextet).map fun sextets =>
        (groupsFrom 8 left (sextets.flatMap (bits 6))).1.map fun g => UInt8.ofNat (value g) := by
  induction text generalizing i begun left with
  | nil =>
    have six := held.begun
    have short := held.short
    cases begun with
    | true => rfl
    | false =>
      have whole : left.length ≠ 6 := fun same => by cases six same
      have finished : unfinished false left [] = false := by
        have open_ : left.length % 8 ≠ 6 := by omega
        simpa [unfinished] using open_
      rw [finished]
      rfl
  | cons c rest ih =>
    cases space : isSpace c with
    | true =>
      have skipped : (c :: rest).filter isSignificant = rest.filter isSignificant := by
        rw [List.filter_cons_of_neg (by rw [isSignificant,space]; decide)]
      simp only [readRange,space,if_true]
      rw [ih held.space,unfinished_space space,skipped]
    | false =>
      have taken : (c :: rest).filter isSignificant = c :: rest.filter isSignificant := by
        rw [List.filter_cons_of_pos (by rw [isSignificant,space]; rfl)]
      cases sextet : charSextet c with
      | none =>
        simp only [readRange,space,sextet,taken,List.mapM_cons,Bool.false_eq_true,if_false,Option.bind_eq_bind,
          Option.bind_none,Option.map_none,ite_self]
      | some n =>
        by_cases more : (left ++ bits 6 n).length < 8
        · have grouped := fun sextets : List Nat => groupsFrom_append (by rwa [List.length_append] at more)
            (sextets.flatMap (bits 6))
          simp only [readRange,space,sextet,more,Bool.false_eq_true,if_false,if_true]
          rw [ih (held.sextet n more),held.unfinished_sextet n more space,taken]
          simp only [List.mapM_cons,sextet,Option.bind_eq_bind,Option.bind_some,Option.pure_def,Option.map_eq_bind,
            Option.bind_assoc,Function.comp_def,List.flatMap_cons,grouped]
        · have short := held.short
          have grouped := fun sextets : List Nat => groupsFrom_cut held.short (Nat.le_of_not_lt more)
            (by rw [List.length_append,length_bits]; omega) (sextets.flatMap (bits 6))
          simp only [readRange,space,sextet,more,Bool.false_eq_true,if_false]
          rw [ih (held.byte n more),held.unfinished_byte n more space,taken]
          cases unfinished false ((left ++ bits 6 n).drop 8) rest with
          | true => rfl
          | false =>
            simp only [Bool.false_eq_true,if_false,List.mapM_cons,sextet,Option.bind_eq_bind,Option.bind_some,
              Option.pure_def,Option.map_eq_bind,Option.bind_assoc,Function.comp_def,List.flatMap_cons,grouped,
              List.map_cons]

theorem unfinished_start (text : Text) : unfinished false [] text =
    (text.getLast?.any isSpace || (text.filter isSignificant).length % 4 = 1) := by
  have last : (text.getLast?.map isSpace).getD false = text.getLast?.any isSpace := by
    cases text.getLast? <;> rfl
  have quartet : (6 * (text.filter isSignificant).length) % 8 = 6 ↔ (text.filter isSignificant).length % 4 = 1 := by
    omega
  simp only [unfinished,last,List.length_nil,Nat.zero_add,quartet]

theorem readRange_toBinary (text : Text) : (readRange 0 false [] text).1 = toBinary text := by
  rw [readRange_bytes Held.start,unfinished_start]
  rfl

theorem readRange_step (i : Nat) {begun : Bool} {left : List Bool} (held : Held begun left) (c : Char) (rest : Text) :
    (isSpace c = false ∧ charSextet c = none ∧ (readRange i begun left (c :: rest)).2 = [i]) ∨
      ((isSpace c = false → (charSextet c).isSome = true) ∧ ∃ begun' left', Held begun' left' ∧
        unfinished begun left (c :: rest) = unfinished begun' left' rest ∧
        (readRange i begun left (c :: rest)).2 = i :: (readRange (i + 1) begun' left' rest).2) := by
  cases space : isSpace c with
  | true =>
    refine Or.inr ⟨fun black => (by cases black),true,left,held.space,unfinished_space space begun left rest,?_⟩
    simp only [readRange,space,if_true]
  | false =>
    cases sextet : charSextet c with
    | none => exact Or.inl ⟨rfl,rfl,by simp only [readRange,space,sextet,Bool.false_eq_true,if_false]⟩
    | some n =>
      refine Or.inr ⟨fun _ => rfl,?_⟩
      by_cases more : (left ++ bits 6 n).length < 8
      · refine ⟨_,_,held.sextet n more,held.unfinished_sextet n more space rest,?_⟩
        simp only [readRange,space,sextet,more,Bool.false_eq_true,if_false,if_true]
      · refine ⟨_,_,held.byte n more,held.unfinished_byte n more space rest,?_⟩
        simp only [readRange,space,sextet,more,Bool.false_eq_true,if_false]

-- A read outside the text is that of the terminator: it needs a byte that is not
-- finished, and no character before it that throws.
theorem readRange_inside {text : Text} {i : Nat} {begun : Bool} {left : List Bool} (held : Held begun left) :
    (∀ j ∈ (readRange i begun left text).2, j < i + text.length) ↔
      (Legible text → unfinished begun left text = false) := by
  induction text generalizing i begun left with
  | nil =>
    have legible : Legible [] := fun c member => by cases member
    have six := held.begun
    have short := held.short
    cases begun with
    | true => simp [readRange,unfinished,legible]
    | false =>
      have whole : left.length ≠ 6 := fun same => by cases six same
      have open_ : left.length % 8 ≠ 6 := by omega
      simp [readRange,unfinished,open_]
  | cons c rest ih =>
    rcases readRange_step i held c rest with ⟨significant,throws,read⟩ | ⟨legible,begun',left',held',same,read⟩
    · have illegible : ¬ Legible (c :: rest) := by
        intro every
        have here := every c List.mem_cons_self significant
        rw [throws] at here
        cases here
      simp [read,illegible]
    · have front : Legible (c :: rest) ↔ Legible rest := by
        rw [Legible,List.forall_mem_cons]
        exact and_iff_right legible
      have later := @ih (i + 1) begun' left' held'
      rw [read,same,front,List.forall_mem_cons,List.length_cons,← later,Nat.add_right_comm,Nat.add_assoc i]
      exact and_iff_right (by omega)

end Base64
