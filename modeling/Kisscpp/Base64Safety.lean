import Kisscpp.Base64BiCoder
import Kisscpp.Base64Range

namespace Base64
open TextLines BitGroups

theorem groups_length {w : Nat} (positive : 0 < w) (l : List Bool) : (groups w l).1.length = l.length / w := by
  obtain ⟨whole,even,short⟩ := @groupsFrom_parts w [] l positive
  have length := congrArg List.length whole
  rw [List.length_append,length_even even,List.nil_append] at length
  change (groups w l).1.length * w + (groups w l).2.length = l.length at length
  change (groups w l).2.length < w at short
  rw [← length,Nat.add_comm,Nat.add_mul_div_right _ _ positive,Nat.div_eq_of_lt short,Nat.zero_add]

theorem mapM_length {text : Text} {sextets : List Nat} (read : text.mapM charSextet = some sextets) :
    sextets.length = text.length := by
  induction text generalizing sextets with
  | nil =>
    cases read
    rfl
  | cons c rest ih =>
    rw [List.mapM_cons] at read
    obtain ⟨n,_,later⟩ := Option.bind_eq_some_iff.mp read
    obtain ⟨others,here,same⟩ := Option.bind_eq_some_iff.mp later
    cases same
    rw [List.length_cons,List.length_cons,ih here]

theorem length_sextets (sextets : List Nat) : (sextets.flatMap (bits 6)).length = 6 * sextets.length := by
  induction sextets with
  | nil => rfl
  | cons n rest ih =>
    rw [List.flatMap_cons,List.length_append,length_bits,ih,List.length_cons]
    omega

theorem toBinary_length {text : Text} {bytes : List UInt8} (decoded : toBinary text = some bytes) :
    bytes.length = 6 * (text.filter isSignificant).length / 8 := by
  simp only [toBinary] at decoded
  split at decoded
  · cases decoded
  · obtain ⟨sextets,read,rfl⟩ := Option.map_eq_some_iff.mp decoded
    rw [List.length_map,groups_length (by decide),length_sextets,mapM_length read]

theorem mapM_sextets_isSome (text : Text) :
    (text.mapM charSextet).isSome = true ↔ ∀ c ∈ text, (charSextet c).isSome = true := by
  induction text with
  | nil => exact ⟨fun _ c member => (by cases member),fun _ => rfl⟩
  | cons c rest ih =>
    rw [List.forall_mem_cons,← ih,List.mapM_cons]
    cases charSextet c with
    | none => simp
    | some n => cases rest.mapM charSextet <;> simp

theorem readRange_isSome (text : Text) :
    (readRange 0 false [] text).1.isSome = true ↔ Legible text ∧ unfinished false [] text = false := by
  have legible : ((text.filter isSignificant).mapM charSextet).isSome = true ↔ Legible text := by
    simp only [mapM_sextets_isSome,List.mem_filter,isSignificant,Bool.not_eq_true',and_imp]
    rfl
  rw [readRange_bytes Held.start]
  cases unfinished false [] text with
  | true => simp
  | false => simpa using legible

end Base64

namespace Kisscpp
open TextLines Base64

-- is.size() - back, which starts again at the top below zero.
def fromEnd (is : Text) (back : Nat) : Nat := if back ≤ is.length then is.length - back else 2 ^ 64 + is.length - back

-- The indices at which a character is read, and written where it is padding.
def patchIndices (i : Nat) (is : Text) : List Nat := if is[i]? = some '=' then [i,i] else [i]

def decodeIndices (s : Text) : List Nat :=
  patchIndices (fromEnd s 1) s ++ patchIndices (fromEnd s 2) (patchedAt (fromEnd s 1) s)

def patched (s : Text) : Text := patchedAt (fromEnd s 2) (patchedAt (fromEnd s 1) s)

structure MemorySafe (s : Text) : Prop where
  indices : ∀ i ∈ decodeIndices s, i < s.length
  range : ∀ i ∈ (readRange 0 false [] (patched s)).2, i < s.length
  erased : ∀ result, (readRange 0 false [] (patched s)).1 = some result → paddChars s ≤ result.length

theorem patchedAt_significant (i : Nat) (is : Text) :
    ((patchedAt i is).filter isSignificant).length = (is.filter isSignificant).length := by
  unfold patchedAt
  split
  · next padding =>
    obtain ⟨inside,here⟩ := List.getElem?_eq_some_iff.mp padding
    have some : 0 < is.countP isSignificant := List.countP_pos_iff.mpr ⟨_,List.getElem_mem inside,by rw [here]; rfl⟩
    have same : (is.set i 'A').countP isSignificant = is.countP isSignificant := by
      rw [List.countP_set inside,here]
      exact Nat.sub_add_cancel some
    rw [← List.countP_eq_length_filter,same,List.countP_eq_length_filter]
  · rfl

theorem patched_significant (s : Text) : ((patched s).filter isSignificant).length = (s.filter isSignificant).length := by
  rw [patched,patchedAt_significant,patchedAt_significant]

theorem patchedAt_legible (i : Nat) (is : Text) : Legible (patchedAt i is) ↔ Legible is := by
  unfold patchedAt
  split
  · next padding =>
    obtain ⟨inside,here⟩ := List.getElem?_eq_some_iff.mp padding
    constructor
    · intro legible c member significant
      obtain ⟨j,small,rfl⟩ := List.mem_iff_getElem.mp member
      by_cases same : i = j
      · subst same
        rw [here]
        decide
      · have kept := List.getElem_set_ne same (a := 'A') (l := is) (by rw [List.length_set]; exact small)
        rw [← kept] at significant ⊢
        exact legible _ (List.getElem_mem _) significant
    · intro legible c member significant
      rcases List.mem_or_eq_of_mem_set member with old | rfl
      · exact legible c old significant
      · decide
  · rfl

theorem patched_legible (s : Text) : Legible (patched s) ↔ Legible s := by
  rw [patched,patchedAt_legible,patchedAt_legible]

theorem patchedAt_last (i : Nat) (is : Text) : (patchedAt i is).getLast?.map isSpace = is.getLast?.map isSpace := by
  unfold patchedAt
  split
  · next padding =>
    rw [List.getLast?_eq_getElem?,List.getLast?_eq_getElem?,List.length_set]
    by_cases same : i = is.length - 1
    · subst same
      obtain ⟨inside,_⟩ := List.getElem?_eq_some_iff.mp padding
      rw [List.getElem?_set_self inside,padding]
      rfl
    · rw [List.getElem?_set_ne same]
  · rfl

theorem patched_unfinished (s : Text) : unfinished false [] (patched s) = unfinished false [] s := by
  rw [unfinished,patched_significant,patched,patchedAt_last,patchedAt_last,unfinished]

theorem length_patched (s : Text) : (patched s).length = s.length := by
  unfold patched patchedAt
  split <;> split <;> simp only [List.length_set]

theorem mem_patchIndices {i j : Nat} {is : Text} : j ∈ patchIndices i is ↔ j = i := by
  unfold patchIndices
  split <;> simp

theorem indices_inside (s : Text) : (∀ i ∈ decodeIndices s, i < s.length) ↔ 2 ≤ s.length := by
  simp only [decodeIndices,List.mem_append,mem_patchIndices,forall_eq_or_imp,forall_eq,fromEnd]
  split <;> split <;> omega

theorem decodeFromBase64_safe {s : Text} (safe : MemorySafe s) : decodeFromBase64 s =
    (toBinary (patched s)).map fun result => result.take (result.length - paddChars s) := by
  have two := (indices_inside s).mp safe.indices
  have here : patchedAt (s.length - 2) (patchedAt (s.length - 1) s) = patched s := by
    rw [patched,fromEnd,fromEnd,if_pos two,if_pos (Nat.le_of_succ_le two)]
  simp only [decodeFromBase64,if_neg (Nat.not_lt.mpr two),here]
  cases decoded : toBinary (patched s) with
  | none => rfl
  | some result =>
    have erased := safe.erased result (by rw [readRange_toBinary,decoded])
    simp [Nat.not_lt.mpr erased]

theorem range_inside (s : Text) : (∀ i ∈ (readRange 0 false [] (patched s)).2, i < s.length) ↔
    (Legible s → unfinished false [] s = false) := by
  have inside := @readRange_inside (patched s) 0 false [] Held.start
  rwa [Nat.zero_add,length_patched,patched_legible,patched_unfinished] at inside

theorem erased_inside (s : Text) :
    (∀ result, (readRange 0 false [] (patched s)).1 = some result → paddChars s ≤ result.length) ↔
      (Legible s → unfinished false [] s = false → paddChars s ≤ 6 * (s.filter isSignificant).length / 8) := by
  have decodes := readRange_isSome (patched s)
  rw [patched_legible,patched_unfinished] at decodes
  have length : ∀ result, (readRange 0 false [] (patched s)).1 = some result →
      result.length = 6 * (s.filter isSignificant).length / 8 := by
    intro result decoded
    rw [readRange_toBinary] at decoded
    rw [toBinary_length decoded,patched_significant]
  constructor
  · intro erased legible finished
    obtain ⟨result,decoded⟩ := Option.isSome_iff_exists.mp (decodes.mpr ⟨legible,finished⟩)
    rw [← length result decoded]
    exact erased result decoded
  · intro enough result decoded
    obtain ⟨legible,finished⟩ := decodes.mp (by rw [decoded]; rfl)
    rw [length result decoded]
    exact enough legible finished

theorem decode_memory_safe (s : Text) : MemorySafe s ↔ 2 ≤ s.length ∧
    (Legible s → s.getLast?.any isSpace = false ∧ (s.filter isSignificant).length % 4 ≠ 1 ∧
      paddChars s ≤ 6 * (s.filter isSignificant).length / 8) := by
  have quartets : unfinished false [] s = false ↔
      s.getLast?.any isSpace = false ∧ (s.filter isSignificant).length % 4 ≠ 1 := by
    rw [unfinished_start,Bool.or_eq_false_iff,decide_eq_false_iff_not]
  have split : MemorySafe s ↔ 2 ≤ s.length ∧ (Legible s → unfinished false [] s = false) ∧
      (Legible s → unfinished false [] s = false → paddChars s ≤ 6 * (s.filter isSignificant).length / 8) := by
    rw [← indices_inside,← range_inside,← erased_inside]
    exact ⟨fun safe => ⟨safe.indices,safe.range,safe.erased⟩,fun ⟨indices,range,erased⟩ => ⟨indices,range,erased⟩⟩
  rw [split]
  apply and_congr_right
  intro _
  constructor
  · rintro ⟨range,erased⟩ legible
    obtain ⟨last,whole⟩ := quartets.mp (range legible)
    exact ⟨last,whole,erased legible (range legible)⟩
  · intro closed
    refine ⟨?_,?_⟩
    · intro legible
      exact quartets.mpr ⟨(closed legible).1,(closed legible).2.1⟩
    · intro legible _
      exact (closed legible).2.2

-- An empty item is an empty line, whose last character is looked for far outside;
-- of a line of padding more is erased than was decoded, and behind one character
-- over a quartet the terminator is read.
theorem empty_line_unsafe : ¬ MemorySafe (encodeToBase64String []) ∧ ¬ MemorySafe (List.replicate 4 '=') ∧
    ¬ MemorySafe (List.replicate 5 'A') := by
  refine ⟨?_,?_,?_⟩
  · intro safe
    have outside := safe.indices (2 ^ 64 - 1) (by decide +kernel)
    exact absurd outside (by decide)
  · intro safe
    have erased := safe.erased [0,0,0] (by decide +kernel)
    exact absurd erased (by decide +kernel)
  · intro safe
    have outside := safe.range 5 (by decide +kernel)
    exact absurd outside (by decide)

end Kisscpp
