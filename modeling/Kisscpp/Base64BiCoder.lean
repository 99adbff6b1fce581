import Kisscpp.Base64
import Kisscpp.QueueSessions

namespace Kisscpp
open TextLines Base64 PersistedQueue

-- Both counts are an unsigned int.
def writePaddChars (s : List UInt8) : Nat := (3 - s.length % 3) % 3

def encodeToBase64String (s : List UInt8) : Text := fromBinary s ++ List.replicate (writePaddChars s) '='

def paddChars (s : Text) : Nat := s.count '=' % 2 ^ 32

-- if(is[i] == '=') is[i] = 'A';
def patchedAt (i : Nat) (is : Text) : Text := if is[i]? = some '=' then is.set i 'A' else is

-- A string of less than two characters is read outside its bounds, and so is a
-- result shorter than the padding.
def decodeFromBase64 (s : Text) : Option (List UInt8) :=
  if s.length < 2 then none
  else
    let is := patchedAt (s.length - 2) (patchedAt (s.length - 1) s)
    (toBinary is).bind fun result =>
      if result.length < paddChars s then none else some (result.take (result.length - paddChars s))

-- The serialisers of a derived class around the two functions, as
-- PtreeBase64Bicoder has write_json and read_json. Both may throw.
def base64BiCoder {α : Type} (write : α → Option (List UInt8)) (read : List UInt8 → Option α) : BiCoder α where
  encode obj2encode := (write obj2encode).map encodeToBase64String
  decode str2decode := (decodeFromBase64 str2decode).bind read

theorem patchedAt_here {i : Nat} {front : Text} (at_ : i = front.length) (rest : Text) :
    patchedAt i (front ++ '=' :: rest) = front ++ 'A' :: rest := by
  subst at_
  unfold patchedAt
  rw [if_pos (by simp),List.set_append_right _ _ (Nat.le_refl _),Nat.sub_self]
  rfl

theorem patchedAt_other {i : Nat} {front : Text} (at_ : i = front.length) {c : Char} (different : c ≠ '=')
    (rest : Text) : patchedAt i (front ++ c :: rest) = front ++ c :: rest := by
  subst at_
  unfold patchedAt
  apply if_neg
  simpa using different

theorem patched_text {front : Text} {a b : Char} (plain : a ≠ '=' ∧ b ≠ '=') {fill : Nat} (few : fill < 3) :
    let s := front ++ [a,b] ++ List.replicate fill '='
    patchedAt (s.length - 2) (patchedAt (s.length - 1) s) = front ++ [a,b] ++ List.replicate fill 'A' := by
  have cases : fill = 0 ∨ fill = 1 ∨ fill = 2 := by omega
  have together : ∀ rest, front ++ [a,b] ++ rest = (front ++ [a]) ++ b :: rest := by simp
  rcases cases with rfl | rfl | rfl
  · have last := @patchedAt_other ((front ++ [a,b]).length - 1) (front ++ [a]) (by simp) b plain.2 []
    have second := @patchedAt_other ((front ++ [a,b]).length - 2) front (by simp) a plain.1 [b]
    simp only [List.replicate_zero,List.append_nil]
    rw [← together [],List.append_nil] at last
    rw [last,second]
  · have last := @patchedAt_here ((front ++ [a,b] ++ ['=']).length - 1) (front ++ [a,b]) (by simp) []
    have second := @patchedAt_other ((front ++ [a,b] ++ ['=']).length - 2) (front ++ [a]) (by simp) b plain.2 ['A']
    rw [← together] at second
    exact (congrArg _ last).trans second
  · have last := @patchedAt_here ((front ++ [a,b] ++ ['=','=']).length - 1) (front ++ [a,b] ++ ['=']) (by simp) []
    have second := @patchedAt_here ((front ++ [a,b] ++ ['=','=']).length - 2) (front ++ [a,b]) (by simp) ['A']
    have same : front ++ [a,b] ++ ['='] ++ ['='] = front ++ [a,b] ++ ['=','='] := by simp
    have then_ : front ++ [a,b] ++ ['='] ++ ['A'] = front ++ [a,b] ++ '=' :: ['A'] := by simp
    rw [same,then_] at last
    exact (congrArg _ last).trans second

theorem fromBinary_end {s : List UInt8} (some : s ≠ []) :
    ∃ front a b, fromBinary s = front ++ [a,b] ∧ a ≠ '=' ∧ b ≠ '=' := by
  obtain ⟨zeros,_,length,_⟩ := fromBinary_length s
  have positive := List.length_pos_of_ne_nil some
  have plain := fun c member => (alphabet_plain c (@fromBinary_mem s c member)).2.1
  rcases List.eq_nil_or_concat (fromBinary s) with none | ⟨front,b,split⟩
  · rw [none,List.length_nil] at length
    omega
  · rcases List.eq_nil_or_concat front with none | ⟨start,a,splitFront⟩
    · rw [split,none,List.length_concat,List.length_nil] at length
      omega
    · have shape : fromBinary s = start ++ [a,b] := by
        rw [split,splitFront,List.concat_eq_append,List.concat_eq_append,List.append_assoc]
        rfl
      refine ⟨start,a,b,shape,plain a ?_,plain b ?_⟩
      · rw [shape]
        simp
      · rw [shape]
        simp

theorem decodeFromBase64_encode {s : List UInt8} (some : s ≠ []) : decodeFromBase64 (encodeToBase64String s) = .some s := by
  obtain ⟨front,a,b,shape,plain⟩ := fromBinary_end some
  obtain ⟨zeros,few,length,_⟩ := fromBinary_length s
  have pads : writePaddChars s < 3 := Nat.mod_lt _ (by decide)
  have patched := @patched_text front a b plain _ pads
  rw [← shape] at patched
  change patchedAt ((encodeToBase64String s).length - 2) (patchedAt ((encodeToBase64String s).length - 1)
    (encodeToBase64String s)) = _ at patched
  have fits : 6 * ((fromBinary s).length + writePaddChars s) = 8 * (s.length + writePaddChars s) := by
    unfold writePaddChars
    omega
  have counted : paddChars (encodeToBase64String s) = writePaddChars s := by
    have none : (fromBinary s).count '=' = 0 := by
      apply List.count_eq_zero.mpr
      intro member
      exact (alphabet_plain _ (fromBinary_mem _ member)).2.1 rfl
    rw [paddChars,encodeToBase64String,List.count_append,none,List.count_replicate_self,Nat.zero_add]
    exact Nat.mod_eq_of_lt (by omega)
  have long : ¬ (encodeToBase64String s).length < 2 := by
    rw [encodeToBase64String,shape,List.length_append,List.length_append]
    simp only [List.length_cons,List.length_nil]
    omega
  simp only [decodeFromBase64,if_neg long,patched,toBinary_padded fits,counted,Option.bind_some]
  rw [if_neg (by rw [List.length_append,List.length_replicate]; omega)]
  rw [List.length_append,List.length_replicate,Nat.add_sub_cancel,List.take_left]

-- The text is one line of the page file, and has no NUL for c_str() to stop at.
theorem encode_plain (s : List UInt8) : OneLine (encodeToBase64String s) ∧ '\x00' ∉ encodeToBase64String s := by
  have each : ∀ c ∈ encodeToBase64String s, isSpace c = false ∧ c ≠ '\x00' := by
    intro c member
    rcases List.mem_append.mp member with coded | padding
    · have plain := alphabet_plain c (fromBinary_mem c coded)
      exact ⟨plain.1,plain.2.2⟩
    · rw [List.eq_of_mem_replicate padding]
      decide
  refine ⟨fun newline => ?_,fun nul => (each _ nul).2 rfl⟩
  exact absurd (each _ newline).1 (by decide)

def bytesBiCoder : BiCoder (List UInt8) := base64BiCoder some some

theorem base64_row {α : Type} {write : α → Option (List UInt8)} {read : List UInt8 → Option α} {x : α}
    {s : List UInt8} (wrote : write x = some s) (filled : s ≠ []) (back : read s = some x) :
    ∃ row, (base64BiCoder write read).encode x = some row ∧ (base64BiCoder write read).decode row = some x ∧
      OneLine row ∧ '\x00' ∉ row := by
  obtain ⟨line,noNul⟩ := encode_plain s
  refine ⟨encodeToBase64String s,congrArg (Option.map encodeToBase64String) wrote,?_,line,noNul⟩
  exact (congrArg (fun decoded => decoded.bind read) (decodeFromBase64_encode filled)).trans back

-- A serialiser that reads back what it wrote makes a codec that the queue can
-- rely on, as write_json and read_json are used in PtreeBase64Bicoder.
theorem base64_faithful {α : Type} {write : α → Option (List UInt8)} {read : List UInt8 → Option α}
    (each : ∀ x, ∃ s, write x = some s ∧ s ≠ [] ∧ read s = some x) : (base64BiCoder write read).Faithful := by
  constructor
  intro x
  obtain ⟨s,wrote,filled,back⟩ := each x
  exact base64_row wrote filled back

theorem page_survives_disk {io later : Io} {seq : Text} {page : List (List UInt8)} (filled : ∀ s ∈ page, s ≠ [])
    {q after : PersistedQueue (List UInt8)} (written : q.persistToFile io bytesBiCoder seq page = (.ok (),after))
    (opens : later.opens (q.place.pagePath seq) = true) :
    (after.loadFromFile later bytesBiCoder (q.place.pagePath seq)).1 = .ok page := by
  have each : ∀ s ∈ page, ∃ row, bytesBiCoder.encode s = some row ∧ bytesBiCoder.decode row = some s ∧
      OneLine row ∧ '\x00' ∉ row := fun s member => base64_row rfl (filled s member) rfl
  obtain ⟨contents,encoded,decoded⟩ := BiCoder.page_survives each
  have held : after.files.lookup (q.place.pagePath seq) = some contents := by
    simp only [persistToFile] at written
    split at written
    · rw [encoded] at written
      cases written
      exact AList.lookup_insert _
    · cases written
  simp only [loadFromFile,held,opens,if_true,decoded]

def fourItems : List (List UInt8) := [[10],[0,255],[61,61,61],[1,2,3,4]]

theorem page_survives_disk_four :
    ((((opened tmpPlace 4 ∅).persistToFile (.healthy 1500000000) bytesBiCoder ['0'] fourItems).2).loadFromFile
      (.healthy 1500000000) bytesBiCoder (tmpPlace.pagePath ['0'])).1 = .ok fourItems := by
  have filled : ∀ s ∈ fourItems, s ≠ [] := by decide
  have wrote : ((opened tmpPlace 4 ∅).persistToFile (.healthy 1500000000) bytesBiCoder ['0'] fourItems).1 = .ok () := rfl
  have written : (opened tmpPlace 4 ∅).persistToFile (.healthy 1500000000) bytesBiCoder ['0'] fourItems =
      (.ok (),((opened tmpPlace 4 ∅).persistToFile (.healthy 1500000000) bytesBiCoder ['0'] fourItems).2) :=
    Prod.ext wrote rfl
  exact @page_survives_disk (.healthy 1500000000) (.healthy 1500000000) ['0'] fourItems filled _ _ written rfl

end Kisscpp
