import Kisscpp.BitGroups
import Kisscpp.TextLines

namespace Base64
open TextLines BitGroups

-- The base64 iterators of Boost.Serialization, which regroup bits as RFC 4648
-- does: base64_from_binary over transform_width<6,8>, and
-- transform_width<8,6> over binary_from_base64 over remove_whitespace.
def alphabet : Text := "ABCDEFGHIJKLMNOPQRSTUVWXYZabcdefghijklmnopqrstuvwxyz0123456789+/".toList

def sextetChar (n : Nat) : Char := alphabet.getD n 'A'
-- Padding is read as six zeros.
def charSextet (c : Char) : Option Nat := if c = '=' then some 0 else alphabet.idxOf? c

def octets (bytes : List UInt8) : List Bool := bytes.flatMap fun byte => bits 8 byte.toNat

def fromBinary (bytes : List UInt8) : Text := (filled 6 (octets bytes)).map fun g => sextetChar (value g)

def isSpace (c : Char) : Bool := [' ','\t','\n','\x0b','\x0c','\r'].contains c

def isSignificant (c : Char) : Bool := !isSpace c

-- Another character throws, and so does the terminator, which is read behind
-- white space at the end and behind the first character of a last quartet.
def toBinary (text : Text) : Option (List UInt8) :=
  let characters := text.filter isSignificant
  if text.getLast?.any isSpace || characters.length % 4 = 1 then none
  else (characters.mapM charSextet).map fun sextets =>
    (groups 8 (sextets.flatMap (bits 6))).1.map fun g => UInt8.ofNat (value g)

theorem charSextet_sextetChar : ∀ n : Fin 64, charSextet (sextetChar n) = some n.val := by decide +kernel

theorem alphabet_plain : ∀ c ∈ alphabet, isSpace c = false ∧ c ≠ '=' ∧ c ≠ '\x00' := by
  have each : alphabet.all (fun c => !isSpace c && c != '=' && c != '\x00') = true := by decide +kernel
  intro c member
  have plain := List.all_eq_true.mp each c member
  simpa [and_assoc] using plain

theorem sextetChar_mem : ∀ n : Fin 64, sextetChar n ∈ alphabet := by decide +kernel

theorem fromBinary_mem {bytes : List UInt8} : ∀ c ∈ fromBinary bytes, c ∈ alphabet := by
  intro c member
  obtain ⟨_,_,_,even⟩ := filled_parts (show 0 < 6 by decide) (octets bytes)
  obtain ⟨g,inside,rfl⟩ := List.mem_map.mp member
  have small := value_lt g
  rw [even g inside] at small
  exact sextetChar_mem ⟨value g,small⟩

theorem length_octets (bytes : List UInt8) : (octets bytes).length = 8 * bytes.length := by
  induction bytes with
  | nil => rfl
  | cons byte rest ih =>
    rw [octets,List.flatMap_cons,List.length_append,length_bits] at *
    rw [ih,List.length_cons]
    omega

theorem fromBinary_length (bytes : List UInt8) : ∃ zeros < 6,
    8 * bytes.length + zeros = 6 * (fromBinary bytes).length ∧
      (filled 6 (octets bytes)).flatten = octets bytes ++ List.replicate zeros false := by
  obtain ⟨zeros,few,whole,even⟩ := filled_parts (show 0 < 6 by decide) (octets bytes)
  have length := congrArg List.length whole
  rw [length_even even,List.length_append,List.length_replicate,length_octets] at length
  refine ⟨zeros,few,?_,whole⟩
  rw [fromBinary,List.length_map]
  omega

theorem mapM_sextets {gs : List (List Bool)} (even : ∀ g ∈ gs, g.length = 6) :
    (gs.map fun g => sextetChar (value g)).mapM charSextet = some (gs.map value) := by
  induction gs with
  | nil => rfl
  | cons g others ih =>
    have here := even g List.mem_cons_self
    have later := ih fun other member => even other (List.mem_cons_of_mem _ member)
    have small := value_lt g
    rw [here] at small
    have back := charSextet_sextetChar ⟨value g,small⟩
    simp only [List.map_cons,List.mapM_cons,back,later,Option.bind_eq_bind,Option.bind_some,Option.pure_def]

theorem flatMap_sextets {gs : List (List Bool)} (even : ∀ g ∈ gs, g.length = 6) :
    (gs.map value).flatMap (bits 6) = gs.flatten := by
  induction gs with
  | nil => rfl
  | cons g others ih =>
    have here := even g List.mem_cons_self
    have later := ih fun other member => even other (List.mem_cons_of_mem _ member)
    have back := bits_value g
    rw [here] at back
    rw [List.map_cons,List.flatMap_cons,back,later,List.flatten_cons]

theorem groups_octets (bytes : List UInt8) :
    ((groups 8 (octets bytes)).1.map fun g => UInt8.ofNat (value g)) = bytes := by
  have split := @groups_flatten 8 (by decide) (bytes.map fun byte => bits 8 byte.toNat) (by
    intro g member
    obtain ⟨byte,_,rfl⟩ := List.mem_map.mp member
    exact length_bits 8 _) [] (by decide)
  rw [List.append_nil,← List.flatMap_def] at split
  change groups 8 (octets bytes) = _ at split
  rw [split]
  simp only [List.map_map,Function.comp_def,value_bits]
  have same : ∀ byte : UInt8, UInt8.ofNat (byte.toNat % 2 ^ 8) = byte := by
    intro byte
    rw [Nat.mod_eq_of_lt byte.toNat_lt]
    exact UInt8.ofNat_toNat
  simp only [same,List.map_id']

theorem toBinary_visible {text : Text} (visible : ∀ c ∈ text, isSpace c = false) (complete : text.length % 4 ≠ 1) :
    toBinary text = (text.mapM charSextet).map fun sextets =>
      (groups 8 (sextets.flatMap (bits 6))).1.map fun g => UInt8.ofNat (value g) := by
  have plain : text.filter isSignificant = text := by
    apply List.filter_eq_self.mpr
    intro c member
    rw [isSignificant,visible c member]
    rfl
  have closed : text.getLast?.any isSpace = false := by
    cases last : text.getLast? with
    | none => rfl
    | some c => exact visible c (List.mem_of_getLast? last)
  simp only [toBinary,plain,closed,decide_eq_false complete,Bool.or_self,Bool.false_eq_true,if_false]

theorem padded_octets {bytes : List UInt8} {zeros fill extra : Nat} (gs : List (List Bool))
    (whole : gs.flatten = octets bytes ++ List.replicate zeros false) (fits : zeros + 6 * fill = 8 * extra) :
    (gs ++ List.replicate fill (bits 6 0)).flatten = octets (bytes ++ List.replicate extra 0) := by
  rw [List.flatten_append,whole,octets,octets,List.flatMap_append,List.append_assoc]
  apply congrArg
  rw [List.flatMap_def,List.map_replicate,bits_zero,List.flatten_replicate_replicate]
  change _ = (List.replicate extra (bits 8 0)).flatten
  rw [bits_zero,List.flatten_replicate_replicate,List.replicate_append_replicate]
  apply congrArg (fun n => List.replicate n false)
  omega

theorem toBinary_padded {bytes : List UInt8} {fill extra : Nat}
    (fits : 6 * ((fromBinary bytes).length + fill) = 8 * (bytes.length + extra)) :
    toBinary (fromBinary bytes ++ List.replicate fill 'A') = some (bytes ++ List.replicate extra 0) := by
  obtain ⟨zeros,_,length,whole⟩ := fromBinary_length bytes
  obtain ⟨_,_,_,even⟩ := filled_parts (show 0 < 6 by decide) (octets bytes)
  have text : fromBinary bytes ++ List.replicate fill 'A' =
      (filled 6 (octets bytes) ++ List.replicate fill (bits 6 0)).map fun g => sextetChar (value g) := by
    rw [List.map_append,List.map_replicate]
    rfl
  have evenAll : ∀ g ∈ filled 6 (octets bytes) ++ List.replicate fill (bits 6 0), g.length = 6 := by
    intro g member
    rcases List.mem_append.mp member with coded | added
    · exact even g coded
    · rw [List.eq_of_mem_replicate added,length_bits]
  have visible : ∀ c ∈ fromBinary bytes ++ List.replicate fill 'A', isSpace c = false := by
    intro c member
    rcases List.mem_append.mp member with coded | added
    · exact (alphabet_plain c (fromBinary_mem c coded)).1
    · rw [List.eq_of_mem_replicate added]
      decide
  have complete : (fromBinary bytes ++ List.replicate fill 'A').length % 4 ≠ 1 := by
    rw [List.length_append,List.length_replicate]
    omega
  have bitsAll := padded_octets _ whole (show zeros + 6 * fill = 8 * extra by omega)
  rw [toBinary_visible visible complete,text,mapM_sextets evenAll,Option.map_some,flatMap_sextets evenAll,bitsAll,
    groups_octets]

end Base64
