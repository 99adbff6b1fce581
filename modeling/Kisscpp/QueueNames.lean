import Kisscpp.QueueModel

namespace Kisscpp
open TextLines DecimalText

-- What seqNumber prints: the second of the clock and the counter within it.
@[ext] structure SeqNumber where
  second : Nat
  counter : Nat
  deriving DecidableEq

namespace SeqNumber

def text (s : SeqNumber) : Text := decimal s.second ++ padded s.counter

def Before (s t : SeqNumber) : Prop := s.second < t.second ∨ s.second = t.second ∧ s.counter < t.counter

instance (s t : SeqNumber) : Decidable (s.Before t) := inferInstanceAs (Decidable (_ ∨ _))

theorem Before.ne {s t : SeqNumber} (before : s.Before t) : s ≠ t := by
  rintro rfl
  unfold Before at before
  omega

end SeqNumber

-- The seconds from September 2001 to November 2286.
def TenDigits (second : Nat) : Prop := 10 ^ 9 ≤ second ∧ second < 10 ^ 10

instance (second : Nat) : Decidable (TenDigits second) := inferInstanceAs (Decidable (_ ∧ _))

theorem padded_zeros (count : Nat) : ∃ n, padded count = List.replicate n '0' ++ decimal count := by
  unfold padded
  split <;> split <;> split
  · exact ⟨3,by simp [List.replicate]⟩
  · exact ⟨2,by simp [List.replicate]⟩
  · exact ⟨2,by simp [List.replicate]⟩
  · exact ⟨1,by simp [List.replicate]⟩
  · exact ⟨2,by simp [List.replicate]⟩
  · exact ⟨1,by simp [List.replicate]⟩
  · exact ⟨1,by simp [List.replicate]⟩
  · exact ⟨0,by simp⟩

theorem digits_padded (count : Nat) : Digits (padded count) := by
  obtain ⟨n,equal⟩ := padded_zeros count
  rw [equal]
  exact (digits_zeros n).append (digits_decimal count)

theorem value_padded (count : Nat) : value (padded count) = count := by
  obtain ⟨n,equal⟩ := padded_zeros count
  rw [equal,value_zeros,value_decimal]

-- The padding stops at four digits: up to 9999 every counter has this length.
theorem length_padded {count : Nat} (small : count < 10000) : (padded count).length = 4 := by
  unfold padded
  rcases Nat.lt_or_ge count 10 with below | above
  · have one : 0 < (decimal count).length := Nat.length_toDigits_pos
    have upper : (decimal count).length ≤ 1 := (Nat.length_toDigits_le_iff (by decide) (by decide)).mpr below
    rw [if_pos (by omega),if_pos (by omega),if_pos below]
    simp only [List.length_append,List.length_singleton]
    omega
  · rcases Nat.lt_or_ge count 100 with below | above'
    · rw [if_pos (by omega),if_pos below,if_neg (by omega)]
      simp [length_decimal (k := 1) above below]
    · rcases Nat.lt_or_ge count 1000 with below | above''
      · rw [if_pos below,if_neg (by omega),if_neg (by omega)]
        simp [length_decimal (k := 2) above' below]
      · rw [if_neg (by omega),if_neg (by omega),if_neg (by omega)]
        simp [length_decimal (k := 3) above'' small]

theorem length_second {second : Nat} (ten : TenDigits second) : (decimal second).length = 10 :=
  length_decimal (k := 9) ten.1 ten.2

namespace SeqNumber

theorem digits_text (s : SeqNumber) : Digits s.text := (digits_decimal s.second).append (digits_padded s.counter)

-- Ten digits of seconds make the border between the two numbers visible.
theorem text_injective {s t : SeqNumber} (left : TenDigits s.second) (right : TenDigits t.second)
    (same : s.text = t.text) : s = t := by
  have length : (decimal s.second).length = (decimal t.second).length := by
    rw [length_second left,length_second right]
  obtain ⟨seconds,counters⟩ := List.append_inj same length
  have secondEq := congrArg value seconds
  have counterEq := congrArg value counters
  rw [value_decimal,value_decimal] at secondEq
  rw [value_padded,value_padded] at counterEq
  exact SeqNumber.ext secondEq counterEq

theorem text_lt {s t : SeqNumber} (left : TenDigits s.second) (right : TenDigits t.second)
    (leftSmall : s.counter < 10000) (rightSmall : t.counter < 10000) (before : s.Before t) :
    s.text < t.text := by
  refine lt_of_value_lt s.digits_text t.digits_text ?_ ?_
  · simp [text,length_second left,length_second right,length_padded leftSmall,length_padded rightSmall]
  · simp only [text,value_append,value_decimal,value_padded,length_padded leftSmall,length_padded rightSmall]
    unfold Before at before
    omega

theorem text_long {s : SeqNumber} (ten : TenDigits s.second) : 1 < s.text.length := by
  simp only [text,List.length_append,length_second ten]
  omega

theorem text_ne_zero {s : SeqNumber} (ten : TenDigits s.second) : s.text ≠ ['0'] := by
  intro equal
  have long := text_long ten
  rw [equal] at long
  exact absurd long (by decide)

theorem zero_lt_text {s : SeqNumber} (ten : TenDigits s.second) : ['0'] < s.text := by
  have long := text_long ten
  have digits := s.digits_text
  cases shape : s.text with
  | nil => simp [shape] at long
  | cons c rest =>
    rw [shape] at long digits
    have low := (digit_bounds (digits c (by simp))).1
    rw [List.cons_lt_cons_iff,char_lt_iff]
    rcases Nat.lt_or_eq_of_le low with above | equal
    · exact .inl above
    · refine .inr ⟨Char.toNat_inj.mp equal,?_⟩
      cases rest with
      | nil => simp at long
      | cons => exact List.nil_lt_cons _ _

end SeqNumber

theorem nameChar_plain {c : Char} (plain : nameChar c = true) : c ≠ '/' ∧ c ≠ '\n' := by
  constructor <;> rintro rfl <;> exact absurd plain (by decide)

theorem nameChar_digit {c : Char} (digit : c.isDigit = true) : nameChar c = true := by
  have letters : specialChars.all (fun special => !special.isDigit) = true := rfl
  have absent : c ∉ specialChars := by
    intro member
    have letter := List.all_eq_true.mp letters c member
    simp [digit] at letter
  simp [nameChar,absent]

theorem isDigit_plain {c : Char} (digit : c.isDigit = true) : c ≠ '/' ∧ c ≠ '\n' := by
  constructor <;> rintro rfl <;> exact absurd digit (by decide)

theorem isPrefixOf?_append (first second : Text) : first.isPrefixOf? (first ++ second) = some second := by
  induction first with
  | nil => rfl
  | cons c rest ih => simp [List.isPrefixOf?,ih]

theorem regex_own (name rest : Text) : queueFileRegex name (name ++ rest) = queueFileRegex [] rest := by
  induction name with
  | nil => rfl
  | cons c name ih => simp [queueFileRegex,ih]

namespace Place
variable (p : Place)

theorem isQueueFile_path {fileName : Text} (flat : '/' ∉ fileName) :
    p.isQueueFile (p.path fileName) = queueFileRegex p.queueName.text fileName := by
  simp [isQueueFile,path,isPrefixOf?_append,flat]

theorem slash_not_in_name : '/' ∉ p.queueName.text :=
  fun member => (nameChar_plain (p.queueName.plain _ member)).1 rfl

theorem flat_name {rest : Text} (plain : '/' ∉ rest) : '/' ∉ p.queueName.text ++ '_' :: rest := by
  intro member
  rcases List.mem_append.mp member with inName | inRest
  · exact p.slash_not_in_name inName
  · rcases List.mem_cons.mp inRest with equal | later
    · exact absurd equal (by decide)
    · exact plain later

theorem pagePath_injective {first second : Text} (same : p.pagePath first = p.pagePath second) : first = second := by
  simpa [pagePath,path] using same

theorem pagePath_lt {first second : Text} (less : first < second) : p.pagePath first < p.pagePath second := by
  refine List.append_left_lt (List.append_left_lt ?_)
  exact List.cons_lt_cons_iff.mpr (.inr ⟨rfl,less⟩)

theorem pagePath_ne_state {seq : Text} (digits : Digits seq) : p.pagePath seq ≠ p.stateFilePath := by
  intro equal
  have tails : seq = ['S','T','A','T','E'] := by simpa [pagePath,stateFilePath,path] using equal
  exact absurd (digits 'S' (by rw [tails]; decide)) (by decide)

theorem filed_noState {files : FileSystem} {seq contents : Text} (digits : Digits seq)
    (noState : p.stateFilePath ∉ files) : p.stateFilePath ∉ files.insert (p.pagePath seq) contents := by
  intro present
  rcases (AList.mem_insert _).mp present with new | old
  · exact p.pagePath_ne_state digits new.symm
  · exact noState old

theorem isQueueFile_pagePath {seq : Text} (digits : Digits seq) : p.isQueueFile (p.pagePath seq) = true := by
  have flat := p.flat_name fun member => (isDigit_plain (digits _ member)).1 rfl
  rw [pagePath,isQueueFile_path p flat,regex_own]
  exact List.all_eq_true.mpr digits

theorem isQueueFile_state : p.isQueueFile p.stateFilePath = false := by
  have flat := p.flat_name (show '/' ∉ ['S','T','A','T','E'] by decide)
  rw [stateFilePath,isQueueFile_path p flat,regex_own]
  rfl

theorem oneLine_pagePath {seq : Text} (digits : Digits seq) : OneLine (p.pagePath seq) := by
  intro member
  rcases List.mem_append.mp member with inDirectory | inFile
  · unfold Directory.slashed at inDirectory
    split at inDirectory
    · exact p.workingDirectory.oneLine inDirectory
    · rcases List.mem_append.mp inDirectory with inText | inSlash
      · exact p.workingDirectory.oneLine inText
      · exact absurd inSlash (by decide)
  · rcases List.mem_append.mp inFile with inName | inRest
    · exact (nameChar_plain (p.queueName.plain _ inName)).2 rfl
    · rcases List.mem_cons.mp inRest with equal | inSeq
      · exact absurd equal (by decide)
      · exact (isDigit_plain (digits _ inSeq)).2 rfl

end Place

namespace PersistedQueue
variable {α : Type}

def nextSeq (now : Nat) (q : PersistedQueue α) : SeqNumber :=
  ⟨now,if q.lastSeqNum = now then (q.seqNumCount + 1) % counterModulus else 0⟩

def numbered (now : Nat) (q : PersistedQueue α) : PersistedQueue α :=
  {q with lastSeqNum := now,seqNumCount := (q.nextSeq now).counter}

theorem seqNumber_eq (io : Io) (q : PersistedQueue α) :
    q.seqNumber io = ((q.nextSeq io.now).text,q.numbered io.now) := by
  unfold seqNumber numbered nextSeq SeqNumber.text
  by_cases same : q.lastSeqNum = io.now
  · simp [same]
  · simp [same]

end PersistedQueue
end Kisscpp
