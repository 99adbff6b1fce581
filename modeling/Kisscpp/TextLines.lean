import Mathlib.Data.List.Basic

namespace TextLines

-- A std::string is the list of its characters.
abbrev Text := List Char

-- The loop "getline; while not eof: use the record; getline": a record ends at
-- a newline, and an unterminated rest only raises eof.
def linesFrom : Text → Text → List Text
  | _,[] => []
  | line,c :: rest => if c = '\n' then line :: linesFrom [] rest else linesFrom (line ++ [c]) rest

def lines (text : Text) : List Text := linesFrom [] text

-- What "out << line << newline" in a loop leaves in the file.
def unlines (rows : List Text) : Text := rows.flatMap (fun row => row ++ ['\n'])

def OneLine (row : Text) : Prop := '\n' ∉ row

instance (row : Text) : Decidable (OneLine row) := inferInstanceAs (Decidable ('\n' ∉ row))

@[simp] theorem unlines_nil : unlines [] = [] := rfl
@[simp] theorem unlines_cons (row : Text) (rows : List Text) :
    unlines (row :: rows) = row ++ '\n' :: unlines rows := by simp [unlines]

theorem linesFrom_row (row done rest : Text) (single : OneLine row) :
    linesFrom done (row ++ '\n' :: rest) = (done ++ row) :: linesFrom [] rest := by
  induction row generalizing done with
  | nil => simp [linesFrom]
  | cons c row ih =>
    have different : c ≠ '\n' := fun equal => single (by simp [equal])
    have tail : OneLine row := fun member => single (List.mem_cons_of_mem _ member)
    rw [List.cons_append,linesFrom,if_neg different,ih _ tail]
    simp

theorem lines_unlines (rows : List Text) (single : ∀ row ∈ rows, OneLine row) :
    lines (unlines rows) = rows := by
  induction rows with
  | nil => rfl
  | cons row rows ih =>
    have rest := ih fun other member => single other (List.mem_cons_of_mem _ member)
    rw [unlines_cons,lines,linesFrom_row _ _ _ (single row (by simp)),List.nil_append]
    exact congrArg _ rest

theorem linesFrom_take (done text : Text) (length : Nat) :
    linesFrom done (text.take length) <+: linesFrom done text := by
  induction text generalizing done length with
  | nil => simp
  | cons c rest ih =>
    cases length with
    | zero => exact List.nil_prefix
    | succ length =>
      rw [List.take_succ_cons,linesFrom,linesFrom]
      split
      · exact List.cons_prefix_cons.mpr ⟨rfl,ih [] length⟩
      · exact ih (done ++ [c]) length

theorem lines_take {text line : Text} {length : Nat} (kept : line ∈ lines (text.take length)) : line ∈ lines text :=
  (linesFrom_take [] text length).subset kept

end TextLines
