namespace ClassVM.Text

/-- The pieces of `cs` between separators; there is always one more piece than separators. -/
def splitChars (sep : Char) : List Char → List (List Char)
  | [] => [[]]
  | c :: cs =>
    if c = sep then [] :: splitChars sep cs
    else
      match splitChars sep cs with
      | [] => [[c]]
      | piece :: pieces => (c :: piece) :: pieces

/-- The pieces of a text that are not empty, in order. -/
def piecesAt (sep : Char) (text : String) : List String :=
  ((splitChars sep text.toList).filter (· ≠ [])).map String.ofList

/-- Puts `new` in the place of every `old`. -/
def replaceChar (old new : Char) (text : String) : String :=
  text.map fun c => if c = old then new else c

theorem splitChars_ne_nil (sep : Char) (cs : List Char) : splitChars sep cs ≠ [] := by
  cases cs with
  | nil => simp [splitChars]
  | cons c cs =>
    unfold splitChars
    split
    · simp
    · split <;> simp

end ClassVM.Text
