/-!
# Cutting text at a character

`splitOn sep cs` cuts `cs` at every `sep`; there is always one piece more than
there are separators, and joining the pieces with `sep` gives `cs` back.
-/

namespace Classdesk.Text

/-- The pieces of a text between the occurrences of `sep`. -/
def splitOn (sep : Char) : List Char → List (List Char)
  | [] => [[]]
  | c :: cs =>
    if c = sep then [] :: splitOn sep cs
    else
      match splitOn sep cs with
      | [] => [[c]]
      | piece :: pieces => (c :: piece) :: pieces

/-- The pieces of a text, each with the `sep` that ends it; the last piece is
left out when it is empty. -/
def splitAfter (sep : Char) : List Char → List (List Char)
  | [] => []
  | c :: cs =>
    if c = sep then [c] :: splitAfter sep cs
    else
      match splitAfter sep cs with
      | [] => [[c]]
      | piece :: pieces => (c :: piece) :: pieces

/-- There is always a piece, even if it is empty. -/
theorem splitOn_ne_nil (sep : Char) (cs : List Char) : splitOn sep cs ≠ [] := by
  cases cs with
  | nil => simp [splitOn]
  | cons c cs =>
    rw [splitOn]
    split
    · simp
    · split <;> simp

/-- Nothing is lost: the pieces put together are the text. -/
theorem flatten_splitAfter (sep : Char) (cs : List Char) :
    (splitAfter sep cs).flatten = cs := by
  induction cs with
  | nil => rfl
  | cons c cs ih =>
    rw [splitAfter]
    split
    · simp [ih]
    · split
      · next h => rw [h] at ih; simpa using ih
      · next h => rw [h] at ih; simpa using ih

/-- The text with every `a` replaced by the text `b`. -/
def replaceChar (a : Char) (b : List Char) (cs : List Char) : List Char :=
  cs.flatMap fun c => if c = a then b else [c]

end Classdesk.Text
