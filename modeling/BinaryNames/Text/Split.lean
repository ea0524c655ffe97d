/-!
# Splitting and Joining

A list is cut at every occurrence of a separator, so there is always one piece more than there are
separators; joining the pieces gives the list back.
-/

namespace BinaryNames

variable {α : Type} [DecidableEq α]

/-- The pieces between the occurrences of `sep`. -/
def splitOn (sep : α) : List α → List (List α)
  | [] => [[]]
  | a :: rest =>
    if a = sep then [] :: splitOn sep rest
    else match splitOn sep rest with
      | [] => [[a]]
      | piece :: pieces => (a :: piece) :: pieces

/-- The pieces with `sep` between neighbours. -/
def joinWith (sep : α) : List (List α) → List α
  | [] => []
  | [piece] => piece
  | piece :: pieces => piece ++ sep :: joinWith sep pieces

theorem splitOn_ne_nil (sep : α) (l : List α) : splitOn sep l ≠ [] := by
  cases l with
  | nil => simp [splitOn]
  | cons a rest =>
    rw [splitOn]
    split
    · simp
    · split <;> simp

theorem joinWith_splitOn (sep : α) (l : List α) : joinWith sep (splitOn sep l) = l := by
  induction l with
  | nil => rfl
  | cons a rest ih =>
    have hne := splitOn_ne_nil sep rest
    rw [splitOn]
    match h : splitOn sep rest with
    | [] => exact absurd h hne
    | piece :: pieces =>
      rw [h] at ih
      split
      · next ha => subst ha; simp [joinWith, ih]
      · cases pieces with
        | nil => simpa [joinWith] using ih
        | cons q qs => simpa [joinWith] using ih

end BinaryNames
