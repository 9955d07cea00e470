namespace Phrasebook

/-- The elements of a list that occur neither in `seen` nor earlier in the list. -/
def firsts {α : Type} [DecidableEq α] (seen : List α) : List α → List α
  | [] => []
  | x :: xs => if x ∈ seen then firsts seen xs else x :: firsts (x :: seen) xs

end Phrasebook
