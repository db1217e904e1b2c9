/-!
# Spelling suggestions

For a name that is not found, the candidates nearest to it are suggested. Nearness is the edit
distance: the least number of characters to insert, delete or replace. The distance of two texts is
computed a row at a time; the row of a text `s` holds its distances to the beginnings of `t`, from
the shortest on.
-/

namespace SsaCompiler

namespace Suggestion

/-- The rest of a row: `left` is the entry before it, the row above starts with the entry above
`left`, and `t` holds the characters of the columns to come. -/
def extendRow (c : Char) (left : Nat) : List Char → List Nat → List Nat
  | d :: t, diagonal :: above :: row =>
    let cost := if c = d then 0 else 1
    let entry := min (min (above + 1) (left + 1)) (diagonal + cost)
    entry :: extendRow c entry t (above :: row)
  | _, _ => []

/-- The row of a text followed by `c`, from the row of the text. -/
def nextRow (c : Char) (t : List Char) (row : List Nat) : List Nat :=
  match row with
  | [] => []
  | first :: _ => (first + 1) :: extendRow c (first + 1) t row

def editDistance (s t : List Char) : Nat :=
  (s.foldl (fun row c => nextRow c t row) (List.range (t.length + 1))).getLastD 0

def reach : Nat := 3

def limit : Nat := 3

/-- Nearer first, then in the order of the texts. -/
def before (a b : Nat × String) : Bool := a.1 < b.1 || (a.1 = b.1 && a.2 ≤ b.2)

/-- Removes repetitions from a sorted list. -/
def dedup : List (Nat × String) → List (Nat × String)
  | a :: b :: rest => if a = b then dedup (b :: rest) else a :: dedup (b :: rest)
  | short => short

/-- The candidates near `name`, other than `name` itself, nearest first. -/
def suggest (name : String) (candidates : List String) : List String :=
  let scored := (candidates.filter (· ≠ name)).map fun candidate =>
    (editDistance name.toList candidate.toList, candidate)
  let near := scored.filter (·.1 ≤ reach)
  ((dedup (near.mergeSort before)).take limit).map (·.2)

end Suggestion

end SsaCompiler
