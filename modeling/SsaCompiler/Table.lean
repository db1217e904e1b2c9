/-!
# Tables

A finite map that remembers the order in which its keys were first inserted. Inserting a key again
replaces its value and leaves its position.
-/

namespace SsaCompiler

/-- A finite map in order of first insertion. -/
structure Table (κ α : Type) where
  entries : List (κ × α)
deriving DecidableEq, Repr

namespace Table

variable {κ α : Type} [DecidableEq κ]

def empty : Table κ α := ⟨[]⟩

instance : Inhabited (Table κ α) := ⟨empty⟩

def find? (key : κ) : List (κ × α) → Option α
  | [] => none
  | (other, value) :: rest => if other = key then some value else find? key rest

def get? (table : Table κ α) (key : κ) : Option α := find? key table.entries

def contains (table : Table κ α) (key : κ) : Bool := (table.get? key).isSome

/-- Entries with a value set. -/
def put (key : κ) (value : α) : List (κ × α) → List (κ × α)
  | [] => [(key, value)]
  | (other, old) :: rest =>
    if other = key then (key, value) :: rest else (other, old) :: put key value rest

def insert (table : Table κ α) (key : κ) (value : α) : Table κ α := ⟨put key value table.entries⟩

def keys (table : Table κ α) : List κ := table.entries.map (·.1)

def values (table : Table κ α) : List α := table.entries.map (·.2)

def size (table : Table κ α) : Nat := table.entries.length

def truncate (table : Table κ α) (count : Nat) : Table κ α := ⟨table.entries.take count⟩

end Table

end SsaCompiler
