import SsaCompiler.Name

/-!
# Interned names

An interner numbers the distinct texts it has seen, from zero in the order of first sight. A text
keeps its number, and a number its text.
-/

namespace SsaCompiler

structure Symbol where
  index : Nat
deriving DecidableEq, Repr, Inhabited

/-- The texts seen so far, without repetition. -/
structure Interner where
  texts : List String
deriving DecidableEq, Repr, Inhabited

namespace Interner

def empty : Interner := ⟨[]⟩

def get? (names : Interner) (text : String) : Option Symbol :=
  (names.texts.findIdx? (· = text)).map Symbol.mk

/-- The symbol of a text, which counts as seen from now on. -/
def intern (names : Interner) (text : String) : Symbol × Interner :=
  match names.get? text with
  | some symbol => (symbol, names)
  | none => (⟨names.texts.length⟩, ⟨names.texts ++ [text]⟩)

def resolve? (names : Interner) (symbol : Symbol) : Option String := names.texts[symbol.index]?

/-- The symbol of the path made of `segments`. -/
def qualify (names : Interner) (segments : List String) : Symbol × Interner :=
  names.intern (Name.path segments)

def size (names : Interner) : Nat := names.texts.length

def isEmpty (names : Interner) : Bool := names.texts.isEmpty

def summary (names : Interner) : String := s!"Interner \x7b len: {names.size} \x7d"

end Interner

end SsaCompiler
