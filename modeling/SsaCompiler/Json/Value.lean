import SsaCompiler.Binary64

/-!
# JSON values

A JSON value keeps what its text says: the members of an object stay in order and may repeat, and
a number is kept as an integer if it was written as one, and otherwise as binary64.
-/

namespace SsaCompiler

inductive Number where
  /-- An integer token of at most sixty-four bits. -/
  | integer (value : Int)
  | binary (value : Binary64)
  /-- A number beyond the greatest binary64 number. -/
  | beyond (negative : Bool)
deriving DecidableEq, Repr

namespace Number

def toInt? : Number → Option Int
  | .integer value => some value
  | _ => none

def toBinary64? : Number → Option Binary64
  | .integer value => Binary64.ofRatio (value < 0) value.natAbs 1
  | .binary value => some value
  | .beyond _ => none

end Number

inductive Json where
  | null
  | bool (value : Bool)
  | number (value : Number)
  | string (value : String)
  | array (elements : List Json)
  | object (members : List (String × Json))
  /-- A string with an unpaired surrogate, which is no text, or an object with such a name. It can be
  passed over but not read. -/
  | unreadable
deriving Repr, Inhabited

namespace Json

def int (value : Int) : Json := .number (.integer value)

def nat (value : Nat) : Json := .number (.integer value)

/-- A binary64 number, or null if it is not finite. -/
def float (value : Binary64) : Json :=
  if value.isFinite then .number (.binary value) else .null

/-- An encoded value, or null when there is none. -/
def optional {α : Type} (encode : α → Json) : Option α → Json
  | some value => encode value
  | none => .null

mutual
/-- The value with the members of each object in the order of their names. -/
def sorted : Json → Json
  | .array elements => .array (sortedElements elements)
  | .object members => .object ((sortedMembers members).mergeSort fun a b => a.1 ≤ b.1)
  | json => json

def sortedElements : List Json → List Json
  | [] => []
  | element :: rest => sorted element :: sortedElements rest

def sortedMembers : List (String × Json) → List (String × Json)
  | [] => []
  | (name, value) :: rest => (name, sorted value) :: sortedMembers rest
end

def list {α : Type} (encode : α → Json) (values : List α) : Json := .array (values.map encode)

mutual
def depth : Json → Nat
  | .array elements => depthElements elements + 1
  | .object members => depthMembers members + 1
  | _ => 0

def depthElements : List Json → Nat
  | [] => 0
  | element :: rest => max (depth element) (depthElements rest)

def depthMembers : List (String × Json) → Nat
  | [] => 0
  | (_, value) :: rest => max (depth value) (depthMembers rest)
end

end Json

end SsaCompiler
