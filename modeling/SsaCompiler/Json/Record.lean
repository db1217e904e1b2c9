import SsaCompiler.Json.Value

/-!
# Reading typed values out of JSON

A record is an object or the list of its members in order. In an object the members may stand in
any order, members that the record does not have are passed over, and a member of the record may
not be repeated. A variant is its bare name, or an object whose one member is the name with the
payload.
-/

namespace SsaCompiler

namespace Json

def string? : Json → Option String
  | .string value => some value
  | _ => none

def bool? : Json → Option Bool
  | .bool value => some value
  | _ => none

def int? : Json → Option Int
  | .number value => value.toInt?
  | _ => none

def nat? (json : Json) : Option Nat :=
  match json.int? with
  | some value => if value < 0 then none else some value.toNat
  | none => none

def unsigned? (bits : Nat) (json : Json) : Option Nat :=
  match json.int? with
  | some value => if 0 ≤ value ∧ value < (Nat.pow 2 bits : Int) then some value.toNat else none
  | none => none

def int64? (json : Json) : Option Int :=
  match json.int? with
  | some value => if -(Nat.pow 2 63 : Int) ≤ value ∧ value < (Nat.pow 2 63 : Int) then some value else none
  | none => none

def binary64? : Json → Option Binary64
  | .number value => value.toBinary64?
  | _ => none

def elements? : Json → Option (List Json)
  | .array elements => some elements
  | _ => none

def list? {α : Type} (decode : Json → Option α) (json : Json) : Option (List α) := do
  let elements ← json.elements?
  elements.mapM decode

/-- The first member of an object with a name. -/
def member? (name : String) : Json → Option Json
  | .object members => members.lookup name
  | _ => none

/-- A member of an object that is not null. -/
def present? (name : String) (json : Json) : Option Json :=
  match json.member? name with
  | none | some .null => none
  | some value => some value

def nullable? {α : Type} (decode : Json → Option α) : Json → Option (Option α)
  | .null => some none
  | json => (decode json).map some

/-- The name of a variant, and its payload if one is written. -/
def variant? : Json → Option (String × Option Json)
  | .string name => some (name, none)
  | .object [(name, payload)] => some (name, some payload)
  | _ => none

/-- The name of a variant without payload, which may be written with a null one. -/
def bareVariant? (json : Json) : Option String := do
  match ← json.variant? with
  | (name, none) => some name
  | (name, some .null) => some name
  | _ => none

/-- The members of a record that are written. -/
structure Record where
  members : List (String × Json)
  positional : Bool

def record? (names : List String) : Json → Option Record
  | .array elements =>
    if elements.length ≤ names.length then some ⟨names.zip elements, true⟩ else none
  | .object members =>
    let known := members.filter fun member => names.contains member.1
    if (known.map (·.1)).Nodup then some ⟨known, false⟩ else none
  | _ => none

namespace Record

def get? (record : Record) (name : String) : Option Json := record.members.lookup name

def required {α : Type} (record : Record) (name : String) (decode : Json → Option α) : Option α := do
  decode (← record.get? name)

/-- A member that may be null, and may be missing from an object. -/
def optional {α : Type} (record : Record) (name : String) (decode : Json → Option α) :
    Option (Option α) :=
  match record.get? name with
  | some json => nullable? decode json
  | none => if record.positional then none else some none

/-- A member that may be missing, and then has the value `fallback`. -/
def withDefault {α : Type} (record : Record) (name : String) (decode : Json → Option α)
    (fallback : α) : Option α :=
  match record.get? name with
  | some json => decode json
  | none => some fallback

end Record

end Json

end SsaCompiler
