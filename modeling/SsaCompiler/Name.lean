/-!
# Qualified names

A qualified name is a path of segments joined by two colons: `unit::item`, or
`unit::function::local`. A name without a separator is looked up where it is used; one with a
separator is looked up in the whole module.
-/

namespace SsaCompiler

namespace Name

def path (segments : List String) : String := "::".intercalate segments

def hasSeparator : List Char → Bool
  | ':' :: ':' :: _ => true
  | _ :: rest => hasSeparator rest
  | [] => false

def isQualified (name : String) : Bool := hasSeparator name.toList

def afterLastSeparator? : List Char → Option (List Char)
  | [] => none
  | c :: rest =>
    match afterLastSeparator? rest with
    | some segment => some segment
    | none => match c, rest with
      | ':', ':' :: rest => some rest
      | _, _ => none

def lastSegment (name : String) : String :=
  match afterLastSeparator? name.toList with
  | some segment => String.ofList segment
  | none => name

/-- Removes `head` from the front of a list that starts with it. -/
def dropHead? : List Char → List Char → Option (List Char)
  | [], text => some text
  | _ :: _, [] => none
  | c :: head, d :: text => if c = d then dropHead? head text else none

/-- A name as seen from inside `unit`: without that unit's own segment. -/
def relativeTo (unit name : String) : String :=
  match dropHead? (unit ++ "::").toList name.toList with
  | some rest => String.ofList rest
  | none => name

end Name

end SsaCompiler
