/-!
# Paths

Paths are texts whose segments stand between slashes. Empty segments and segments `.` mean nothing,
except for what the path starts with.
-/

namespace SsaCompiler

namespace Path

def isAbsolute (path : String) : Bool := path.toList.head? = some '/'

def isVoid (segment : String) : Bool := segment = "" || segment = "."

def maxNameSize : Nat := 255

def maxSize : Nat := 4095

def isName (segment : String) : Bool := segment.utf8ByteSize ≤ maxNameSize

/-- Whether a path can be used at all: it is not too long, and there is no null character in it. -/
def isUsable (path : String) : Bool := path.utf8ByteSize ≤ maxSize && !path.toList.contains '\x00'

/-- Segments, the last one first, without those at the end that mean nothing. The first segment of
the path stays. -/
def trimEnd : List String → List String
  | [] => []
  | [first] => [first]
  | last :: segment :: rest =>
    if isVoid last then trimEnd (segment :: rest) else last :: segment :: rest

def ofReversed : List String → String
  | [""] => "/"
  | segments => "/".intercalate segments.reverse

/-- The path of the directory that a path lies in. The root and the empty path lie in none. -/
def parent? (path : String) : Option String :=
  match trimEnd (path.splitOn "/").reverse with
  | [] => none
  | [""] => none
  | _ :: rest => some (ofReversed (trimEnd rest))

def join (directory path : String) : String :=
  if isAbsolute path || directory.isEmpty then path
  else if directory.toList.getLast? = some '/' then directory ++ path
  else directory ++ "/" ++ path

end Path

end SsaCompiler
