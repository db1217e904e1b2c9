import SsaCompiler.Diagnostic
import SsaCompiler.Report.Excerpt

/-!
# Reports

The text of a diagnostic for its reader: the code, the message, an excerpt of the source if the text
of the unit is known, and the hint. Without an excerpt the message says where the problem is.
-/

namespace SsaCompiler

namespace Report

/-- Lines put behind margins, the first behind its own. Trailing blanks are left out. -/
def indent (first others text : String) : List String :=
  (text.splitOn "\n").zipIdx.map fun (line, index) =>
    (if index = 0 then first else others) ++
      String.ofList (line.toList.reverse.dropWhile (· = ' ')).reverse

def place (diagnostic : Diagnostic) : String :=
  match diagnostic.unit, diagnostic.location with
  | some unit, some location => " (in " ++ unit ++ " at " ++ location.render ++ ")"
  | some unit, none => " (in " ++ unit ++ ")"
  | none, _ => ""

def excerpt? (style : Style) (sources : SourceMap) (diagnostic : Diagnostic) :
    Except Fault (Option (List String)) :=
  match diagnostic.unit.bind sources.get?, diagnostic.location with
  | some file, some location => Excerpt.ofLocation? style file location
  | _, _ => return none

def lines (style : Style) (sources : SourceMap) (diagnostic : Diagnostic) :
    Except Fault (List String) := do
  let excerpt ← excerpt? style sources diagnostic
  let message := match excerpt with
    | some _ => diagnostic.message
    | none => diagnostic.message ++ place diagnostic
  let help := match diagnostic.help with
    | some help => indent (style.paint Style.help "  help: ") (Excerpt.blanks 8) help
    | none => []
  return [style.paint Style.error diagnostic.kind.code, ""] ++
    indent ("  " ++ style.paint Style.error "×" ++ " ") ("  " ++ style.paint Style.error "│" ++ " ")
      message ++
    excerpt.getD [] ++ help

end Report

def Diagnostic.render (diagnostic : Diagnostic) (style : Style) (sources : SourceMap) :
    Except Fault String := do
  let lines ← Report.lines style sources diagnostic
  return String.join (lines.map (· ++ "\n"))

end SsaCompiler
