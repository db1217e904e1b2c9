import SsaCompiler.Fault
import SsaCompiler.Report.TextLine
import SsaCompiler.SourceMap

/-!
# Excerpts

An excerpt shows the lines of a span and one line before and after them. A span within a line is
marked under the line, and a span of several lines in front of them. Above the excerpt stand the path
and the position of the start, both counted from one.
-/

namespace SsaCompiler

inductive Style where
  | plain
  | colored
deriving DecidableEq, Repr

namespace Style

/-- Text in a colour, given by its numbers in the escape sequence. -/
def paint (style : Style) (color text : String) : String :=
  match style with
  | plain => text
  | colored => "\x1b[" ++ color ++ "m" ++ text ++ "\x1b[0m"

def error : String := "31"

def warning : String := "33"

def mark : String := "35;1"

def help : String := "36"

def link : String := "36;1;4"

def number : String := "2"

end Style

/-- The part of a text shown for a span. -/
structure Excerpt where
  line : Nat
  /-- The column that the span starts in, in bytes, counted from one. -/
  column : Nat
  lines : List TextLine
deriving DecidableEq, Repr

namespace Excerpt

def blanks (count : Nat) : String := String.ofList (List.replicate count ' ')

/-- What is left of characters after a number of bytes. -/
def dropBytes : Nat → List Char → List Char
  | _, [] => []
  | 0, text => text
  | count, c :: rest => dropBytes (count - c.utf8Size) rest

/-- The characters that start within a number of bytes. -/
def takeBytes : Nat → List Char → List Char
  | _, [] => []
  | 0, _ => []
  | count, c :: rest => c :: takeBytes (count - c.utf8Size) rest

/-- The first offset behind the lines shown for a span that ends in front of `stop`: the line of the
last byte of the span and one more. A span that ends with a line break counts as going on into the
next line. An empty span counts as the byte in front of it. -/
def windowStop (rows : List TextLine) (size stop : Nat) : Nat :=
  match rows.filter fun row => row.isBroken ∧ stop - 1 < row.textStop with
  | _ :: after :: _ => after.stop
  | _ => size

/-- The excerpt of a text for the span of `length` bytes from `start` on. Lines are counted and
chosen by carriage returns too, but the lines shown are those between line feeds. -/
def select (text : String) (start length : Nat) : Excerpt :=
  let rows := TextLine.ofText .returns text
  let before := rows.filter fun row => row.isBroken ∧ row.stop ≤ start
  let rowStart := (before.getLast?.map TextLine.stop).getD 0
  let rowSize := ((rows.drop before.length).head?.map TextLine.size).getD 0
  let first := before.getLast?.getD (TextLine.start 1 0)
  let stop := windowStop rows text.utf8ByteSize (start + length)
  let shown := takeBytes (stop - first.offset) (dropBytes first.offset text.toList)
  ⟨before.length + 1, min (start - rowStart) rowSize + 1,
    TextLine.collect .feeds (TextLine.start (max before.length 1) first.offset) shown⟩

def numberWidth (excerpt : Excerpt) : Nat :=
  ((excerpt.lines.getLast?.map TextLine.number).getD 0).repr.length

def numberText (width number : Nat) : String := blanks (width - number.repr.length) ++ number.repr

/-- The mark under a span: dashes with a stem in the middle, or an arrow under an empty span. -/
def markText (length columns : Nat) : String :=
  let stem := if length = 0 then '▲' else '┬'
  String.ofList (List.replicate (columns / 2) '─' ++ stem ::
    List.replicate (columns - columns / 2 - 1) '─')

def isWithin (start length : Nat) (line : TextLine) : Bool :=
  line.offset ≤ start && start + max length 1 ≤ line.stop

/-- The lines under a line of the text: the mark and its label, if the span is on the line. -/
def markLines (style : Style) (width start length : Nat) (line : TextLine) : List String :=
  if isWithin start length line then
    let first := TextLine.columnAt false (start - line.offset) .home line.text
    let behind := if length = 0 then first + 1
      else max (TextLine.columnAt true (start + length - line.offset) .home line.text) (first + 1)
    let columns := behind - first
    let margin := blanks (width + 2) ++ "· "
    [margin ++ style.paint Style.mark (blanks first ++ markText length columns),
      margin ++ blanks (first + columns / 2) ++
        style.paint Style.mark ("╰── " ++ style.paint Style.mark "here")]
  else []

/-- How a span of several lines meets a line. -/
inductive Course where
  | starts
  | passes
  | ends
deriving DecidableEq, Repr

/-- How a span meets a line; not at all if it is empty or lies within the line. -/
def course? (start length : Nat) (line : TextLine) : Option Course :=
  let stop := start + length
  if length = 0 || isWithin start length line then none
  else if line.offset ≤ start ∧ start < line.stop then some .starts
  else if line.offset < stop ∧ stop ≤ line.stop then some .ends
  else if start < line.offset ∧ line.stop < stop then some .passes
  else none

/-- What stands in front of a line that a span of several lines meets. -/
def gutter (style : Style) : Option Course → String
  | some .starts => style.paint Style.mark "╭" ++ style.paint Style.mark "─" ++
      style.paint Style.mark "▶" ++ " "
  | some .passes => style.paint Style.mark "│" ++ blanks 3
  | some .ends => style.paint Style.mark "├" ++ style.paint Style.mark "─" ++
      style.paint Style.mark "▶" ++ " "
  | none => blanks 4

/-- The line under the last line of a span of several lines: its label. -/
def courseLines (style : Style) (width : Nat) : Option Course → List String
  | some .ends => [blanks (width + 2) ++ "· " ++ style.paint Style.mark "╰" ++
      style.paint Style.mark "───" ++ style.paint Style.mark "─" ++ " " ++
      style.paint Style.mark "here"]
  | _ => []

def render (excerpt : Excerpt) (style : Style) (path : String) (start length : Nat) : List String :=
  let width := excerpt.numberWidth
  let position := path ++ ":" ++ excerpt.line.repr ++ ":" ++ excerpt.column.repr
  let spread := excerpt.lines.any fun line => (course? start length line).isSome
  let body := excerpt.lines.flatMap fun line =>
    let course := course? start length line
    (" " ++ style.paint Style.number (numberText width line.number) ++ " │ " ++
        (if spread then gutter style course else "") ++ line.display) ::
      (markLines style width start length line ++ courseLines style width course)
  (blanks (width + 2) ++ "╭─[" ++ style.paint Style.link position ++ "]") ::
    body ++ [blanks (width + 2) ++ "╰────"]

/-- The line that stands for an excerpt of a span that starts behind the text. -/
def unreadable (style : Style) (start length : Nat) : String :=
  "  [" ++ style.paint Style.error "Failed to read contents for label" ++ " `" ++
    style.paint Style.link "here" ++ "` (offset: " ++ style.paint Style.link start.repr ++
    ", length: " ++ style.paint Style.link length.repr ++ "): " ++
    style.paint Style.warning "OutOfBounds" ++ "]"

/-- The lines that show a location in a file; none if the location ends behind the text. A location
may end in front of its start. One that starts behind the text is reported as unreadable, except that
the offset right behind the end has no position, which is a fault. -/
def ofLocation? (style : Style) (file : SourceFile) (location : FileSpan) :
    Except Fault (Option (List String)) :=
  let start := location.span.start
  let length := location.span.length
  let size := file.text.utf8ByteSize
  if size < location.span.stop then return none
  else if size + 1 < start then return some [unreadable style start length]
  else if size < start then throw .outOfRange
  else return some ((select file.text start length).render style file.path start length)

end Excerpt

end SsaCompiler
