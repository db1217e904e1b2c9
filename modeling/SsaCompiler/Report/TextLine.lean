import SsaCompiler.Report.CharWidth

/-!
# Lines of a text

The lines of a text with the bytes they take up, and the columns their characters are shown in. A
line ends with its line break; nothing is left after a final line break. There are two ways to count
lines: `Breaks.feeds` takes a line feed for a break, which may follow a carriage return, and
`Breaks.returns` takes a carriage return alone for one, too.
-/

namespace SsaCompiler

inductive Breaks where
  /-- A line feed, with the carriage return in front of it if there is one. -/
  | feeds
  /-- Also a carriage return that no line feed follows. -/
  | returns
deriving DecidableEq, Repr

structure TextLine where
  number : Nat
  /-- The number of bytes in front of it. -/
  offset : Nat
  /-- The number of its bytes without the line break. -/
  size : Nat
  /-- The number of bytes of its line break, if it has one. -/
  breakSize : Nat
  text : List Char
deriving DecidableEq, Repr

namespace TextLine

def textStop (line : TextLine) : Nat := line.offset + line.size

/-- The first offset after the line. -/
def stop (line : TextLine) : Nat := line.textStop + line.breakSize

def isBroken (line : TextLine) : Bool := 0 < line.breakSize

/-- The line with a number that starts at an offset, before any of it is read. -/
def start (number offset : Nat) : TextLine := ⟨number, offset, 0, 0, []⟩

/-- The line with one more character; characters are added in reverse. -/
def push (line : TextLine) (c : Char) : TextLine :=
  { line with size := line.size + c.utf8Size, text := c :: line.text }

def endWith (line : TextLine) (breakSize : Nat) : TextLine :=
  { line with breakSize := breakSize, text := line.text.reverse }

def next (line : TextLine) : TextLine := start (line.number + 1) line.stop

/-- The rest of a text that ends without a line break. A carriage return at its very end keeps it
from being counted as a line of its own. -/
def finish (line : TextLine) : List TextLine :=
  match line.text with
  | [] => []
  | '\r' :: _ => [{ line.endWith 0 with number := line.number - 1 }]
  | _ => [line.endWith 0]

/-- The lines of a text, of which `line` is being read. -/
def collect (breaks : Breaks) (line : TextLine) : List Char → List TextLine
  | [] => line.finish
  | '\r' :: '\n' :: rest => line.endWith 2 :: collect breaks (line.endWith 2).next rest
  | '\n' :: rest => line.endWith 1 :: collect breaks (line.endWith 1).next rest
  | '\r' :: rest =>
    match breaks with
    | .returns => line.endWith 1 :: collect breaks (line.endWith 1).next rest
    | .feeds => collect breaks (line.push '\r') rest
  | c :: rest => collect breaks (line.push c) rest

def ofText (breaks : Breaks) (text : String) : List TextLine :=
  collect breaks (start 1 0) text.toList

/-- Where the next character is shown. Within an escape sequence for colours, which ends with `m`,
nothing is shown. -/
structure Cursor where
  column : Nat
  escaped : Bool
deriving DecidableEq, Repr

def Cursor.home : Cursor := ⟨0, false⟩

def tabWidth : Nat := 4

/-- The cursor after a character. A tab goes on to the next tab stop. -/
def Cursor.advance (cursor : Cursor) (c : Char) : Cursor :=
  if cursor.escaped then ⟨cursor.column, c ≠ 'm'⟩
  else if c = '\x1b' then ⟨cursor.column, true⟩
  else if c = '\t' then ⟨cursor.column + (tabWidth - cursor.column % tabWidth), false⟩
  else ⟨cursor.column + charWidth c, false⟩

/-- The column that the byte at `index` is shown at. In the middle of a character it is the column of
the character or, if `up` is set, of the next one. Behind the end it is the column after it. -/
def columnAt (up : Bool) (index : Nat) (cursor : Cursor) : List Char → Nat
  | [] => if index = 0 then cursor.column else cursor.column + 1
  | c :: rest =>
    if index = 0 then cursor.column
    else if c.utf8Size ≤ index || up then columnAt up (index - c.utf8Size) (cursor.advance c) rest
    else cursor.column

/-- The characters as shown: a tab is as many blanks as it is wide. -/
def expand (cursor : Cursor) : List Char → List Char
  | [] => []
  | c :: rest =>
    let after := cursor.advance c
    (if c = '\t' then List.replicate (after.column - cursor.column) ' ' else [c]) ++
      expand after rest

def display (line : TextLine) : String := String.ofList (expand .home line.text)

end TextLine

end SsaCompiler
