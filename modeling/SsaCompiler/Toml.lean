/-!
# Flat TOML documents

A document of `key = value` lines with comments and empty lines between them, where every value is a
string or an integer. Keys are bare or quoted. Tables, dotted keys and values of other kinds are not
read, and neither is a document that gives a key twice.
-/

namespace SsaCompiler

namespace Toml

inductive Value where
  | string (text : String)
  | integer (value : Int)
deriving DecidableEq, Repr

def isBlank (c : Char) : Bool := c = ' ' || c = '\t'

/-- Whether a character may stand in a comment or, unless it ends the string, in a string. -/
def isContent (c : Char) : Bool := c = '\t' || (32 ≤ c.toNat && c.toNat ≠ 127)

def quote : Char := '\x27'

/-- What follows a line break. -/
def afterBreak? : List Char → Option (List Char)
  | '\n' :: rest => some rest
  | '\r' :: '\n' :: rest => some rest
  | _ => none

/-- What follows the end of a line, of which only blanks and a comment are left. -/
def afterLine? (text : List Char) : Option (List Char) :=
  let text := text.dropWhile isBlank
  let text := match text with
    | '#' :: rest => rest.dropWhile isContent
    | _ => text
  match text with
  | [] => some []
  | text => afterBreak? text

/-! ## Strings -/

def hexValue? (c : Char) : Option Nat :=
  if '0' ≤ c ∧ c ≤ '9' then some (c.toNat - '0'.toNat)
  else if 'a' ≤ c ∧ c ≤ 'f' then some (c.toNat - 'a'.toNat + 10)
  else if 'A' ≤ c ∧ c ≤ 'F' then some (c.toNat - 'A'.toNat + 10)
  else none

def number (base : Nat) (digits : List Nat) : Nat :=
  digits.foldl (fun value digit => base * value + digit) 0

/-- The character with a code point given in hexadecimal. -/
def scalar? (digits : List Char) : Option Char := do
  let digits ← digits.mapM hexValue?
  let code := number 16 digits
  if code.isValidChar then some (Char.ofNat code) else none

def shortEscape? : Char → Option Char
  | 'b' => some '\x08'
  | 't' => some '\t'
  | 'n' => some '\n'
  | 'f' => some '\x0c'
  | 'r' => some '\r'
  | '"' => some '"'
  | '\\' => some '\\'
  | _ => none

/-- Puts a character in front of what was read. -/
def push (c : Char) : Option (List Char × List Char) → Option (List Char × List Char)
  | some (text, rest) => some (c :: text, rest)
  | none => none

/-- Reads a string up to its double quote; gives what follows too. -/
def basic : List Char → Option (List Char × List Char)
  | [] => none
  | '"' :: rest => some ([], rest)
  | '\\' :: 'u' :: a :: b :: c :: d :: rest => do push (← scalar? [a, b, c, d]) (basic rest)
  | '\\' :: 'U' :: a :: b :: c :: d :: e :: f :: g :: h :: rest => do
    push (← scalar? [a, b, c, d, e, f, g, h]) (basic rest)
  | '\\' :: c :: rest => do push (← shortEscape? c) (basic rest)
  | c :: rest => if isContent c && c ≠ '\\' then push c (basic rest) else none

/-- How the characters of a string of several lines are taken. -/
inductive Mode where
  | text
  /-- After a backslash at the end of a line, up to the line break. -/
  | lineEnd
  /-- After that line break: blanks and line breaks are passed over. -/
  | trim
deriving DecidableEq

/-- Reads a string of several lines up to its three double quotes; up to two more in front of them
belong to the string. -/
def multiline : Mode → List Char → Option (List Char × List Char)
  | _, [] => none
  | mode, '\n' :: rest =>
    match mode with
    | .text => push '\n' (multiline .text rest)
    | _ => multiline .trim rest
  | mode, '\r' :: '\n' :: rest =>
    match mode with
    | .text => push '\n' (multiline .text rest)
    | _ => multiline .trim rest
  | mode, ' ' :: rest =>
    match mode with
    | .text => push ' ' (multiline .text rest)
    | mode => multiline mode rest
  | mode, '\t' :: rest =>
    match mode with
    | .text => push '\t' (multiline .text rest)
    | mode => multiline mode rest
  | .lineEnd, _ => none
  | _, '"' :: '"' :: '"' :: '"' :: '"' :: rest => some (['"', '"'], rest)
  | _, '"' :: '"' :: '"' :: '"' :: rest => some (['"'], rest)
  | _, '"' :: '"' :: '"' :: rest => some ([], rest)
  | _, '\\' :: ' ' :: rest => multiline .lineEnd rest
  | _, '\\' :: '\t' :: rest => multiline .lineEnd rest
  | _, '\\' :: '\n' :: rest => multiline .trim rest
  | _, '\\' :: '\r' :: '\n' :: rest => multiline .trim rest
  | _, '\\' :: 'u' :: a :: b :: c :: d :: rest => do
    push (← scalar? [a, b, c, d]) (multiline .text rest)
  | _, '\\' :: 'U' :: a :: b :: c :: d :: e :: f :: g :: h :: rest => do
    push (← scalar? [a, b, c, d, e, f, g, h]) (multiline .text rest)
  | _, '\\' :: c :: rest => do push (← shortEscape? c) (multiline .text rest)
  | _, c :: rest => if isContent c && c ≠ '\\' then push c (multiline .text rest) else none

/-- Reads a literal string up to its single quote. -/
def literal : List Char → Option (List Char × List Char)
  | [] => none
  | c :: rest =>
    if c = quote then some ([], rest)
    else if isContent c then push c (literal rest)
    else none

/-- Reads a literal string of several lines up to its three single quotes; up to two more in front
of them belong to the string. -/
def literalLines : List Char → Option (List Char × List Char)
  | [] => none
  | '\n' :: rest => push '\n' (literalLines rest)
  | '\r' :: '\n' :: rest => push '\n' (literalLines rest)
  | '\x27' :: '\x27' :: '\x27' :: '\x27' :: '\x27' :: rest => some ([quote, quote], rest)
  | '\x27' :: '\x27' :: '\x27' :: '\x27' :: rest => some ([quote], rest)
  | '\x27' :: '\x27' :: '\x27' :: rest => some ([], rest)
  | c :: rest => if isContent c then push c (literalLines rest) else none

/-- A string of several lines without a line break at its start. -/
def withoutFirstBreak (text : List Char) : List Char := (afterBreak? text).getD text

def string? : List Char → Option (List Char × List Char)
  | '"' :: '"' :: '"' :: rest => multiline .text (withoutFirstBreak rest)
  | '"' :: rest => basic rest
  | '\x27' :: '\x27' :: '\x27' :: rest => literalLines (withoutFirstBreak rest)
  | '\x27' :: rest => literal rest
  | _ => none

/-! ## Integers -/

/-- The digits of a base, of which underscores may stand between two. -/
def digits? (base : Nat) : List Char → Option (List Nat)
  | [] => none
  | [c] => do
    let digit ← hexValue? c
    if digit < base then some [digit] else none
  | c :: '_' :: rest => do
    let digit ← hexValue? c
    let digits ← digits? base rest
    if digit < base then some (digit :: digits) else none
  | c :: rest => do
    let digit ← hexValue? c
    let digits ← digits? base rest
    if digit < base then some (digit :: digits) else none

/-- A decimal number, which does not start with a zero unless it is zero. -/
def decimal? (text : List Char) : Option Nat := do
  let digits ← digits? 10 text
  match digits with
  | 0 :: _ :: _ => none
  | digits => some (number 10 digits)

/-- An integer: decimal with or without a sign, or in base sixteen, eight or two without. -/
def integer? : List Char → Option Int
  | '0' :: 'x' :: rest => (digits? 16 rest).map fun digits => (number 16 digits : Int)
  | '0' :: 'o' :: rest => (digits? 8 rest).map fun digits => (number 8 digits : Int)
  | '0' :: 'b' :: rest => (digits? 2 rest).map fun digits => (number 2 digits : Int)
  | '+' :: rest => (decimal? rest).map Int.ofNat
  | '-' :: rest => (decimal? rest).map fun value => -(value : Int)
  | text => (decimal? text).map Int.ofNat

/-- Whether an integer has sixty-four bits. -/
def fits (value : Int) : Bool := -(Nat.pow 2 63 : Int) ≤ value ∧ value < (Nat.pow 2 63 : Int)

def isNumeral (c : Char) : Bool := c.isAlphanum || c = '_' || c = '+' || c = '-'

/-! ## Documents -/

def value? (text : List Char) : Option (Value × List Char) :=
  match string? text with
  | some (content, rest) => some (.string (String.ofList content), rest)
  | none => do
    let value ← integer? (text.takeWhile isNumeral)
    if fits value then some (.integer value, text.dropWhile isNumeral) else none

def isBare (c : Char) : Bool := c.isAlphanum || c = '_' || c = '-'

def key? : List Char → Option (String × List Char)
  | '"' :: rest => (basic rest).map fun (text, rest) => (String.ofList text, rest)
  | '\x27' :: rest => (literal rest).map fun (text, rest) => (String.ofList text, rest)
  | text =>
    match text.takeWhile isBare with
    | [] => none
    | key => some (String.ofList key, text.dropWhile isBare)

/-- Reads a line of a key and a value; gives the lines that follow too. -/
def pair? (text : List Char) : Option ((String × Value) × List Char) := do
  let (key, rest) ← key? text
  match rest.dropWhile isBlank with
  | '=' :: rest =>
    let (value, rest) ← value? (rest.dropWhile isBlank)
    let rest ← afterLine? rest
    some ((key, value), rest)
  | _ => none

/-- Reads lines, at most `fuel` of them. -/
def lines : Nat → List Char → Option (List (String × Value))
  | 0, _ => none
  | fuel + 1, text =>
    match text.dropWhile isBlank with
    | [] => some []
    | text =>
      match afterLine? text with
      | some rest => lines fuel rest
      | none => do
        let (pair, rest) ← pair? text
        let pairs ← lines fuel rest
        some (pair :: pairs)

/-- The document without the mark of its byte order. -/
def withoutMark : List Char → List Char
  | '\uFEFF' :: rest => rest
  | text => text

/-- Reads a document. Every line takes at least one character. -/
def parse (text : String) : Option (List (String × Value)) := do
  let text := withoutMark text.toList
  let pairs ← lines (text.length + 1) text
  if (pairs.map (·.1)).Nodup then some pairs else none

end Toml

end SsaCompiler
