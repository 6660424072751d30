import Bringup.Text.Blank

/-!
# Texts and keys in TOML

A text stands between quotation marks, which let escapes stand for characters, or between
apostrophes, which do not. Three marks instead of one let it run over several lines. A key is a bare
word or a text of one line, and a dotted key is several of them.
-/

namespace Bringup.Toml

/-- A text without the spaces and tabs in front. -/
def dropBlanks (cs : List Char) : List Char := cs.dropWhile fun c => c = ' ' || c = '\t'

/-- What follows the end of a line. -/
def dropNewline? : List Char → Option (List Char)
  | '\n' :: cs => some cs
  | '\r' :: '\n' :: cs => some cs
  | _ => none

/-- The characters that may stand as they are in comments and texts. -/
def isPlain (c : Char) : Bool := c = '\t' || (0x20 ≤ c.toNat && c.toNat ≠ 0x7F)

/-- Reads items with a separator behind each but the last. Each item must take something. -/
def separated {α : Type} (item : List Char → Option (α × List Char)) (separator : Char)
    (cs : List Char) : Option (List α × List Char) :=
  match item cs with
  | none => none
  | some (a, []) => some ([a], [])
  | some (a, c :: rest) =>
    if c ≠ separator then some ([a], c :: rest)
    else if _h : rest.length < cs.length then
      (separated item separator rest).map fun (items, rest) => (a :: items, rest)
    else none
termination_by cs.length

/-! ### Escapes -/

/-- The value of a hexadecimal digit. -/
def hexDigit? (c : Char) : Option Nat :=
  if c.isDigit then some (c.toNat - 0x30)
  else if 'a' ≤ c ∧ c ≤ 'f' then some (c.toNat - 0x61 + 10)
  else if 'A' ≤ c ∧ c ≤ 'F' then some (c.toNat - 0x41 + 10)
  else none

/-- The character with a number of so many hexadecimal digits. -/
def hexChar? (count : Nat) (cs : List Char) : Option (Char × List Char) := do
  let digits ← (cs.take count).mapM hexDigit?
  let n := digits.foldl (fun n digit => n * 16 + digit) 0
  if digits.length = count ∧ n.isValidChar then some (Char.ofNat n, cs.drop count) else none

/-- The character that an escape stands for, from behind the backslash. -/
def escape? : List Char → Option (Char × List Char)
  | 'b' :: cs => some ('\x08', cs)
  | 't' :: cs => some ('\t', cs)
  | 'n' :: cs => some ('\n', cs)
  | 'f' :: cs => some ('\x0c', cs)
  | 'r' :: cs => some ('\r', cs)
  | '"' :: cs => some ('"', cs)
  | '\\' :: cs => some ('\\', cs)
  | 'u' :: cs => hexChar? 4 cs
  | 'U' :: cs => hexChar? 8 cs
  | _ => none

/-- A text without the blanks and ends of lines in front. -/
def dropBlankLines : List Char → List Char
  | ' ' :: cs | '\t' :: cs | '\n' :: cs | '\r' :: '\n' :: cs => dropBlankLines cs
  | cs => cs

/-- What follows a backslash at the end of a line, with the blanks that the next lines start with. -/
def dropContinuation? (cs : List Char) : Option (List Char) :=
  (dropNewline? (dropBlanks cs)).map dropBlankLines

/-! ### Texts -/

/-- How a text is marked: by what character, and whether three of it enclose several lines. -/
structure Quotes where
  mark : Char
  multiline : Bool
  deriving DecidableEq, Repr

/-- The end of a text: the marks that still belong to it, and what follows. -/
def Quotes.close? (quotes : Quotes) (cs : List Char) : Option (List Char × List Char) :=
  let marks := cs.takeWhile (· = quotes.mark)
  if quotes.multiline then
    if marks.length < 3 then none
    else
      let own := min (marks.length - 3) 2
      some (List.replicate own quotes.mark, cs.drop (own + 3))
  else if marks = [] then none
  else some ([], cs.drop 1)

/-- The next piece of a text: what it stands for, and what follows. -/
def Quotes.piece? (quotes : Quotes) : List Char → Option (List Char × List Char)
  | [] => none
  | c :: cs =>
    if c = '\\' ∧ quotes.mark = '"' then
      match if quotes.multiline then dropContinuation? cs else none with
      | some rest => some ([], rest)
      | none => (escape? cs).map fun (c, rest) => ([c], rest)
    else if quotes.multiline ∧ (c = '\n' ∨ c = '\r') then
      (dropNewline? (c :: cs)).map fun rest => (['\n'], rest)
    else if isPlain c then some ([c], cs)
    else none

/-- Reads a text up to its end. -/
def Quotes.body (quotes : Quotes) (cs : List Char) : Option (List Char × List Char) :=
  match quotes.close? cs with
  | some ended => some ended
  | none =>
    match quotes.piece? cs with
    | none => none
    | some (piece, rest) =>
      if _h : rest.length < cs.length then
        (quotes.body rest).map fun (text, rest) => (piece ++ text, rest)
      else none
termination_by cs.length

/-- Reads a text of one line, if there is one. -/
def lineText? : List Char → Option (String × List Char)
  | '"' :: cs => (Quotes.body ⟨'"', false⟩ cs).map fun (text, rest) => (String.ofList text, rest)
  | '\x27' :: cs => (Quotes.body ⟨'\x27', false⟩ cs).map fun (text, rest) => (String.ofList text, rest)
  | _ => none

/-- Reads a text of several lines, whose first line may be empty. -/
def multilineText? (mark : Char) (cs : List Char) : Option (String × List Char) :=
  let start := (dropNewline? cs).getD cs
  (Quotes.body ⟨mark, true⟩ start).map fun (text, rest) => (String.ofList text, rest)

/-- Reads a text, if there is one. -/
def text? : List Char → Option (String × List Char)
  | '"' :: '"' :: '"' :: cs => multilineText? '"' cs
  | '\x27' :: '\x27' :: '\x27' :: cs => multilineText? '\x27' cs
  | cs => lineText? cs

/-! ### Keys -/

/-- The characters of bare keys. -/
def isBare (c : Char) : Bool := c.isAlphanum || c = '_' || c = '-'

/-- Reads one part of a key and the blanks around it. -/
def keyPart? (cs : List Char) : Option (String × List Char) :=
  let cs := dropBlanks cs
  let part :=
    match cs with
    | '"' :: _ | '\x27' :: _ => lineText? cs
    | _ =>
      let word := cs.takeWhile isBare
      if word = [] then none else some (String.ofList word, cs.dropWhile isBare)
  part.map fun (part, rest) => (part, dropBlanks rest)

/-- Reads a key, in parts where it is dotted. -/
def key? (cs : List Char) : Option (List String × List Char) := separated keyPart? '.' cs

end Bringup.Toml
