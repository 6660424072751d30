import Bringup.Toml.Moment
import Bringup.Toml.Number
import Bringup.Toml.Text

/-!
# TOML documents

A document is read line by line: a line gives a key of the open table its value, or opens another
table. The result is the table of the whole document, or nothing where a line cannot be read or
defines something that is defined already. Arrays and tables between braces nest fewer than eighty
deep.
-/

namespace Bringup.Toml

/-! ### Values -/

/-- What follows blanks, ends of lines and comments, from inside or outside a comment. -/
def dropGap : (inComment : Bool) → List Char → List Char
  | false, ' ' :: cs | false, '\t' :: cs | false, '\n' :: cs | false, '\r' :: '\n' :: cs =>
    dropGap false cs
  | false, '#' :: cs => dropGap true cs
  | false, cs => cs
  | true, '\n' :: cs | true, '\r' :: '\n' :: cs => dropGap false cs
  | true, [] => []
  | true, c :: cs => if isPlain c then dropGap true cs else c :: cs

/-- Reads the items of an array up to its end. A comma may stand behind the last one. -/
def items (value : List Char → Option (Value × List Char)) (cs : List Char) :
    Option (List Value × List Char) :=
  match dropGap false cs with
  | ']' :: rest => some ([], rest)
  | start =>
    match value start with
    | none => none
    | some (item, rest) =>
      match dropGap false rest with
      | ']' :: rest => some ([item], rest)
      | ',' :: rest =>
        if _h : rest.length < cs.length then
          (items value rest).map fun (items, rest) => (item :: items, rest)
        else none
      | _ => none
termination_by cs.length

/-- Reads a key and its value, with blanks around. -/
def pair? (value : List Char → Option (Value × List Char)) (cs : List Char) :
    Option ((List String × Value) × List Char) := do
  let (keys, rest) ← key? cs
  match rest with
  | '=' :: rest =>
    let (value, rest) ← value (dropBlanks rest)
    return ((keys, value), dropBlanks rest)
  | _ => none

/-- Reads a table between braces up to its end. -/
def inlineTable (value : List Char → Option (Value × List Char)) (cs : List Char) :
    Option (Value × List Char) := do
  match dropBlanks cs with
  | '}' :: rest => return (.table .inline [], rest)
  | cs =>
    let (pairs, rest) ← separated (pair? value) ',' cs
    let entries ← pairs.foldlM (fun (table : Table) (keys, value) => table.assign value keys) []
    match rest with
    | '}' :: rest => return (.table .inline entries, rest)
    | _ => none

/-- Reads a number, a date or a time. -/
def scalar? (cs : List Char) : Option (Value × List Char) :=
  (Moment.moment? cs).or ((Number.decimal? cs).or (Number.integer? cs))

/-- Reads a word, which stands for a value. -/
def word? (word : String) (value : Value) (cs : List Char) : Option (Value × List Char) :=
  (Text.dropLead? word.toList cs).map fun rest => (value, rest)

/-- Reads a value, in which arrays and tables nest so deep at most. -/
def value? : (depth : Nat) → List Char → Option (Value × List Char)
  | depth, cs =>
    match cs with
    | '"' :: _ | '\x27' :: _ => (text? cs).map fun (text, rest) => (.text text, rest)
    | '[' :: rest =>
      match depth with
      | 0 => none
      | depth + 1 => (items (value? depth) rest).map fun (items, rest) => (.array items, rest)
    | '{' :: rest =>
      match depth with
      | 0 => none
      | depth + 1 => inlineTable (value? depth) rest
    | 't' :: _ => word? "true" (.boolean true) cs
    | 'f' :: _ => word? "false" (.boolean false) cs
    | _ => scalar? cs

/-! ### Lines -/

/-- What follows the end of a line, where a comment may stand. -/
def endLine? (cs : List Char) : Option (List Char) :=
  let rest :=
    match dropBlanks cs with
    | '#' :: comment => comment.dropWhile isPlain
    | rest => rest
  if rest = [] then some [] else dropNewline? rest

/-- How deep values nest at most. -/
def maxDepth : Nat := 79

/-- A document of which a part was read: its table, and the keys of the open table in it. -/
structure Reading where
  table : Table := []
  openKeys : List String := []
  deriving Inhabited

/-- Reads a line: what was read with it, and the lines behind. -/
def Reading.line (reading : Reading) (cs : List Char) : Option (Reading × List Char) := do
  match dropBlanks cs with
  | '[' :: '[' :: rest =>
    let (keys, rest) ← key? rest
    match rest with
    | ']' :: ']' :: rest => return (⟨← reading.table.openElement keys, keys⟩, ← endLine? rest)
    | _ => none
  | '[' :: rest =>
    let (keys, rest) ← key? rest
    match rest with
    | ']' :: rest => return (⟨← reading.table.openTable keys, keys⟩, ← endLine? rest)
    | _ => none
  | [] => return (reading, [])
  | start =>
    match endLine? start with
    | some rest => return (reading, rest)
    | none =>
      let ((keys, value), rest) ← pair? (value? maxDepth) start
      let table ← reading.table.below (Table.assign value keys) reading.openKeys
      return ({ reading with table }, ← endLine? rest)

/-- Reads all lines. -/
def Reading.lines (reading : Reading) (cs : List Char) : Option Table :=
  match cs with
  | [] => some reading.table
  | cs =>
    match reading.line cs with
    | none => none
    | some (reading, rest) =>
      if _h : rest.length < cs.length then reading.lines rest else none
termination_by cs.length

/-- The table of a document. A byte order mark may stand in front. -/
def parse? (text : String) : Option Table :=
  match text.toList with
  | '\uFEFF' :: cs => Reading.lines ({} : Reading) cs
  | cs => Reading.lines ({} : Reading) cs

end Bringup.Toml
