/-!
# TOML values

A table maps keys to values, and a document is a table. How a table came to be says whether more may
be added to it: a table between braces is complete, one of dotted keys grows by dotted keys only, and
one that a header has only passed through may still get a header of its own.
-/

namespace Bringup.Toml

/-- How a table was defined. -/
inductive Form where
  /-- Between braces. -/
  | inline
  /-- By a header of its own. -/
  | header
  /-- By the header of a table below it. -/
  | passed
  /-- By a dotted key. -/
  | dotted
  deriving DecidableEq, Inhabited, Repr

/-- What a key can have as its value. -/
inductive Value where
  | text (written : String)
  | integer (n : Int)
  /-- A number with a fraction or an exponent, an infinity or no number, as written. -/
  | decimal (written : String)
  | boolean (value : Bool)
  /-- A date, a time, or both, in its usual form. -/
  | moment (written : String)
  | array (items : List Value)
  | table (form : Form) (entries : List (String × Value))
  /-- An array of tables that each have a header. -/
  | tables (elements : List (List (String × Value)))
  deriving Inhabited

/-- Keys and their values in the order in which they were written. -/
abbrev Table := List (String × Value)

namespace Table

/-- Changes the value of a key, where that is possible; a new key comes last. -/
def alter (table : Table) (key : String) (change : Option Value → Option Value) : Option Table :=
  match table with
  | [] => (change none).map fun value => [(key, value)]
  | (other, value) :: rest =>
    if other = key then (change (some value)).map fun value => (key, value) :: rest
    else (alter rest key change).map fun rest => (other, value) :: rest

/-- Gives a dotted key a value. It must be new, and the tables on the way must be of dotted keys. -/
def assign (value : Value) : List String → Table → Option Table
  | [], _ => none
  | [key], table => table.alter key fun
    | none => some value
    | some _ => none
  | key :: keys, table => table.alter key fun
    | none => (assign value keys []).map (.table .dotted)
    | some (.table .dotted entries) => (assign value keys entries).map (.table .dotted)
    | some _ => none

/-- Changes a table below, and makes those on the way. Of an array of tables, the last one is on the
way. -/
def below (change : Table → Option Table) : List String → Table → Option Table
  | [], table => change table
  | key :: keys, table => table.alter key fun
    | none => (below change keys []).map (.table .passed)
    | some (.table .inline _) => none
    | some (.table form entries) => (below change keys entries).map (.table form)
    | some (.tables elements) =>
      match elements.getLast? with
      | none => none
      | some last => (below change keys last).map fun last => .tables (elements.dropLast ++ [last])
    | some _ => none

/-- Opens the table that a header names. -/
def openTable (keys : List String) (table : Table) : Option Table :=
  match keys.getLast? with
  | none => none
  | some key =>
    let change (parent : Table) := parent.alter key fun
      | none => some (.table .header [])
      | some (.table .passed entries) => some (.table .header entries)
      | some _ => none
    below change keys.dropLast table

/-- Opens one more table of the array that a header names. -/
def openElement (keys : List String) (table : Table) : Option Table :=
  match keys.getLast? with
  | none => none
  | some key =>
    let change (parent : Table) := parent.alter key fun
      | none => some (.tables [[]])
      | some (.tables elements) => some (.tables (elements ++ [[]]))
      | some _ => none
    below change keys.dropLast table

end Table

namespace Value

/-- The key under which a date or time stands, where it is taken for a table. -/
def momentKey : String := "$__toml_private_datetime"

/-- The entries of a table; a date or time is taken for a table with the one entry that it is. -/
def entries? : Value → Option Table
  | .table _ entries => some entries
  | .moment written => some [(momentKey, .text written)]
  | _ => none

/-- The items of an array. -/
def items? : Value → Option (List Value)
  | .array items => some items
  | .tables elements => some (elements.map (.table .header))
  | _ => none

/-- The text, where the value is one. -/
def text? : Value → Option String
  | .text written => some written
  | _ => none

/-- The integer, where the value is one from zero up to a limit. -/
def naturalUpTo? (limit : Nat) : Value → Option Nat
  | .integer (.ofNat n) => if n ≤ limit then some n else none
  | _ => none

end Value

end Bringup.Toml
