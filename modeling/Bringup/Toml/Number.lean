import Bringup.Text.Blank
import Bringup.Toml.Value

/-!
# Numbers in TOML

Integers have 64 bits and are decimal, or hexadecimal, octal or binary without a sign. Underscores may
stand between digits. Numbers with a fraction or an exponent are read, and kept as they are written.
-/

namespace Bringup.Toml.Number

/-- The value of a digit of a base. -/
def digit? (base : Nat) (c : Char) : Option Nat :=
  let value :=
    if c.isDigit then some (c.toNat - 0x30)
    else if 'a' ≤ c ∧ c ≤ 'f' then some (c.toNat - 0x61 + 10)
    else if 'A' ≤ c ∧ c ≤ 'F' then some (c.toNat - 0x41 + 10)
    else none
  value.filter (· < base)

/-- Reads further digits, before each of which an underscore may stand. -/
def moreDigits (base : Nat) : List Char → List Nat × List Char
  | [] => ([], [])
  | [c] => match digit? base c with
    | some digit => ([digit], [])
    | none => ([], [c])
  | '_' :: c :: cs => match digit? base c with
    | some digit =>
      let (digits, rest) := moreDigits base cs
      (digit :: digits, rest)
    | none => ([], '_' :: c :: cs)
  | c :: cs => match digit? base c with
    | some digit =>
      let (digits, rest) := moreDigits base cs
      (digit :: digits, rest)
    | none => ([], c :: cs)

/-- Reads digits, of which there must be one. -/
def digits? (base : Nat) : List Char → Option (List Nat × List Char)
  | [] => none
  | c :: cs => (digit? base c).map fun digit =>
    let (digits, rest) := moreDigits base cs
    (digit :: digits, rest)

/-- The number that digits write. -/
def ofDigits (base : Nat) (digits : List Nat) : Nat :=
  digits.foldl (fun n digit => n * base + digit) 0

/-- A sign, if there is one, and what follows. -/
def sign : List Char → Option Char × List Char
  | '+' :: cs => (some '+', cs)
  | '-' :: cs => (some '-', cs)
  | cs => (none, cs)

/-- Reads a decimal number without a sign. Only zero itself starts with a zero. -/
def natural? : List Char → Option (Nat × List Char)
  | '0' :: cs => some (0, cs)
  | cs => (digits? 10 cs).map fun (digits, rest) => (ofDigits 10 digits, rest)

/-- An integer, where it has at most 64 bits. -/
def bounded? (n : Int) : Option Value :=
  if Int64.minValue.toInt ≤ n ∧ n ≤ Int64.maxValue.toInt then some (.integer n) else none

/-- Reads an integer. -/
def integer? (cs : List Char) : Option (Value × List Char) :=
  let based (base : Nat) (cs : List Char) : Option (Value × List Char) := do
    let (digits, rest) ← digits? base cs
    return (← bounded? (ofDigits base digits), rest)
  match cs with
  | '0' :: 'x' :: cs => based 16 cs
  | '0' :: 'o' :: cs => based 8 cs
  | '0' :: 'b' :: cs => based 2 cs
  | cs => do
    let (sign, cs) := sign cs
    let (n, rest) ← natural? cs
    let n : Int := if sign = some '-' then -n else n
    return (← bounded? n, rest)

/-- Skips an exponent, if there is one. -/
def exponent? : List Char → Option (List Char)
  | 'e' :: cs | 'E' :: cs => (digits? 10 (sign cs).2).map Prod.snd
  | _ => none

/-- Skips a fraction. -/
def fraction? : List Char → Option (List Char)
  | '.' :: cs => (digits? 10 cs).map Prod.snd
  | _ => none

/-- Skips what makes a number more than an integer: an exponent, or a fraction that may have one. -/
def decimals? (cs : List Char) : Option (List Char) :=
  match fraction? cs with
  | some rest => some ((exponent? rest).getD rest)
  | none => exponent? cs

/-- Reads a number with a fraction or an exponent, or one of the words for numbers beyond. -/
def decimal? (cs : List Char) : Option (Value × List Char) :=
  let unsigned := (sign cs).2
  let rest :=
    match Text.dropLead? "inf".toList unsigned, Text.dropLead? "nan".toList unsigned with
    | some rest, _ | none, some rest => some rest
    | none, none => do
      let (_, rest) ← natural? unsigned
      decimals? rest
  rest.map fun rest => (.decimal (String.ofList (cs.take (cs.length - rest.length))), rest)

end Bringup.Toml.Number
