import Bringup.Toml.Value

/-!
# Dates and times in TOML

A date, a time of day, or a date with a time, which may name its distance from universal time. They
are kept in their usual form: a `T` between date and time, and no zeros at the end of a fraction.
-/

namespace Bringup.Toml.Moment

/-- Reads a number of so many digits within bounds. -/
def number? (count least greatest : Nat) (cs : List Char) : Option (Nat × List Char) :=
  let digits := cs.take count
  let n := digits.foldl (fun n c => n * 10 + (c.toNat - 0x30)) 0
  if digits.length = count ∧ digits.all Char.isDigit ∧ least ≤ n ∧ n ≤ greatest then
    some (n, cs.drop count)
  else none

/-- What follows a character. -/
def after? (c : Char) : List Char → Option (List Char)
  | [] => none
  | d :: cs => if d = c then some cs else none

/-- The number of days of a month. -/
def daysOf (year month : Nat) : Nat :=
  let isLeap := year % 4 = 0 ∧ (year % 100 ≠ 0 ∨ year % 400 = 0)
  if month = 2 then if isLeap then 29 else 28
  else if month ∈ [4, 6, 9, 11] then 30
  else 31

/-- The number with at least two digits. -/
def twoDigits (n : Nat) : String := if n < 10 then s!"0{n}" else s!"{n}"

/-- Reads a date. -/
def date? (cs : List Char) : Option (String × List Char) := do
  let (year, rest) ← number? 4 0 9999 cs
  let (month, rest) ← number? 2 1 12 (← after? '-' rest)
  let (_, rest) ← number? 2 1 (daysOf year month) (← after? '-' rest)
  return (String.ofList (cs.take 10), rest)

/-- Reads a fraction of a second, if there is one: at most nine digits of it count. -/
def fraction (cs : List Char) : String × List Char :=
  match cs with
  | '.' :: rest =>
    let digits := rest.takeWhile Char.isDigit
    let counted := (((digits.take 9).reverse.dropWhile (· = '0')).reverse)
    if digits = [] then ("", cs)
    else
      let text := if counted = [] then "" else "." ++ String.ofList counted
      (text, rest.drop digits.length)
  | _ => ("", cs)

/-- Reads a time of day. -/
def time? (cs : List Char) : Option (String × List Char) := do
  let (_, rest) ← number? 2 0 23 cs
  let (_, rest) ← number? 2 0 59 (← after? ':' rest)
  let (_, rest) ← number? 2 0 60 (← after? ':' rest)
  let (fraction, rest) := fraction rest
  return (String.ofList (cs.take 8) ++ fraction, rest)

/-- Reads a distance from universal time. -/
def offset? : List Char → Option (String × List Char)
  | [] => none
  | c :: cs =>
    if c = 'Z' ∨ c = 'z' then some ("Z", cs)
    else if c = '+' ∨ c = '-' then do
      let (hours, rest) ← number? 2 0 23 cs
      let (minutes, rest) ← number? 2 0 59 (← after? ':' rest)
      let sign := if c = '-' ∧ hours + minutes ≠ 0 then "-" else "+"
      return (s!"{sign}{twoDigits hours}:{twoDigits minutes}", rest)
    else none

/-- Reads the time behind a date, if there is one. -/
def timeOfDate? : List Char → Option (String × List Char)
  | [] => none
  | c :: cs =>
    if c = 'T' ∨ c = 't' ∨ c = ' ' then do
      let (time, rest) ← time? cs
      let (offset, rest) := (offset? rest).getD ("", rest)
      return ("T" ++ time ++ offset, rest)
    else none

/-- Reads a date, a time or both. -/
def moment? (cs : List Char) : Option (Value × List Char) :=
  match date? cs with
  | some (date, rest) =>
    let (time, rest) := (timeOfDate? rest).getD ("", rest)
    some (.moment (date ++ time), rest)
  | none => (time? cs).map fun (time, rest) => (.moment time, rest)

end Bringup.Toml.Moment
