import Bringup.Keyed

/-!
# Environments

An environment gives each of its variables one value. Its entries stand in the order of their keys,
so two environments with the same values are equal; setting a variable again replaces its value.
-/

namespace Bringup

/-- The variables a service runs with. -/
structure Environment where
  /-- The variables and their values in the order of the variables. -/
  entries : List (String × String) := []
  ordered : Keyed.Ordered Prod.fst entries := by exact Keyed.ordered_nil

namespace Environment

/-- The environment without variables. -/
def empty : Environment := { entries := [] }

instance : Inhabited Environment := ⟨empty⟩

theorem ext {a b : Environment} (h : a.entries = b.entries) : a = b := by
  cases a; cases b; cases h; rfl

instance : DecidableEq Environment := fun a b =>
  if h : a.entries = b.entries then isTrue (ext h) else isFalse fun e => h (e ▸ rfl)

/-- Gives a variable a value, in the place of an earlier one. -/
def set (env : Environment) (key value : String) : Environment where
  entries := Keyed.insert Prod.fst (key, value) env.entries
  ordered := Keyed.ordered_insert env.ordered

/-- The value of a variable. -/
def get? (env : Environment) (key : String) : Option String :=
  (Keyed.find? Prod.fst key env.entries).map Prod.snd

/-- Whether a variable has a value. -/
def contains (env : Environment) (key : String) : Bool := (env.get? key).isSome

/-- Sets the variables of a list one after another, so that the last value of each stays. -/
def setAll (env : Environment) (entries : List (String × String)) : Environment :=
  entries.foldl (fun env (key, value) => env.set key value) env

/-- The environment of a list of variables, in which later values win. -/
def ofList (entries : List (String × String)) : Environment := setAll empty entries

/-- An environment with the values of another one on top of its own. -/
def overriddenBy (env other : Environment) : Environment := env.setAll other.entries

end Environment

end Bringup
