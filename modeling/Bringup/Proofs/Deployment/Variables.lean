import Bringup.EnvFile
import Mathlib.Data.List.Nodup

/-!
# The values of variables

An environment is known from the value that it has for each variable (`Environment.get?`). Of variables
that are set one after another the last value of each stays (`get?_setAll`), and where an environment is
laid on top of another one its own values come first (`get?_overriddenBy`). A text sets the variables of
its lines, in their order, unless one of the lines sets none and is no comment either; the first such line
is the one that is reported (`parse_of_readable`, `parse_of_faulty`).
-/

namespace Bringup

/-! ## Lists of which each member may be in order -/

/-- Either all members of a list are in order, or there is a first one that is not. -/
theorem all_or_first {α : Type} (P : α → Prop) (xs : List α) : (∀ x ∈ xs, P x) ∨
    ∃ before x behind, xs = before ++ x :: behind ∧ (∀ y ∈ before, P y) ∧ ¬ P x := by
  induction xs with
  | nil => exact .inl (by simp)
  | cons x rest ih =>
      by_cases hx : P x
      · rcases ih with hrest | ⟨before, y, behind, rfl, hbefore, hy⟩
        · exact .inl (List.forall_mem_cons.2 ⟨hx, hrest⟩)
        · exact .inr ⟨x :: before, y, behind, rfl, List.forall_mem_cons.2 ⟨hx, hbefore⟩, hy⟩
      · exact .inr ⟨[], x, rest, rfl, by simp, hx⟩

/-! ## Environments -/

namespace Environment

variable {env : Environment} {key value : String}

/-- The value that a list of variables gives to one of them: the last one. -/
def lastValue (key : String) (entries : List (String × String)) : Option String :=
  entries.reverse.lookup key

theorem lastValue_cons (key : String) (head : String × String) (rest : List (String × String)) :
    lastValue key (head :: rest)
      = (lastValue key rest).or (if key = head.1 then some head.2 else none) := by
  rw [lastValue, List.reverse_cons, List.lookup_append, lastValue]
  congr 1
  obtain ⟨first, value⟩ := head
  by_cases h : key = first
  · rw [if_pos h, h, List.lookup_cons_self]
  · rw [if_neg h, List.lookup_cons, beq_false_of_ne h]
    rfl

theorem get?_empty (key : String) : Environment.empty.get? key = none := rfl

theorem nodup_keys (env : Environment) : (env.entries.map Prod.fst).Nodup := by
  rw [List.nodup_iff_pairwise_ne, List.pairwise_map]
  refine List.Pairwise.imp (fun {a b} hlt he => ?_) env.ordered
  exact String.lt_irrefl b.1 (he ▸ hlt)

/-- The value of a variable is the one that stands in the environment. -/
theorem get?_eq_some : env.get? key = some value ↔ (key, value) ∈ env.entries := by
  rw [get?, Keyed.find?, Option.map_eq_some_iff]
  constructor
  · rintro ⟨entry, hfind, rfl⟩
    have hkey : entry.1 = key := by simpa using List.find?_some hfind
    exact hkey ▸ List.mem_of_find?_eq_some hfind
  · intro hm
    have hsome : (env.entries.find? fun entry => entry.1 == key).isSome = true :=
      List.find?_isSome.2 ⟨_, hm, beq_self_eq_true key⟩
    obtain ⟨entry, hfind⟩ := Option.isSome_iff_exists.1 hsome
    have hkey : entry.1 = key := by simpa using List.find?_some hfind
    -- Two entries with one key are the same.
    have hsame : entry = (key, value) :=
      List.inj_on_of_nodup_map env.nodup_keys (List.mem_of_find?_eq_some hfind) hm hkey
    exact ⟨entry, hfind, congrArg Prod.snd hsame⟩

/-- **Environments with the same values are equal**, since their entries stand in the order of the keys. -/
theorem ext_get? {a b : Environment} (h : ∀ key, a.get? key = b.get? key) : a = b := by
  apply ext
  have hnodup (env : Environment) : env.entries.Nodup := .of_map Prod.fst env.nodup_keys
  have hperm : a.entries.Perm b.entries := by
    rw [List.perm_ext_iff_of_nodup (hnodup a) (hnodup b)]
    intro entry
    rw [← get?_eq_some, ← get?_eq_some, h]
  refine hperm.eq_of_pairwise ?_ a.ordered b.ordered
  intro x y _ _ hxy hyx
  exact absurd hyx (String.lt_asymm hxy)

/-- **Setting a variable** changes its value alone. -/
theorem get?_set (env : Environment) (key' value : String) :
    (env.set key' value).get? key = if key = key' then some value else env.get? key := by
  ext value'
  rw [get?_eq_some, set, Keyed.mem_insert env.ordered]
  by_cases h : key = key'
  · simp [h, eq_comm]
  · simp [h, ← get?_eq_some]

theorem setAll_append (env : Environment) (first second : List (String × String)) :
    env.setAll (first ++ second) = (env.setAll first).setAll second := List.foldl_append

/-- **The last value stays** of variables that are set one after another. -/
theorem get?_setAll (env : Environment) (entries : List (String × String)) :
    (env.setAll entries).get? key = (lastValue key entries).or (env.get? key) := by
  induction entries generalizing env with
  | nil => rfl
  | cons head rest ih =>
      have hset : env.setAll (head :: rest) = (env.set head.1 head.2).setAll rest := rfl
      rw [hset, ih, get?_set, lastValue_cons, Option.or_assoc]
      split <;> rfl

/-- Each variable stands in an environment once. -/
theorem lastValue_entries (env : Environment) (key : String) :
    lastValue key env.entries = env.get? key := by
  ext value
  rw [get?_eq_some, lastValue, List.lookup_eq_some_iff]
  constructor
  · rintro ⟨before, behind, he, -⟩
    rw [← List.mem_reverse, he]
    exact List.mem_append_right _ List.mem_cons_self
  · intro hm
    obtain ⟨before, behind, he⟩ := List.append_of_mem (List.mem_reverse.2 hm)
    refine ⟨before, behind, he, fun entry hentry => bne_iff_ne.2 fun hkey => ?_⟩
    have hkeys := List.nodup_reverse.2 env.nodup_keys
    rw [← List.map_reverse, he, List.map_append, List.nodup_append] at hkeys
    exact hkeys.2.2 entry.1 (List.mem_map_of_mem hentry) key List.mem_cons_self hkey.symm

/-- **The values on top come first.** -/
theorem get?_overriddenBy (env other : Environment) :
    (env.overriddenBy other).get? key = (other.get? key).or (env.get? key) := by
  rw [overriddenBy, get?_setAll, lastValue_entries]

end Environment

/-! ## Files -/

namespace EnvFile

/-- Every line sets a variable or says nothing. -/
def Readable (text : String) : Prop :=
  ∀ line ∈ Text.lines text.toList, ∃ said, parseLine line = .ok said

/-- The error tells the first line of a text that neither sets a variable nor says nothing. -/
def Faulty (text : String) (error : Error) : Prop :=
  ∃ before line behind, Text.lines text.toList = before ++ line :: behind ∧
    (∀ line ∈ before, ∃ said, parseLine line = .ok said) ∧
    parseLine line = .error error.fault ∧ error.line = before.length + 1

/-- The variable that a line sets. -/
def said? (line : List Char) : Option (String × String) := (parseLine line).toOption.join

/-- The variables that a text sets, in the order of its lines. -/
def assignments (text : String) : List (String × String) :=
  (Text.lines text.toList).filterMap said?

/-- Lines that can be read set their variables, one after another. -/
theorem parseLines_of_readable {env : Environment} {number : Nat} {lines rest : List (List Char)}
    (h : ∀ line ∈ lines, ∃ said, parseLine line = .ok said) :
    parseLines env number (lines ++ rest)
      = parseLines (env.setAll (lines.filterMap said?)) (number + lines.length) rest := by
  induction lines generalizing env number with
  | nil => rfl
  | cons line lines ih =>
      obtain ⟨said, hsaid⟩ := h line List.mem_cons_self
      have hlines := fun line hl => h line (List.mem_cons_of_mem _ hl)
      have hnumber : number + (line :: lines).length = number + 1 + lines.length := by
        rw [List.length_cons]
        omega
      have hline : said? line = said := by rw [said?, hsaid]; rfl
      rw [List.cons_append, parseLines, hsaid, hnumber]
      cases said with
      | none => rw [List.filterMap_cons_none hline, ← ih hlines]
      | some assignment =>
          rw [List.filterMap_cons_some hline]
          exact ih hlines

/-- **The variables of a text** are those of its lines. -/
theorem parse_of_readable {text : String} (h : Readable text) :
    parse text = .ok (.ofList (assignments text)) := by
  rw [parse, ← List.append_nil (Text.lines text.toList), parseLines_of_readable h]
  rfl

/-- **The first faulty line** is the one that is told. -/
theorem parse_of_faulty {text : String} {error : Error} (h : Faulty text error) :
    parse text = .error error := by
  obtain ⟨before, line, behind, hlines, hbefore, hline, hnumber⟩ := h
  rw [parse, hlines, parseLines_of_readable hbefore, parseLines, hline]
  exact congrArg (fun number => Except.error (Error.mk number error.fault)) (by omega)

/-- A text can be read or has a first line that is faulty. -/
theorem readable_or_faulty (text : String) : Readable text ∨ ∃ error, Faulty text error := by
  rcases all_or_first (fun line => ∃ said, parseLine line = .ok said) (Text.lines text.toList) with
    hall | ⟨before, line, behind, hlines, hbefore, hline⟩
  · exact .inl hall
  · cases hparse : parseLine line with
    | ok said => exact absurd ⟨said, hparse⟩ hline
    | error fault => exact .inr ⟨⟨_, fault⟩, before, line, behind, hlines, hbefore, hparse, rfl⟩

end EnvFile

end Bringup
