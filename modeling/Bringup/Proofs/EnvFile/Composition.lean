import Bringup.Proofs.Deployment.Variables
import Bringup.Proofs.EnvFile.LineMeaning

/-!
# Environment files that are joined

What is read from lines behind other lines is what is read from them alone, laid on top of what the others
set, and an error is as many lines further down (`parseLines_eq_onTop`). A text reads the same with a line
feed at its end (`parseLines_lines_append_newline`): it adds a blank line or ends the last one, where it
may take a carriage return along. With the law for the lines of two texts this gives the law for texts
that are joined by a line feed (`parse_append`).
-/

namespace Bringup

/-! ## Layers of environments -/

namespace Environment

theorem overriddenBy_empty (env : Environment) : env.overriddenBy empty = env := rfl

theorem overriddenBy_single (env : Environment) (key value : String) :
    env.overriddenBy (empty.set key value) = env.set key value := rfl

/-- The order in which layers are put together makes no difference. -/
theorem overriddenBy_assoc (env middle top : Environment) :
    env.overriddenBy (middle.overriddenBy top) = (env.overriddenBy middle).overriddenBy top := by
  apply ext_get?
  intro key
  rw [get?_overriddenBy, get?_overriddenBy, get?_overriddenBy, get?_overriddenBy, Option.or_assoc]

end Environment

namespace EnvFile

open Text

variable {env : Environment} {number : Nat} {line : List Char}

/-! ## Lines behind lines -/

/-- What is read on top of an environment and behind so many lines. -/
def onTop (env : Environment) (lines : Nat) : Except Error Environment → Except Error Environment
  | .error error => .error ⟨error.line + lines, error.fault⟩
  | .ok top => .ok (env.overriddenBy top)

theorem onTop_onTop (env middle : Environment) (lines more : Nat)
    (read : Except Error Environment) :
    onTop env lines (onTop middle more read) = onTop (env.overriddenBy middle) (lines + more) read := by
  cases read with
  | error error =>
      show Except.error (Error.mk (error.line + more + lines) error.fault) = .error ⟨_, error.fault⟩
      rw [Nat.add_assoc, Nat.add_comm more]
  | ok top => exact congrArg Except.ok (Environment.overriddenBy_assoc env middle top)

/-- **Lines are read by themselves**, whatever has been read before. -/
theorem parseLines_eq_onTop (env : Environment) (number : Nat) (lines : List (List Char)) :
    parseLines env (number + 1) lines = onTop env number (parseLines .empty 1 lines) := by
  induction lines generalizing env number with
  | nil => exact congrArg Except.ok (Environment.overriddenBy_empty env).symm
  | cons line rest ih =>
      rw [parseLines, parseLines]
      cases parseLine line with
      | error fault =>
          show Except.error (Error.mk _ fault) = .error ⟨_, fault⟩
          rw [Nat.add_comm]
      | ok said =>
          cases said with
          | none =>
              show parseLines env (number + 1 + 1) rest = onTop env number (parseLines .empty (1 + 1) rest)
              rw [ih, ih .empty 1, onTop_onTop, Environment.overriddenBy_empty]
          | some assignment =>
              obtain ⟨key, value⟩ := assignment
              show parseLines (env.set key value) (number + 1 + 1) rest
                = onTop env number (parseLines (Environment.empty.set key value) (1 + 1) rest)
              rw [ih, ih _ 1, onTop_onTop, Environment.overriddenBy_single]

theorem parseLines_append (env : Environment) (number : Nat) (before behind : List (List Char)) :
    parseLines env number (before ++ behind)
      = (parseLines env number before).bind fun env =>
          parseLines env (number + before.length) behind := by
  induction before generalizing env number with
  | nil => rfl
  | cons line rest ih =>
      have hlength : number + (line :: rest).length = number + 1 + rest.length := by
        rw [List.length_cons]
        omega
      rw [List.cons_append, parseLines, parseLines, hlength]
      cases parseLine line with
      | error fault => rfl
      | ok said =>
          cases said with
          | none => exact ih env (number + 1)
          | some assignment => exact ih (env.set assignment.1 assignment.2) (number + 1)

/-! ## The end of a text -/

theorem parseLine_dropReturn (line : List Char) : parseLine (dropReturn line) = parseLine line :=
  parseLine_congr (trim_dropReturn line)

/-- **A line feed at the end** of a text says nothing. -/
theorem parseLines_lines_append_newline (env : Environment) (number : Nat) (text : List Char) :
    parseLines env number (lines (text ++ ['\n'])) = parseLines env number (lines text) := by
  induction text using lines_induction generalizing env number with
  | last line h =>
      rw [lines_append_newline h]
      by_cases hline : line = []
      · rw [hline, parseLines, parseLine_dropReturn, parseLine_of_silent (.inl blank_nil)]
        rfl
      · rw [lines_of_not_mem h hline, parseLines, parseLine_dropReturn]
        rfl
  | line line rest h ih =>
      rw [List.append_assoc, List.cons_append, lines_append_newline h, lines_append_newline h,
        parseLines, parseLines]
      simp only [ih]

/-- **Joined texts** are read one after the other, the second one on top of the first. -/
theorem parse_append (a b : String) :
    parse (a ++ "\n" ++ b) = (parse a).bind fun env => onTop env (a.toList.count '\n' + 1) (parse b) := by
  have htext : (a ++ "\n" ++ b).toList = a.toList ++ '\n' :: b.toList := by
    rw [String.toList_append, String.toList_append, List.append_assoc]
    rfl
  rw [parse, htext, lines_append, parseLines_append, parseLines_lines_append_newline,
    length_lines_append_newline, Nat.add_comm 1]
  exact congrArg (parse a).bind (funext fun env => parseLines_eq_onTop env _ _)

/-! ## Single lines -/

theorem exists_parse_iff {text : String} : (∃ env, parse text = .ok env) ↔ Readable text := by
  constructor
  · rintro ⟨env, henv⟩
    refine (readable_or_faulty text).resolve_right fun ⟨error, hfaulty⟩ => ?_
    rw [parse_of_faulty hfaulty] at henv
    cases henv
  · intro h
    exact ⟨_, parse_of_readable h⟩

/-- A line by itself can be read if it says something or nothing. -/
theorem exists_parse_line_iff (h : '\n' ∉ line) :
    (∃ env, parse (.ofList line) = .ok env) ↔ ∃ said, parseLine line = .ok said := by
  rw [exists_parse_iff, Readable, String.toList_ofList]
  by_cases hline : line = []
  · rw [hline]
    exact iff_of_true (by simp [lines]) ⟨none, parseLine_of_silent (.inl blank_nil)⟩
  · rw [lines_of_not_mem h hline, List.forall_mem_singleton]

/-! ## Keys -/

/-- A key that is set is not empty and has neither an equals sign nor a blank. -/
theorem Means.key {entry : String × String} (h : Means line (some entry)) :
    entry.1 ≠ "" ∧ ∀ c ∈ entry.1.toList, c ≠ '=' ∧ isBlank c = false := by
  cases h with
  | @assignment key value hcomment h =>
      rw [String.toList_ofList]
      refine ⟨fun he => h.ne_nil (by simpa using congrArg String.toList he), fun c hc => ?_⟩
      obtain ⟨before, after, -, -, hkey⟩ := surrounds_trim key
      have hmem : c ∈ key := by
        rw [hkey]
        exact List.mem_append_left _ (List.mem_append_right _ hc)
      exact ⟨fun he => h.first (he ▸ hmem), h.plain c hc⟩

theorem said?_eq_some_iff {entry : String × String} : said? line = some entry ↔ Means line (some entry) := by
  rw [← parseLine_eq_ok_iff, said?]
  cases parseLine line with
  | error fault => exact iff_of_false (Option.some_ne_none entry).symm (fun h => by cases h)
  | ok said => exact ⟨congrArg Except.ok, Except.ok.inj⟩

theorem key_of_parse {text : String} {env : Environment} (h : parse text = .ok env) {key value : String}
    (hvalue : env.get? key = some value) :
    key ≠ "" ∧ ∀ c ∈ key.toList, c ≠ '=' ∧ isBlank c = false := by
  have henv := parse_of_readable (exists_parse_iff.1 ⟨env, h⟩)
  rw [h] at henv
  rw [Except.ok.inj henv, Environment.ofList, Environment.get?_setAll, Environment.get?_empty,
    Option.or_none, Environment.lastValue] at hvalue
  obtain ⟨before, behind, he, -⟩ := List.lookup_eq_some_iff.1 hvalue
  have hmem : (key, value) ∈ assignments text :=
    List.mem_reverse.1 (he ▸ List.mem_append_right _ List.mem_cons_self)
  obtain ⟨line, -, hline⟩ := List.mem_filterMap.1 hmem
  exact (said?_eq_some_iff.1 hline).key

/-- **Environment files are read line by line.** Of two texts that are joined by a line feed the first one
that fails decides, and an error of the second one is as many lines further down as the first one has;
else the variables of the second are laid on top of those of the first. So a text can be read just if each
of its lines can be read alone, and these are the lines that are blank, comments, or have a key before
their first equals sign. No key that is set is empty or has an equals sign or a blank in it. -/
theorem parse_joined (a b : String) :
    (parse (a ++ "\n" ++ b) =
      match parse a, parse b with
      | .error error, _ => .error error
      | .ok _, .error error => .error ⟨error.line + 1 + a.toList.count '\n', error.fault⟩
      | .ok env, .ok top => .ok (env.overriddenBy top)) ∧
    ((∃ env, parse a = .ok env) ↔
      ∀ line ∈ lines a.toList, ∃ env, parse (.ofList line) = .ok env) ∧
    (∀ line, '\n' ∉ line → ((∃ env, parse (.ofList line) = .ok env) ↔
      Blank line ∨ Comment line ∨ ∃ key value, Assigns line key value)) ∧
    ∀ env, parse a = .ok env → ∀ key value, env.get? key = some value →
      key ≠ "" ∧ ∀ c ∈ key.toList, c ≠ '=' ∧ isBlank c = false := by
  refine ⟨?_, ?_, ?_, ?_⟩
  · rw [parse_append]
    cases parse a with
    | error error => rfl
    | ok env =>
        cases parse b with
        | ok top => rfl
        | error error =>
            show Except.error (Error.mk _ error.fault) = .error ⟨_, error.fault⟩
            rw [Nat.add_comm (a.toList.count '\n'), ← Nat.add_assoc]
  · rw [exists_parse_iff]
    exact forall₂_congr fun line hline => (exists_parse_line_iff (not_mem_of_mem_lines hline)).symm
  · intro line h
    rw [exists_parse_line_iff h, exists_parseLine_iff]
  · intro env henv key value hvalue
    exact key_of_parse henv hvalue

/-- The carriage return at the seam belongs to the end of the line, and the error counts the lines of the
first text. -/
theorem parse_joined_seam :
    parse "A=1\r" = .ok (.ofList [("A", "1")]) ∧
      parse "\nB" = .error ⟨2, .noAssignment "B"⟩ ∧
      parse ("A=1\r" ++ "\n" ++ "\nB") = .error ⟨3, .noAssignment "B"⟩ := by
  have hfirst : parse "A=1\r" = .ok (.ofList [("A", "1")]) := by decide
  have hsecond : parse "\nB" = .error ⟨2, .noAssignment "B"⟩ := by decide
  refine ⟨hfirst, hsecond, ?_⟩
  rw [(parse_joined "A=1\r" "\nB").1, hfirst, hsecond]
  rfl

end EnvFile

end Bringup
