import Bringup.EnvFile
import Bringup.Proofs.Text.Lines

/-!
# What a line of an environment file says

A line that is blank or a comment says nothing. Any other line assigns a value to a key: between its outer
blanks, and behind an `export ` if it starts with one, the first equals sign stands between the two, and
the key is not empty and has no blanks inside. `Means` relates a line to what it says, and reading is the
function of that relation:

    parseLine_eq_ok_iff : parseLine line = .ok said ↔ Means line said.
-/

namespace Bringup.EnvFile

open Text

variable {line text key value : List Char} {said : Option (String × String)}

/-! ### The relation -/

/-- A line whose first character, blanks aside, is a hash. -/
def Comment (line : List Char) : Prop :=
  ∃ indent text, Blank indent ∧ line = indent ++ '#' :: text

/-- What remains of a line without its outer blanks and without an `export ` in front. -/
def Remains (line text : List Char) : Prop :=
  trim line = "export ".toList ++ text ∨ ¬ "export ".toList <+: trim line ∧ trim line = text

/-- A line with an equals sign, where the text before the first one is a key between blanks. -/
structure Assigns (line key value : List Char) : Prop where
  remains : Remains line (key ++ '=' :: value)
  first : '=' ∉ key
  ne_nil : trim key ≠ []
  plain : ∀ c ∈ trim key, isBlank c = false

/-- What a line says: nothing, or the value of a variable. -/
inductive Means (line : List Char) : Option (String × String) → Prop where
  | blank (h : Blank line) : Means line none
  | comment (h : Comment line) : Means line none
  | assignment {key value : List Char} (hcomment : ¬ Comment line) (h : Assigns line key value) :
    Means line (some (.ofList (trim key), .ofList (unquote (trim value))))

/-! ### Reading -/

/-- What remains of a line, as it is read. -/
def remainder (line : List Char) : List Char :=
  (dropLead? "export ".toList (trim line)).getD (trim line)

theorem remainder_eq_iff : remainder line = text ↔ Remains line text := by
  rw [remainder, Remains]
  cases hlead : dropLead? "export ".toList (trim line) with
  | some rest =>
      have hline := dropLead?_eq_some.1 hlead
      have hstarts : "export ".toList <+: trim line := ⟨rest, hline.symm⟩
      rw [hline, List.append_cancel_left_eq, Option.getD_some, ← hline]
      simp only [hstarts, not_true_eq_false, false_and, or_false]
  | none =>
      have hstarts : ¬ "export ".toList <+: trim line := by
        rintro ⟨rest, hline⟩
        rw [dropLead?_eq_some.2 hline.symm] at hlead
        cases hlead
      have hlong : trim line ≠ "export ".toList ++ text := fun he => hstarts ⟨text, he.symm⟩
      simp only [hstarts, hlong, not_false_eq_true, true_and, false_or, Option.getD_none]

theorem silent_iff :
    trim line = [] ∨ (trim line).head? = some '#' ↔ Blank line ∨ Comment line :=
  or_congr trim_eq_nil (head?_trim (by decide))

theorem parseLine_of_silent (h : Blank line ∨ Comment line) : parseLine line = .ok none :=
  if_pos (silent_iff.2 h)

/-- What the text of an assignment says. -/
def readAssignment (text : List Char) : Except Fault (Option (String × String)) :=
  match splitAt? '=' text with
  | none => .error (.noAssignment (.ofList text))
  | some (key, value) =>
    if trim key = [] ∨ (trim key).any isBlank then .error (.invalidKey (.ofList (trim key)))
    else .ok (some (.ofList (trim key), .ofList (unquote (trim value))))

/-- A line that may not be silent is read behind its `export `. -/
theorem parseLine_of_not_silent (h : ¬ (Blank line ∨ Comment line)) :
    parseLine line = readAssignment (trimStart (remainder line)) := by
  rw [parseLine, remainder]
  simp only [if_neg (mt silent_iff.1 h)]
  cases dropLead? "export ".toList (trim line) with
  | some rest => rfl
  | none =>
      rw [Option.getD_none, trimStart_of_first (trimmed_trim line).first]
      rfl

/-- Blanks in front of an assignment do not count for its key. -/
theorem readAssignment_trimStart_eq_ok_iff :
    readAssignment (trimStart text) = .ok said ↔
      ∃ key value, splitAt? '=' text = some (key, value) ∧
        ¬ (trim key = [] ∨ (trim key).any isBlank) ∧
        said = some (.ofList (trim key), .ofList (unquote (trim value))) := by
  rw [readAssignment, splitAt?_trimStart (by decide)]
  cases hsplit : splitAt? '=' text with
  | none => simp
  | some parts =>
      obtain ⟨key, value⟩ := parts
      simp only [Option.map_some, trim_trimStart, Option.some.injEq, Prod.mk.injEq]
      constructor
      · intro h
        split at h
        next => cases h
        next hkey => exact ⟨key, value, ⟨rfl, rfl⟩, hkey, (Except.ok.inj h).symm⟩
      · rintro ⟨_, _, ⟨rfl, rfl⟩, hkey, rfl⟩
        exact if_neg hkey

theorem assigns_iff :
    Assigns line key value ↔ splitAt? '=' (remainder line) = some (key, value) ∧
      ¬ (trim key = [] ∨ (trim key).any isBlank) := by
  have hkey : ¬ (trim key = [] ∨ (trim key).any isBlank) ↔
      trim key ≠ [] ∧ ∀ c ∈ trim key, isBlank c = false := by
    rw [not_or, Bool.not_eq_true, List.any_eq_false]
    simp only [Bool.not_eq_true]
  rw [hkey]
  constructor
  · intro h
    rw [remainder_eq_iff.2 h.remains, splitAt?_append _ h.first]
    exact ⟨rfl, h.ne_nil, h.plain⟩
  · rintro ⟨hsplit, hne, hplain⟩
    obtain ⟨he, hfirst⟩ := splitAt?_eq_some hsplit
    exact ⟨remainder_eq_iff.1 he, hfirst, hne, hplain⟩

/-- A line that assigns has characters that are no blanks. -/
theorem Assigns.not_blank (h : Assigns line key value) : ¬ Blank line := by
  intro hblank
  rcases h.remains with he | ⟨-, he⟩ <;> rw [trim_eq_nil.2 hblank] at he
  · exact absurd he (by simp)
  · exact absurd he (by simp)

/-- **What a line says** is what is read from it. -/
theorem parseLine_eq_ok_iff : parseLine line = .ok said ↔ Means line said := by
  constructor
  · intro h
    by_cases hsilent : Blank line ∨ Comment line
    · rw [parseLine_of_silent hsilent] at h
      obtain rfl := Except.ok.inj h
      exact hsilent.elim .blank .comment
    · rw [parseLine_of_not_silent hsilent, readAssignment_trimStart_eq_ok_iff] at h
      obtain ⟨key, value, hsplit, hkey, rfl⟩ := h
      exact .assignment (fun hc => hsilent (.inr hc)) (assigns_iff.2 ⟨hsplit, hkey⟩)
  · intro h
    cases h with
    | blank h => exact parseLine_of_silent (.inl h)
    | comment h => exact parseLine_of_silent (.inr h)
    | assignment hcomment h =>
        rw [parseLine_of_not_silent (not_or.2 ⟨h.not_blank, hcomment⟩),
          readAssignment_trimStart_eq_ok_iff]
        obtain ⟨hsplit, hkey⟩ := assigns_iff.1 h
        exact ⟨_, _, hsplit, hkey, rfl⟩

/-- **A line is accepted** if it is blank, a comment, or assigns. -/
theorem exists_parseLine_iff :
    (∃ said, parseLine line = .ok said) ↔
      Blank line ∨ Comment line ∨ ∃ key value, Assigns line key value := by
  simp only [parseLine_eq_ok_iff]
  constructor
  · rintro ⟨said, h⟩
    cases h with
    | blank h => exact .inl h
    | comment h => exact .inr (.inl h)
    | assignment hcomment h => exact .inr (.inr ⟨_, _, h⟩)
  · rintro (h | h | ⟨key, value, h⟩)
    · exact ⟨none, .blank h⟩
    · exact ⟨none, .comment h⟩
    · by_cases hcomment : Comment line
      · exact ⟨none, .comment hcomment⟩
      · exact ⟨_, .assignment hcomment h⟩

/-- Outer blanks say nothing. -/
theorem parseLine_congr {other : List Char} (h : trim line = trim other) :
    parseLine line = parseLine other := by
  rw [parseLine, parseLine, h]

end Bringup.EnvFile
