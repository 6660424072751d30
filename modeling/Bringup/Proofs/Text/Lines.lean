import Bringup.Proofs.Text.Trimming

/-!
# The lines of a text

A text is a last line without a line feed, or a line, a line feed and a text behind it
(`lines_induction`). `lines` follows that: an empty last line is none at all, and a line that ends at a
line feed leaves a carriage return before it out (`lines_append_newline`). So a text can be cut at any of
its line feeds (`lines_append`), where the part before keeps its line feed, since its last line is a line
even if it is empty.
-/

namespace Bringup.Text

variable {line text rest : List Char}

/-- A line without the carriage return that may stand at its end. -/
def dropReturn (line : List Char) : List Char :=
  if line.getLast? = some '\r' then line.dropLast else line

theorem dropReturn_nil : dropReturn [] = [] := rfl

theorem dropReturn_singleton {c : Char} (hc : c ≠ '\r') : dropReturn [c] = [c] :=
  if_neg fun h => hc (Option.some.inj h)

theorem dropReturn_cons {c : Char} (h : line ≠ []) : dropReturn (c :: line) = c :: dropReturn line := by
  obtain ⟨d, rest, rfl⟩ := List.exists_cons_of_ne_nil h
  rw [dropReturn, dropReturn, List.getLast?_cons_cons, List.dropLast_cons_cons]
  split <;> rfl

theorem dropReturn_append_return (line : List Char) : dropReturn (line ++ ['\r']) = line := by
  rw [dropReturn, List.getLast?_concat, if_pos rfl, List.dropLast_concat]

theorem mem_of_mem_dropReturn {c : Char} (h : c ∈ dropReturn line) : c ∈ line := by
  rw [dropReturn] at h
  split at h
  · exact List.dropLast_subset line h
  · exact h

/-- A carriage return is a blank. -/
theorem trim_dropReturn (line : List Char) : trim (dropReturn line) = trim line := by
  rw [dropReturn]
  split
  next h =>
    obtain ⟨rest, rfl⟩ := List.getLast?_eq_some_iff.1 h
    have hblank : Blank ['\r'] := fun c hc => List.mem_singleton.1 hc ▸ rfl
    rw [List.dropLast_concat, trim_append_right hblank]
  next => rfl

/-- A text is a last line, or a line and a text behind it. -/
@[elab_as_elim]
theorem lines_induction {motive : List Char → Prop} (last : ∀ line, '\n' ∉ line → motive line)
    (line : ∀ line rest, '\n' ∉ line → motive rest → motive (line ++ '\n' :: rest))
    (text : List Char) : motive text := by
  -- The induction is on what has not been read, behind the part of the line that has been.
  have hbehind : ∀ text before, '\n' ∉ before → motive (before ++ text) := by
    intro text
    induction text with
    | nil =>
        intro before h
        rw [List.append_nil]
        exact last before h
    | cons c rest ih =>
        intro before h
        by_cases hc : c = '\n'
        · exact hc ▸ line before rest h (ih [] List.not_mem_nil)
        · have hbefore : '\n' ∉ before ++ [c] := by
            rw [List.mem_append, List.mem_singleton, not_or]
            exact ⟨h, Ne.symm hc⟩
          have hlonger := ih (before ++ [c]) hbefore
          rwa [List.append_assoc, List.singleton_append] at hlonger
  exact hbehind text [] List.not_mem_nil

/-! ### What the lines are -/

/-- A character that ends no line belongs to the line behind it. -/
theorem lines_cons {c : Char} (hc : c ≠ '\n') (hr : c = '\r' → text.head? ≠ some '\n') :
    lines (c :: text) =
      match lines text with
      | [] => [[c]]
      | line :: rest => (c :: line) :: rest :=
  lines.eq_4 c text hc fun _ hreturn hcs => hr hreturn (by rw [hcs]; rfl)

theorem lines_of_not_mem (h : '\n' ∉ line) (hne : line ≠ []) : lines line = [line] := by
  induction line with
  | nil => exact absurd rfl hne
  | cons c rest ih =>
      rw [List.mem_cons, not_or] at h
      have hhead : rest.head? ≠ some '\n' := fun hh => h.2 (List.mem_of_mem_head? hh)
      rw [lines_cons (Ne.symm h.1) fun _ => hhead]
      by_cases hrest : rest = []
      · rw [hrest]
        rfl
      · rw [ih h.2 hrest]

/-- **A line ends at a line feed**, which takes a carriage return before it along. -/
theorem lines_append_newline (h : '\n' ∉ line) (rest : List Char) :
    lines (line ++ '\n' :: rest) = dropReturn line :: lines rest := by
  induction line with
  | nil => rfl
  | cons c before ih =>
      rw [List.mem_cons, not_or] at h
      cases before with
      | nil =>
          by_cases hc : c = '\r'
          · rw [hc]
            rfl
          · rw [List.cons_append, lines_cons (Ne.symm h.1) fun hr => absurd hr hc, ih h.2,
              dropReturn_nil, dropReturn_singleton hc]
      | cons d ds =>
          have hhead : ((d :: ds) ++ '\n' :: rest).head? ≠ some '\n' := fun hh =>
            h.2 (Option.some.inj hh ▸ List.mem_cons_self)
          rw [List.cons_append, lines_cons (Ne.symm h.1) fun _ => hhead, ih h.2,
            dropReturn_cons (List.cons_ne_nil d ds)]

/-- **A text can be cut at a line feed.** -/
theorem lines_append (text rest : List Char) :
    lines (text ++ '\n' :: rest) = lines (text ++ ['\n']) ++ lines rest := by
  induction text using lines_induction with
  | last line h =>
      rw [lines_append_newline h, lines_append_newline h]
      rfl
  | line line behind h ih =>
      rw [List.append_assoc, List.append_assoc, List.cons_append, List.cons_append,
        lines_append_newline h, lines_append_newline h, ih, List.cons_append]

/-- A text that ends at a line feed has one line for each of its line feeds. -/
theorem length_lines_append_newline (text : List Char) :
    (lines (text ++ ['\n'])).length = text.count '\n' + 1 := by
  induction text using lines_induction with
  | last line h =>
      rw [lines_append_newline h, List.count_eq_zero_of_not_mem h]
      rfl
  | line line behind h ih =>
      rw [List.append_assoc, List.cons_append, lines_append_newline h, List.length_cons, ih,
        List.count_append, List.count_eq_zero_of_not_mem h, List.count_cons_self, Nat.zero_add]

theorem not_mem_of_mem_lines (h : line ∈ lines text) : '\n' ∉ line := by
  induction text using lines_induction with
  | last last hlast =>
      by_cases hne : last = []
      · rw [hne] at h
        exact absurd h List.not_mem_nil
      · rw [lines_of_not_mem hlast hne] at h
        exact List.mem_singleton.1 h ▸ hlast
  | line first behind hfirst ih =>
      rw [lines_append_newline hfirst, List.mem_cons] at h
      rcases h with rfl | h
      · exact fun hm => hfirst (mem_of_mem_dropReturn hm)
      · exact ih h

end Bringup.Text
