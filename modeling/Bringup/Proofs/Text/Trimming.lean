import Bringup.Text.Blank

/-!
# Trimmed texts

`trim` is known from its one answer: the text that stands between blanks and itself neither starts nor
ends with one,

    trim_eq_iff : trim cs = middle ↔ Trimmed middle ∧ Surrounds middle cs.

The two directions are `trim_of_surrounds`, that blanks at either end make no difference and that a
trimmed text is left as it is, and `surrounds_trim`, that nothing but blanks is taken off.
-/

namespace Bringup.Text

variable {cs before after middle : List Char}

/-! ### Blanks -/

/-- A text of blanks only. -/
def Blank (cs : List Char) : Prop := ∀ c ∈ cs, isBlank c = true

instance : Decidable (Blank cs) := List.decidableBAll (fun c => isBlank c = true) cs

/-- A text that neither starts nor ends with a blank. -/
structure Trimmed (cs : List Char) : Prop where
  first : ∀ c ∈ cs.head?, isBlank c = false
  last : ∀ c ∈ cs.getLast?, isBlank c = false

/-- A text is another one between blanks. -/
def Surrounds (middle cs : List Char) : Prop :=
  ∃ before after, Blank before ∧ Blank after ∧ cs = before ++ middle ++ after

theorem blank_nil : Blank [] := fun _ h => absurd h List.not_mem_nil

theorem not_mem_of_blank {c : Char} (hc : isBlank c = false) (h : Blank cs) : c ∉ cs := by
  intro hm
  rw [h c hm] at hc
  cases hc

theorem Blank.reverse (h : Blank cs) : Blank cs.reverse :=
  fun c hc => h c (List.mem_reverse.1 hc)

/-! ### Leading blanks -/

theorem trimStart_append_left (h : Blank before) : trimStart (before ++ cs) = trimStart cs :=
  List.dropWhile_append_of_pos h

theorem trimStart_of_blank (h : Blank cs) : trimStart cs = [] := by
  rw [← List.append_nil cs, trimStart_append_left h]
  rfl

theorem trimStart_of_first (h : ∀ c ∈ cs.head?, isBlank c = false) : trimStart cs = cs := by
  cases cs with
  | nil => rfl
  | cons c rest => exact List.dropWhile_cons_of_neg (by rw [h c rfl]; decide)

/-- Only blanks are taken off the start. -/
theorem exists_trimStart (cs : List Char) :
    ∃ before, Blank before ∧ cs = before ++ trimStart cs :=
  ⟨cs.takeWhile isBlank, List.all_eq_true.1 List.all_takeWhile,
    List.takeWhile_append_dropWhile.symm⟩

theorem first_trimStart (cs : List Char) : ∀ c ∈ (trimStart cs).head?, isBlank c = false := by
  intro c hc
  have hnot := List.head?_dropWhile_not isBlank cs
  rw [show (cs.dropWhile isBlank).head? = some c from hc] at hnot
  simpa using hnot

/-- What stands behind a character that is no blank is kept. -/
theorem trimStart_append_cons {c : Char} (hc : isBlank c = false) (before after : List Char) :
    trimStart (before ++ c :: after) = trimStart before ++ c :: after := by
  obtain ⟨blanks, hblanks, he⟩ := exists_trimStart before
  have hfirst : ∀ d ∈ (trimStart before ++ c :: after).head?, isBlank d = false := by
    intro d hd
    rw [List.head?_append, Option.mem_def, Option.or_eq_some_iff] at hd
    rcases hd with hd | ⟨-, hd⟩
    · exact first_trimStart before d hd
    · exact Option.some.inj hd ▸ hc
  calc trimStart (before ++ c :: after)
      = trimStart (blanks ++ (trimStart before ++ c :: after)) := by
        rw [← List.append_assoc, ← he]
    _ = trimStart (trimStart before ++ c :: after) := trimStart_append_left hblanks
    _ = trimStart before ++ c :: after := trimStart_of_first hfirst

/-! ### Trailing blanks -/

theorem trimEnd_eq (cs : List Char) : trimEnd cs = (trimStart cs.reverse).reverse := rfl

theorem trimEnd_append_right (h : Blank after) : trimEnd (cs ++ after) = trimEnd cs := by
  rw [trimEnd_eq, List.reverse_append, trimStart_append_left h.reverse, trimEnd_eq]

theorem trimEnd_of_last (h : ∀ c ∈ cs.getLast?, isBlank c = false) : trimEnd cs = cs := by
  rw [trimEnd_eq, trimStart_of_first (by rwa [List.head?_reverse]), List.reverse_reverse]

/-- Only blanks are taken off the end. -/
theorem exists_trimEnd (cs : List Char) : ∃ after, Blank after ∧ cs = trimEnd cs ++ after := by
  obtain ⟨before, hbefore, he⟩ := exists_trimStart cs.reverse
  refine ⟨before.reverse, hbefore.reverse, ?_⟩
  rw [trimEnd_eq, ← List.reverse_append, ← he, List.reverse_reverse]

/-! ### Both ends -/

theorem trim_append_left (h : Blank before) : trim (before ++ cs) = trim cs := by
  rw [trim, trimStart_append_left h, trim]

theorem trim_append_right (h : Blank after) : trim (cs ++ after) = trim cs := by
  rw [trim, trim, trimStart, List.dropWhile_append]
  split
  next hnil =>
    -- All of the text is blank, and so is the text with the blanks behind it.
    show trimEnd (trimStart after) = trimEnd (trimStart cs)
    rw [trimStart_of_blank h, show trimStart cs = [] from List.isEmpty_iff.1 hnil]
  next => exact trimEnd_append_right h

theorem trim_of_trimmed (h : Trimmed cs) : trim cs = cs := by
  rw [trim, trimStart_of_first h.first, trimEnd_of_last h.last]

theorem trimmed_of_plain (h : ∀ c ∈ cs, isBlank c = false) : Trimmed cs where
  first c hc := h c (List.mem_of_mem_head? hc)
  last c hc := h c (List.mem_of_getLast? hc)

/-- A text is trimmed if two trimmed texts stand at its ends. -/
theorem Trimmed.append (hbefore : Trimmed before) (hafter : Trimmed after) (hne : before ≠ [])
    (hne' : after ≠ []) (middle : List Char) : Trimmed (before ++ (middle ++ after)) where
  first c hc := by
    obtain ⟨first, rest, rfl⟩ := List.exists_cons_of_ne_nil hne
    exact hbefore.first c hc
  last c hc := by
    refine hafter.last c ?_
    rwa [← List.append_assoc, List.getLast?_append, List.getLast?_eq_some_getLast hne', Option.some_or,
      ← List.getLast?_eq_some_getLast] at hc

theorem trim_of_surrounds (h : Trimmed middle) (hs : Surrounds middle cs) : trim cs = middle := by
  obtain ⟨before, after, hbefore, hafter, rfl⟩ := hs
  rw [trim_append_right hafter, trim_append_left hbefore, trim_of_trimmed h]

/-- **Nothing but blanks** is taken off a text. -/
theorem surrounds_trim (cs : List Char) : Surrounds (trim cs) cs := by
  obtain ⟨before, hbefore, hstart⟩ := exists_trimStart cs
  obtain ⟨after, hafter, hend⟩ := exists_trimEnd (trimStart cs)
  refine ⟨before, after, hbefore, hafter, ?_⟩
  rw [trim, List.append_assoc, ← hend, ← hstart]

theorem trimmed_trim (cs : List Char) : Trimmed (trim cs) where
  first c hc := by
    obtain ⟨after, -, hend⟩ := exists_trimEnd (trimStart cs)
    refine first_trimStart cs c ?_
    rw [hend, List.head?_append, Option.mem_def.1 (show c ∈ (trimEnd (trimStart cs)).head? from hc)]
    rfl
  last c hc := by
    rw [trim, trimEnd_eq, List.getLast?_reverse] at hc
    exact first_trimStart _ c hc

/-- **The trimmed text** is the one that stands between blanks and has none at its ends. -/
theorem trim_eq_iff : trim cs = middle ↔ Trimmed middle ∧ Surrounds middle cs := by
  constructor
  · rintro rfl
    exact ⟨trimmed_trim cs, surrounds_trim cs⟩
  · rintro ⟨h, hs⟩
    exact trim_of_surrounds h hs

theorem trim_eq_nil : trim cs = [] ↔ Blank cs := by
  constructor
  · intro h
    obtain ⟨before, after, hbefore, hafter, he⟩ := surrounds_trim cs
    rw [h, List.append_nil] at he
    exact he ▸ fun c hc => (List.mem_append.1 hc).elim (hbefore c) (hafter c)
  · intro h
    rw [trim, trimStart_of_blank h]
    rfl

theorem trim_trimStart (cs : List Char) : trim (trimStart cs) = trim cs := by
  rw [trim, trimStart_of_first (first_trimStart cs), trim]

/-- The trimmed text starts with a character that is no blank just if only blanks stand before it. -/
theorem head?_trim {c : Char} (hc : isBlank c = false) :
    (trim cs).head? = some c ↔ ∃ before after, Blank before ∧ cs = before ++ c :: after := by
  constructor
  · intro h
    obtain ⟨before, after, hbefore, -, he⟩ := surrounds_trim cs
    obtain ⟨rest, hrest⟩ := List.head?_eq_some_iff.1 h
    exact ⟨before, rest ++ after, hbefore, by rw [he, hrest]; simp⟩
  · rintro ⟨before, after, hbefore, rfl⟩
    have hstart : trimStart (before ++ c :: after) = c :: after := by
      rw [trimStart_append_cons hc, trimStart_of_blank hbefore, List.nil_append]
    obtain ⟨blanks, hblanks, he⟩ := exists_trimEnd (c :: after)
    rw [trim, hstart]
    cases htrim : trimEnd (c :: after) with
    | nil =>
        rw [htrim, List.nil_append] at he
        exact absurd (he ▸ List.mem_cons_self) (not_mem_of_blank hc hblanks)
    | cons d rest =>
        rw [htrim, List.cons_append] at he
        exact congrArg some (List.cons.inj he).1.symm

/-- Leading blanks belong to the part before a separator that is no blank. -/
theorem splitAt?_trimStart {sep : Char} (hsep : isBlank sep = false) (cs : List Char) :
    splitAt? sep (trimStart cs)
      = (splitAt? sep cs).map fun (before, after) => (trimStart before, after) := by
  have hkept {text : List Char} (h : sep ∉ text) : sep ∉ trimStart text := by
    obtain ⟨before, -, he⟩ := exists_trimStart text
    exact fun hm => h (he ▸ List.mem_append_right _ hm)
  cases hsplit : splitAt? sep cs with
  | none => exact splitAt?_eq_none.2 (hkept (splitAt?_eq_none.1 hsplit))
  | some parts =>
      obtain ⟨rfl, hbefore⟩ := splitAt?_eq_some hsplit
      rw [trimStart_append_cons hsep, splitAt?_append _ (hkept hbefore)]
      rfl

end Bringup.Text
