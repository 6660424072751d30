/-!
# Blank characters

The characters that count as blank space are those of the Unicode property `White_Space`, which is
wider than ASCII and holds neither the information separators U+001C to U+001F nor the zero width
characters. `trim` strips them from both ends of a text; `splitAt?` and `lines` are the two ways in
which this library takes a text apart.
-/

namespace Bringup.Text

/-- The characters of the Unicode property `White_Space`. -/
def isBlank (c : Char) : Bool :=
  let n := c.toNat
  (0x09 ≤ n && n ≤ 0x0D) || n == 0x20 || n == 0x85 || n == 0xA0 || n == 0x1680 ||
    (0x2000 ≤ n && n ≤ 0x200A) || n == 0x2028 || n == 0x2029 || n == 0x202F || n == 0x205F ||
    n == 0x3000

/-- A text without its leading blanks. -/
def trimStart (cs : List Char) : List Char := cs.dropWhile isBlank

/-- A text without its trailing blanks. -/
def trimEnd (cs : List Char) : List Char := (cs.reverse.dropWhile isBlank).reverse

/-- A text without the blanks at its two ends. -/
def trim (cs : List Char) : List Char := trimEnd (trimStart cs)

/-- The parts before and after the first `sep`, or nothing where there is none. -/
def splitAt? (sep : Char) : List Char → Option (List Char × List Char)
  | [] => none
  | c :: cs =>
    if c = sep then some ([], cs)
    else (splitAt? sep cs).map fun (before, after) => (c :: before, after)

/-- What follows `lead`, where the text starts with it. -/
def dropLead? : List Char → List Char → Option (List Char)
  | [], cs => some cs
  | _ :: _, [] => none
  | l :: lead, c :: cs => if c = l then dropLead? lead cs else none

/-- The lines of a text: each ends at a line feed, which takes one carriage return before it along.
A last line needs no line feed, and a text that ends in one has no empty line after it. -/
def lines : List Char → List (List Char)
  | [] => []
  | '\n' :: cs => [] :: lines cs
  | '\r' :: '\n' :: cs => [] :: lines cs
  | c :: cs =>
    match lines cs with
    | [] => [[c]]
    | l :: ls => (c :: l) :: ls

/-! ### Small laws -/

theorem splitAt?_eq_some {sep : Char} {cs before after : List Char}
    (h : splitAt? sep cs = some (before, after)) : cs = before ++ sep :: after ∧ sep ∉ before := by
  induction cs generalizing before after with
  | nil => simp [splitAt?] at h
  | cons c cs ih =>
    rw [splitAt?] at h
    split at h
    next hc => simp_all
    next hc =>
      obtain ⟨⟨b, a⟩, hs, he⟩ := Option.map_eq_some_iff.1 h
      obtain ⟨rfl, rfl⟩ := Prod.mk.inj he
      obtain ⟨rfl, hn⟩ := ih hs
      exact ⟨rfl, by simp [hn, Ne.symm hc]⟩

theorem splitAt?_append {sep : Char} {before : List Char} (after : List Char) (h : sep ∉ before) :
    splitAt? sep (before ++ sep :: after) = some (before, after) := by
  induction before with
  | nil => simp [splitAt?]
  | cons c cs ih =>
    simp only [List.mem_cons, not_or] at h
    simp [splitAt?, ih h.2, Ne.symm h.1]

theorem splitAt?_eq_none {sep : Char} {cs : List Char} : splitAt? sep cs = none ↔ sep ∉ cs := by
  induction cs with
  | nil => simp [splitAt?]
  | cons c cs ih =>
    by_cases h : c = sep
    · simp [splitAt?, h]
    · simp [splitAt?, h, ih, Ne.symm h]

theorem dropLead?_eq_some {lead cs rest : List Char} :
    dropLead? lead cs = some rest ↔ cs = lead ++ rest := by
  induction lead generalizing cs with
  | nil => simp [dropLead?]
  | cons l lead ih =>
    cases cs with
    | nil => simp [dropLead?]
    | cons c cs =>
      by_cases h : c = l <;> simp [dropLead?, h, ih]

end Bringup.Text
