import Bringup.Proofs.EnvFile.Composition

/-!
# Rendered environment files

An environment file can be written in many ways. A `Rendering` holds all that is free: on which lines the
variables stand, with which blank lines and comments between them, where `export ` and gaps are, which
quotes surround a value and how a line ends. Reading forgets all of it and gives back the variables, in
their order:

    parse_rendering : parse rendering.text = .ok (.ofList rendering.entries) ∧ ...

The quotes keep a value together, whatever it holds: it may start or end with quotes and blanks itself.
-/

namespace Bringup.EnvFile

open Text

/-! ## What is written -/

/-- Spaces and tabs. -/
structure Gap where
  text : List Char
  only : ∀ c ∈ text, c = ' ' ∨ c = '\t'

/-- A variable that can stand on a line. -/
structure Entry where
  key : String
  value : String
  key_ne : key ≠ ""
  key_plain : ∀ c ∈ key.toList, c ≠ '=' ∧ isBlank c = false
  key_first : key.toList.head? ≠ some '#'
  value_line : '\n' ∉ value.toList

/-- The quotes around a value. -/
inductive Quote where
  | single
  | double

def Quote.mark : Quote → Char
  | .single => '\x27'
  | .double => '"'

/-- A value between quotes. -/
def Quote.wrap (quote : Quote) (value : List Char) : List Char :=
  quote.mark :: (value ++ [quote.mark])

/-- How a variable stands on its line. -/
structure Layout where
  indent : Gap
  /-- The gap between `export ` and the key, if the line is written with an `export `. -/
  exported : Option Gap
  /-- The gap between the equals sign and the quoted value. -/
  gap : Gap
  quote : Quote
  trail : Gap

/-- What stands before the key. -/
def Layout.lead (layout : Layout) : List Char :=
  layout.exported.elim [] fun gap => "export ".toList ++ gap.text

/-- A variable on its line, without the gaps at the two ends. -/
def Layout.core (layout : Layout) (entry : Entry) : List Char :=
  layout.lead ++ entry.key.toList ++
    ('=' :: layout.gap.text ++ layout.quote.wrap entry.value.toList)

/-- A line of an environment file. -/
inductive Line where
  | blank (text : List Char) (h : Blank text) (hline : '\n' ∉ text)
  | comment (text : List Char) (h : Comment text) (hline : '\n' ∉ text)
  | assigns (entry : Entry) (layout : Layout)

def Line.text : Line → List Char
  | .blank text _ _ => text
  | .comment text _ _ => text
  | .assigns entry layout => layout.indent.text ++ layout.core entry ++ layout.trail.text

/-- The variable that is written on a line. -/
def Line.entry? : Line → Option (String × String)
  | .blank _ _ _ => none
  | .comment _ _ _ => none
  | .assigns entry _ => some (entry.key, entry.value)

/-- The end of a line. -/
inductive Ending where
  | feed
  | returnFeed

def Ending.text : Ending → List Char
  | .feed => ['\n']
  | .returnFeed => ['\r', '\n']

/-- Lines with their ends, and perhaps a last one without an end. -/
structure Rendering where
  lines : List (Line × Ending)
  last : Option Line

/-- The text of lines with their ends. -/
def written (lines : List (Line × Ending)) : List Char :=
  lines.flatMap fun (line, ending) => line.text ++ ending.text

def Rendering.text (rendering : Rendering) : String :=
  .ofList (written rendering.lines ++ rendering.last.elim [] Line.text)

/-- The variables that are written, in the order of their lines. -/
def Rendering.entries (rendering : Rendering) : List (String × String) :=
  (rendering.lines.map Prod.fst ++ rendering.last.toList).filterMap Line.entry?

/-! ## What a written line says -/

theorem Gap.blank (gap : Gap) : Blank gap.text := by
  intro c hc
  rcases gap.only c hc with rfl | rfl
  · rfl
  · rfl

theorem Gap.not_mem {c : Char} (gap : Gap) (hspace : c ≠ ' ') (htab : c ≠ '\t') : c ∉ gap.text :=
  fun hc => (gap.only c hc).elim hspace htab

theorem Gap.newline_not_mem (gap : Gap) : '\n' ∉ gap.text := gap.not_mem (by decide) (by decide)

namespace Entry

variable (entry : Entry)

theorem trimmed_key : Trimmed entry.key.toList :=
  trimmed_of_plain fun c hc => (entry.key_plain c hc).2

theorem toList_key_ne : entry.key.toList ≠ [] :=
  fun h => entry.key_ne (String.toList_eq_nil_iff.1 h)

theorem not_mem_key : '=' ∉ entry.key.toList := fun h => (entry.key_plain _ h).1 rfl

theorem newline_not_mem_key : '\n' ∉ entry.key.toList :=
  fun h => absurd (entry.key_plain _ h).2 (by decide)

/-- A key is not taken for an `export `, since it has no blanks. -/
theorem not_starts_export (behind : List Char) :
    ¬ "export ".toList <+: entry.key.toList ++ '=' :: behind := by
  intro hexport
  have hkey : entry.key.toList ++ ['='] <+: entry.key.toList ++ '=' :: behind :=
    ⟨behind, by simp⟩
  rcases List.prefix_or_prefix_of_prefix hexport hkey with h | h
  · have hspace : ' ' ∈ entry.key.toList ++ ['='] := h.subset (by decide)
    rcases List.mem_append.1 hspace with hm | hm
    · exact absurd (entry.key_plain _ hm).2 (by decide)
    · exact absurd (List.mem_singleton.1 hm) (by decide)
  · have hequals : '=' ∈ "export ".toList := h.subset (by simp)
    exact absurd hequals (by decide)

end Entry

theorem Quote.not_blank (quote : Quote) : isBlank quote.mark = false := by
  cases quote <;> rfl

theorem Quote.trimmed_wrap (quote : Quote) (value : List Char) : Trimmed (quote.wrap value) where
  first c hc := Option.some.inj hc ▸ quote.not_blank
  last c hc := by
    rw [wrap, ← List.cons_append, List.getLast?_concat] at hc
    exact Option.some.inj hc ▸ quote.not_blank

theorem unquoteBy?_wrap (quote : Quote) (value : List Char) :
    unquoteBy? quote.mark (quote.wrap value) = some value := by
  rw [Quote.wrap, unquoteBy?, List.getLast?_concat, List.dropLast_concat, if_pos ⟨rfl, rfl⟩]

/-- **Quotes keep a value together.** -/
theorem unquote_wrap (quote : Quote) (value : List Char) : unquote (quote.wrap value) = value := by
  have hread := unquoteBy?_wrap quote value
  cases quote with
  | double =>
      rw [Quote.mark] at hread
      rw [unquote, hread]
  | single =>
      have hother : unquoteBy? '"' (Quote.single.wrap value) = none := by
        rw [Quote.wrap, unquoteBy?, if_neg]
        exact fun h => absurd h.1 (by decide)
      rw [Quote.mark] at hread
      rw [unquote, hother, hread]
      rfl

namespace Layout

variable (layout : Layout) (entry : Entry)

theorem trimmed_lead_key : Trimmed (layout.lead ++ entry.key.toList) := by
  rw [lead]
  cases layout.exported with
  | none => exact entry.trimmed_key
  | some gap =>
      have hexport : Trimmed "export".toList := trimmed_of_plain (by simp [isBlank])
      have h := hexport.append entry.trimmed_key (by decide) entry.toList_key_ne (' ' :: gap.text)
      simpa using h

theorem trimmed_core : Trimmed (layout.core entry) := by
  have hkey : layout.lead ++ entry.key.toList ≠ [] := fun h =>
    entry.toList_key_ne (List.append_eq_nil_iff.1 h).2
  exact (layout.trimmed_lead_key entry).append (layout.quote.trimmed_wrap _) hkey
    (List.cons_ne_nil _ _) _

theorem newline_not_mem_lead : '\n' ∉ layout.lead := by
  rw [lead]
  cases layout.exported with
  | none => exact List.not_mem_nil
  | some gap =>
      show '\n' ∉ "export ".toList ++ gap.text
      rw [List.mem_append, not_or]
      exact ⟨by decide, gap.newline_not_mem⟩

theorem head?_core : (layout.core entry).head? ≠ some '#' := by
  obtain ⟨k, ks, hkey⟩ := List.exists_cons_of_ne_nil entry.toList_key_ne
  have hfirst := entry.key_first
  rw [hkey] at hfirst
  rw [core, lead, hkey]
  cases layout.exported with
  | none => exact hfirst
  | some gap => exact fun h => absurd (Option.some.inj h) (by decide)

/-- The gap behind `export ` counts for the key. -/
def keyText : List Char := layout.exported.elim [] Gap.text ++ entry.key.toList

theorem trim_keyText : trim (layout.keyText entry) = entry.key.toList := by
  rw [keyText]
  cases layout.exported with
  | none => exact trim_of_trimmed entry.trimmed_key
  | some gap => exact (trim_append_left gap.blank).trans (trim_of_trimmed entry.trimmed_key)

theorem not_mem_keyText : '=' ∉ layout.keyText entry := by
  rw [keyText, List.mem_append, not_or]
  refine ⟨?_, entry.not_mem_key⟩
  cases layout.exported with
  | none => exact List.not_mem_nil
  | some gap => exact gap.not_mem (by decide) (by decide)

theorem assigns_of_trim {line : List Char} (h : trim line = layout.core entry) :
    Assigns line (layout.keyText entry)
      (layout.gap.text ++ layout.quote.wrap entry.value.toList) where
  remains := by
    rw [Remains, h, core, keyText, lead]
    cases layout.exported with
    | none => exact .inr ⟨entry.not_starts_export _, rfl⟩
    | some gap => exact .inl (by simp)
  first := layout.not_mem_keyText entry
  ne_nil := layout.trim_keyText entry ▸ entry.toList_key_ne
  plain c hc := (entry.key_plain c (layout.trim_keyText entry ▸ hc)).2

theorem trim_gap_wrap (value : List Char) :
    trim (layout.gap.text ++ layout.quote.wrap value) = layout.quote.wrap value := by
  rw [trim_append_left layout.gap.blank, trim_of_trimmed (layout.quote.trimmed_wrap value)]

end Layout

namespace Line

/-- **A line says what is written on it.** -/
theorem meaning (line : Line) : Means line.text line.entry? := by
  cases line with
  | blank text h hline => exact .blank h
  | comment text h hline => exact .comment h
  | assigns entry layout =>
      have htrim : trim (assigns entry layout).text = layout.core entry :=
        trim_of_surrounds (layout.trimmed_core entry)
          ⟨_, _, layout.indent.blank, layout.trail.blank, rfl⟩
      have hcomment : ¬ Comment (assigns entry layout).text := by
        intro hc
        exact layout.head?_core entry (htrim ▸ (head?_trim (by decide)).2 hc)
      have hmeans := Means.assignment hcomment (layout.assigns_of_trim entry htrim)
      rwa [layout.trim_keyText, layout.trim_gap_wrap, unquote_wrap, String.ofList_toList,
        String.ofList_toList] at hmeans

theorem filterMap_entry?_cons (line : Line) (rest : List Line) :
    (line :: rest).filterMap entry? = line.entry?.toList ++ rest.filterMap entry? := by
  rw [List.filterMap_cons]
  cases line.entry? <;> rfl

theorem not_mem_text (line : Line) : '\n' ∉ line.text := by
  cases line with
  | blank text h hline => exact hline
  | comment text h hline => exact hline
  | assigns entry layout =>
      have hmark : '\n' ≠ layout.quote.mark := by
        intro h
        have hblank := layout.quote.not_blank
        rw [← h] at hblank
        exact absurd hblank (by decide)
      have hwrap : '\n' ∉ layout.quote.wrap entry.value.toList := by
        rw [Quote.wrap, List.mem_cons, List.mem_append, List.mem_singleton, not_or, not_or]
        exact ⟨hmark, entry.value_line, hmark⟩
      have hcore : '\n' ∉ layout.core entry := by
        rw [Layout.core, List.mem_append, List.mem_append, List.mem_append, List.mem_cons, not_or, not_or,
          not_or, not_or]
        exact ⟨⟨layout.newline_not_mem_lead, entry.newline_not_mem_key⟩,
          ⟨by decide, layout.gap.newline_not_mem⟩, hwrap⟩
      show '\n' ∉ layout.indent.text ++ layout.core entry ++ layout.trail.text
      rw [List.mem_append, List.mem_append, not_or, not_or]
      exact ⟨⟨layout.indent.newline_not_mem, hcore⟩, layout.trail.newline_not_mem⟩

end Line

/-! ## Reading -/

/-- The end of a line leaves at most a blank on it. -/
theorem exists_lines_ended {line : List Char} (h : '\n' ∉ line) (ending : Ending)
    (rest : List Char) :
    ∃ read, lines (line ++ ending.text ++ rest) = read :: lines rest ∧ trim read = trim line := by
  cases ending with
  | feed =>
      rw [Ending.text, List.append_assoc]
      exact ⟨_, lines_append_newline h rest, trim_dropReturn line⟩
  | returnFeed =>
      have hreturn : '\n' ∉ line ++ ['\r'] := by
        rw [List.mem_append, not_or]
        exact ⟨h, by decide⟩
      have htext : line ++ Ending.returnFeed.text ++ rest = line ++ ['\r'] ++ '\n' :: rest := by
        simp [Ending.text]
      rw [htext]
      exact ⟨_, lines_append_newline hreturn rest, congrArg trim (dropReturn_append_return line)⟩

variable {env : Environment} {number : Nat}

/-- A written line sets its variable. -/
theorem parseLines_line (line : Line) (ending : Ending) (rest : List Char) :
    parseLines env number (lines (line.text ++ ending.text ++ rest))
      = parseLines (env.setAll line.entry?.toList) (number + 1) (lines rest) := by
  obtain ⟨read, hlines, htrim⟩ := exists_lines_ended line.not_mem_text ending rest
  have hread : parseLine read = .ok line.entry? :=
    (parseLine_congr htrim).trans (parseLine_eq_ok_iff.2 line.meaning)
  rw [hlines, parseLines, hread]
  cases line.entry? <;> rfl

/-- Written lines set their variables, one after another. -/
theorem parseLines_written (body : List (Line × Ending)) (rest : List Char) :
    parseLines env number (lines (written body ++ rest))
      = parseLines (env.setAll ((body.map Prod.fst).filterMap Line.entry?)) (number + body.length)
          (lines rest) := by
  induction body generalizing env number with
  | nil => rfl
  | cons head body ih =>
      obtain ⟨line, ending⟩ := head
      have htext : written ((line, ending) :: body) ++ rest
          = line.text ++ ending.text ++ (written body ++ rest) := List.append_assoc _ _ _
      rw [htext, parseLines_line, ih, List.map_cons, Line.filterMap_entry?_cons,
        Environment.setAll_append, List.length_cons, Nat.add_comm body.length, Nat.add_assoc]

/-- A last line needs no end. -/
theorem parseLines_last (last : Option Line) :
    parseLines env number (lines (last.elim [] Line.text))
      = .ok (env.setAll (last.toList.filterMap Line.entry?)) := by
  cases last with
  | none => rfl
  | some line =>
      rw [Option.elim_some, Option.toList_some, Line.filterMap_entry?_cons, List.filterMap_nil,
        List.append_nil, ← parseLines_lines_append_newline, ← List.append_nil (line.text ++ ['\n'])]
      exact parseLines_line line .feed []

/-- **Reading undoes rendering.** However the variables of a file are laid out, with whatever blank lines
and comments between them and whatever ends their lines have, reading gives the environment in which they
are set one after another, so that the last value of each key stays. -/
theorem parse_rendering (rendering : Rendering) :
    parse rendering.text = .ok (.ofList rendering.entries) ∧
      ∀ key, (Environment.ofList rendering.entries).get? key
        = Environment.lastValue key rendering.entries := by
  constructor
  · rw [parse, Rendering.text, String.toList_ofList, parseLines_written, parseLines_last,
      Rendering.entries, List.filterMap_append, Environment.ofList, Environment.setAll_append]
  · intro key
    rw [Environment.ofList, Environment.get?_setAll, Environment.get?_empty, Option.or_none]

/-! ### An awkward file -/

/-- Between a comment and a blank line stands a key that looks like an `export `, with a value that holds
both quotes and ends in blanks; the last line sets the key again and has no end. -/
def awkward : Rendering where
  lines := [
    (.comment " # not=read".toList ⟨[' '], " not=read".toList, by decide, by decide⟩ (by decide),
      .returnFeed),
    (.assigns
      { key := "export", value := "\"\x27 \r", key_ne := by decide, key_plain := by simp [isBlank],
        key_first := by decide, value_line := by decide }
      { indent := ⟨['\t'], by simp⟩, exported := some ⟨[' '], by simp⟩, gap := ⟨[' '], by simp⟩,
        quote := .single, trail := ⟨[' '], by simp⟩ },
      .feed),
    (.blank ['\t'] (by decide) (by decide), .feed)]
  last := some (.assigns
    { key := "export", value := "=#", key_ne := by decide, key_plain := by simp [isBlank],
      key_first := by decide, value_line := by decide }
    { indent := ⟨[], by simp⟩, exported := none, gap := ⟨[], by simp⟩, quote := .double,
      trail := ⟨[], by simp⟩ })

theorem parse_rendering_awkward :
    awkward.text = " # not=read\r\n\texport  export= \x27\"\x27 \r\x27 \n\t\nexport=\"=#\"" ∧
      parse awkward.text = .ok (.ofList [("export", "\"\x27 \r"), ("export", "=#")]) ∧
      (Environment.ofList awkward.entries).get? "export" = some "=#" := by
  refine ⟨by decide, (parse_rendering awkward).1, ?_⟩
  rw [(parse_rendering awkward).2]
  rfl

end Bringup.EnvFile
