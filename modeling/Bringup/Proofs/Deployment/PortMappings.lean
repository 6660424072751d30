import Bringup.PortMapping
import Bringup.Proofs.Text.Trimming

/-!
# How port mappings are written

A number of a port is written as a `Numeral`: decimal digits, as many as one likes, after at most one plus
sign and between blanks. A text is a mapping if it is one numeral, or two with a colon between them
(`Denotes`), and the reader is the function of that relation:

    ofText?_eq_some_iff : ofText? text = some mapping ↔ Denotes text.toList mapping.

While digits are read a number that no longer fits 16 bits is given up at once; since a number only grows
with each digit (`le_ofDigitChars`), this gives up just the numbers that do not fit at the end. What
`display` writes is the one form of a mapping without blanks, plus signs and leading zeros.
-/

namespace Bringup.PortMapping

open Text

variable {text digits : List Char} {c : Char} {n : Nat} {port : UInt16} {mapping : PortMapping}

/-! ### The grammar -/

/-- A text that stands for a number from 1 to 65535. -/
def Numeral (text : List Char) (n : Nat) : Prop :=
  ∃ sign digits, Surrounds (sign ++ digits) text ∧ (sign = [] ∨ sign = ['+']) ∧ digits ≠ [] ∧
    (∀ c ∈ digits, c.isDigit = true) ∧ Nat.ofDigitChars 10 digits 0 = n ∧ 1 ≤ n ∧ n ≤ 65535

/-- A text that stands for a mapping. -/
inductive Denotes : List Char → PortMapping → Prop where
  | single {text : List Char} {port : UInt16} (hcolon : ':' ∉ text) (h : Numeral text port.toNat) :
    Denotes text ⟨port, port⟩
  | pair {before after : List Char} {host container : UInt16} (hcolon : ':' ∉ before)
    (hhost : Numeral before host.toNat) (hcontainer : Numeral after container.toNat) :
    Denotes (before ++ ':' :: after) ⟨host, container⟩

/-! ### Digits -/

/-- A number only grows with its digits. -/
theorem le_ofDigitChars (digits : List Char) (n : Nat) : n ≤ Nat.ofDigitChars 10 digits n := by
  induction digits generalizing n with
  | nil => exact Nat.le_refl n
  | cons c rest ih =>
      rw [Nat.ofDigitChars_cons]
      exact Nat.le_trans (by omega) (ih _)

theorem pushDigit_eq_some_iff {next : Nat} :
    pushDigit n c = some next ↔
      c.isDigit = true ∧ next < UInt16.size ∧ 10 * n + (c.toNat - '0'.toNat) = next := by
  rw [pushDigit, Nat.mul_comm n 10]
  dsimp only
  split
  next hc =>
    split
    next hfits =>
      rw [Option.some.injEq]
      constructor
      · rintro rfl
        exact ⟨hc, hfits, rfl⟩
      · exact fun h => h.2.2
    next hlong =>
      refine iff_of_false (Option.some_ne_none next).symm ?_
      rintro ⟨-, hfits, rfl⟩
      exact hlong hfits
  next hc => exact iff_of_false (Option.some_ne_none next).symm fun h => hc h.1

/-- **Reading digits** gives up just the numbers that do not fit 16 bits. -/
theorem foldlM_pushDigit_eq_some_iff {init : Nat} (hinit : init < UInt16.size) :
    digits.foldlM pushDigit init = some n ↔
      (∀ c ∈ digits, c.isDigit = true) ∧ n < UInt16.size ∧ Nat.ofDigitChars 10 digits init = n := by
  induction digits generalizing init with
  | nil =>
      simp only [List.foldlM_nil, List.not_mem_nil, false_implies, implies_true, true_and,
        Nat.ofDigitChars_nil]
      constructor
      · intro h
        obtain rfl := Option.some.inj h
        exact ⟨hinit, rfl⟩
      · rintro ⟨-, rfl⟩
        rfl
  | cons c rest ih =>
      rw [List.foldlM_cons, List.forall_mem_cons, Nat.ofDigitChars_cons, Option.bind_eq_bind,
        Option.bind_eq_some_iff]
      constructor
      · rintro ⟨next, hnext, hrest⟩
        obtain ⟨hc, hfits, rfl⟩ := pushDigit_eq_some_iff.1 hnext
        obtain ⟨hdigits, hn⟩ := (ih hfits).1 hrest
        exact ⟨⟨hc, hdigits⟩, hn⟩
      · rintro ⟨⟨hc, hdigits⟩, hn, hvalue⟩
        have hfits : 10 * init + (c.toNat - '0'.toNat) < UInt16.size :=
          Nat.lt_of_le_of_lt (le_ofDigitChars rest _) (hvalue ▸ hn)
        exact ⟨_, pushDigit_eq_some_iff.2 ⟨hc, hfits, rfl⟩, (ih hfits).2 ⟨hdigits, hn, hvalue⟩⟩

theorem digits?_eq_some_iff :
    digits? digits = some n ↔
      digits ≠ [] ∧ (∀ c ∈ digits, c.isDigit = true) ∧ n < UInt16.size ∧
        Nat.ofDigitChars 10 digits 0 = n := by
  cases digits with
  | nil => exact iff_of_false (by simp [digits?]) fun h => h.1 rfl
  | cons c rest =>
      rw [digits?, foldlM_pushDigit_eq_some_iff (by decide)]
      simp only [ne_eq, List.cons_ne_nil, not_false_eq_true, true_and]

/-! ### Numerals -/

theorem not_blank_of_isDigit (h : c.isDigit = true) : isBlank c = false := by
  have hrange := Char.isDigit_iff_toNat.1 h
  have hzero : '0'.toNat = 48 := rfl
  have hnine : '9'.toNat = 57 := rfl
  simp only [isBlank, Bool.or_eq_false_iff, Bool.and_eq_false_iff, decide_eq_false_iff_not,
    beq_eq_false_iff_ne]
  omega

/-- The digits of a number, behind a plus sign if there is one. -/
def unsigned (text : List Char) : List Char := (dropLead? ['+'] text).getD text

/-- Digits stand behind at most one plus sign. -/
theorem unsigned_eq_iff (hdigits : ∀ c ∈ digits, c.isDigit = true) :
    unsigned text = digits ↔ ∃ sign, (sign = [] ∨ sign = ['+']) ∧ text = sign ++ digits := by
  rw [unsigned]
  constructor
  · rintro rfl
    cases hlead : dropLead? ['+'] text with
    | none => exact ⟨[], .inl rfl, rfl⟩
    | some rest => exact ⟨['+'], .inr rfl, dropLead?_eq_some.1 hlead⟩
  · rintro ⟨sign, hsign, rfl⟩
    rcases hsign with rfl | rfl
    · rw [List.nil_append]
      cases hlead : dropLead? ['+'] digits with
      | none => rfl
      | some rest =>
          have hplus : '+' ∈ digits := dropLead?_eq_some.1 hlead ▸ List.mem_cons_self
          exact absurd (hdigits _ hplus) (by decide)
    · rw [dropLead?_eq_some.2 rfl, Option.getD_some]

theorem port?_eq_some_iff_unsigned :
    port? text = some port ↔ digits? (unsigned (trim text)) = some port.toNat ∧ port ≠ 0 := by
  dsimp only [port?, unsigned]
  cases hdigits : digits? ((dropLead? ['+'] (trim text)).getD (trim text)) with
  | none => simp
  | some n =>
      have hfits := (digits?_eq_some_iff.1 hdigits).2.2.1
      have hport : n.toUInt16 = port ↔ n = port.toNat := by
        rw [← UInt16.toNat_inj, Nat.toUInt16_eq, UInt16.toNat_ofNat', Nat.mod_eq_of_lt hfits]
      have hzero : port.toNat = 0 ↔ port = 0 := UInt16.toNat_inj (b := 0)
      show (if n = 0 then none else some n.toUInt16) = some port ↔ _
      split
      next h =>
        refine iff_of_false (Option.some_ne_none port).symm ?_
        rintro ⟨hn, hne⟩
        exact hne (hzero.1 ((Option.some.inj hn).symm.trans h))
      next h =>
        rw [Option.some.injEq, Option.some.injEq, hport]
        constructor
        · rintro rfl
          exact ⟨rfl, mt hzero.2 h⟩
        · exact fun hn => hn.1

/-- **A port is what a numeral stands for.** -/
theorem port?_eq_some_iff : port? text = some port ↔ Numeral text port.toNat := by
  have hsize : UInt16.size = 65536 := rfl
  rw [port?_eq_some_iff_unsigned, digits?_eq_some_iff]
  constructor
  · rintro ⟨⟨hne, hdigits, hfits, hvalue⟩, hport⟩
    obtain ⟨sign, hsign, htrim⟩ := (unsigned_eq_iff hdigits).1 rfl
    have hpos : port.toNat ≠ 0 := fun h => hport (UInt16.toNat_inj.1 h)
    exact ⟨sign, _, htrim ▸ surrounds_trim text, hsign, hne, hdigits, hvalue, by omega, by omega⟩
  · rintro ⟨sign, digits, hsurrounds, hsign, hne, hdigits, hvalue, hpos, hmax⟩
    have hplain : ∀ c ∈ sign ++ digits, isBlank c = false := by
      intro c hc
      rcases List.mem_append.1 hc with hc | hc
      · rcases hsign with rfl | rfl
        · exact absurd hc List.not_mem_nil
        · exact List.mem_singleton.1 hc ▸ rfl
      · exact not_blank_of_isDigit (hdigits c hc)
    have htrim := trim_of_surrounds (trimmed_of_plain hplain) hsurrounds
    have hunsigned : unsigned (trim text) = digits := (unsigned_eq_iff hdigits).2 ⟨sign, hsign, htrim⟩
    rw [hunsigned]
    refine ⟨⟨hne, hdigits, by omega, hvalue⟩, ?_⟩
    rintro rfl
    exact absurd hpos (by decide)

/-! ### Mappings -/

/-- **A mapping is what its text stands for.** -/
theorem ofText?_eq_some_iff {text : String} :
    ofText? text = some mapping ↔ Denotes text.toList mapping := by
  rw [ofText?]
  cases hsplit : splitAt? ':' text.toList with
  | none =>
      have hcolon := splitAt?_eq_none.1 hsplit
      show (port? text.toList).map (fun port => PortMapping.mk port port) = some mapping ↔ _
      rw [Option.map_eq_some_iff]
      constructor
      · rintro ⟨port, hport, rfl⟩
        exact .single hcolon (port?_eq_some_iff.1 hport)
      · intro h
        generalize htext : text.toList = chars at h hcolon
        cases h with
        | single _ h => exact ⟨_, port?_eq_some_iff.2 h, rfl⟩
        | pair => exact absurd (by simp) hcolon
  | some parts =>
      obtain ⟨before, after⟩ := parts
      obtain ⟨htext, hcolon⟩ := splitAt?_eq_some hsplit
      rw [htext]
      show ((port? before).bind fun host => (port? after).bind fun container =>
        some (PortMapping.mk host container)) = some mapping ↔ _
      simp only [Option.bind_eq_some_iff, Option.some.injEq]
      constructor
      · rintro ⟨host, hhost, container, hcontainer, rfl⟩
        exact .pair hcolon (port?_eq_some_iff.1 hhost) (port?_eq_some_iff.1 hcontainer)
      · intro h
        generalize hchars : before ++ ':' :: after = chars at h
        cases h with
        | single hnone _ => exact absurd (hchars ▸ by simp) hnone
        | @pair before' after' host container hcolon' hhost hcontainer =>
            -- The first colon stands at one place only.
            have hsame := congrArg (splitAt? ':') hchars
            rw [splitAt?_append _ hcolon, splitAt?_append _ hcolon'] at hsame
            obtain ⟨rfl, rfl⟩ := Prod.mk.inj (Option.some.inj hsame)
            exact ⟨_, port?_eq_some_iff.2 hhost, _, port?_eq_some_iff.2 hcontainer, rfl⟩

theorem parse_eq_ok_iff {text : String} : parse text = .ok mapping ↔ Denotes text.toList mapping := by
  rw [← ofText?_eq_some_iff, parse]
  cases ofText? text with
  | none => simp
  | some found => simp

theorem parse_eq_error_iff {text : String} {error : TopologyError} :
    parse text = .error error ↔
      (¬ ∃ mapping, Denotes text.toList mapping) ∧ error = .invalidPort text := by
  simp only [← ofText?_eq_some_iff, parse]
  cases ofText? text with
  | none => simp [eq_comm]
  | some found => simp

theorem Denotes.ports (h : Denotes text mapping) : mapping.host ≠ 0 ∧ mapping.container ≠ 0 := by
  have hport {text : List Char} {port : UInt16} (h : Numeral text port.toNat) : port ≠ 0 :=
    (port?_eq_some_iff_unsigned.1 (port?_eq_some_iff.2 h)).2
  cases h with
  | single _ h => exact ⟨hport h, hport h⟩
  | pair _ hhost hcontainer => exact ⟨hport hhost, hport hcontainer⟩

/-! ### The normal form -/

theorem numeral_toDigits (h : port ≠ 0) : Numeral (Nat.toDigits 10 port.toNat) port.toNat := by
  have hpos : port.toNat ≠ 0 := fun he => h (UInt16.toNat_inj.1 he)
  have hlt : port.toNat < 65536 := port.toNat_lt
  exact ⟨[], _, ⟨[], [], blank_nil, blank_nil, by simp⟩, .inl rfl, Nat.toDigits_ne_nil,
    fun c hc => Nat.isDigit_of_mem_toDigits (by decide) (by decide) hc,
    Nat.ofDigitChars_ten_toDigits, by omega, by omega⟩

theorem toList_display (mapping : PortMapping) :
    mapping.display.toList
      = Nat.toDigits 10 mapping.host.toNat ++ ':' :: Nat.toDigits 10 mapping.container.toNat := by
  simp [display, toString]

/-- **What is shown is read back.** -/
theorem parse_display (hhost : mapping.host ≠ 0) (hcontainer : mapping.container ≠ 0) :
    parse mapping.display = .ok mapping := by
  rw [parse_eq_ok_iff, toList_display]
  refine .pair (fun hc => ?_) (numeral_toDigits hhost) (numeral_toDigits hcontainer)
  exact absurd (Nat.isDigit_of_mem_toDigits (by decide) (by decide) hc) (by decide)

/-- **A text is read just if it is one numeral or two with a colon between them**, and then as their
numbers; any other text is reported as it stands. What is shown of a mapping without a port zero is read
back, so reading what is shown of what was read gives the same again. -/
theorem parse_denotes (text : String) :
    (∀ mapping, parse text = .ok mapping ↔ Denotes text.toList mapping) ∧
    (∀ error, parse text = .error error ↔
      (¬ ∃ mapping, Denotes text.toList mapping) ∧ error = .invalidPort text) ∧
    (∀ mapping : PortMapping, mapping.host ≠ 0 → mapping.container ≠ 0 →
      parse mapping.display = .ok mapping) ∧
    ((parse text).bind fun mapping => parse mapping.display) = parse text := by
  refine ⟨fun mapping => parse_eq_ok_iff, fun error => parse_eq_error_iff,
    fun mapping => parse_display, ?_⟩
  cases hparse : parse text with
  | error error => rfl
  | ok mapping =>
      obtain ⟨hhost, hcontainer⟩ := (parse_eq_ok_iff.1 hparse).ports
      exact parse_display hhost hcontainer

/-- Blanks, a plus sign and leading zeros are read and not shown. -/
theorem parse_denotes_padded :
    Denotes " +0080\t:443 ".toList ⟨80, 443⟩ ∧ parse " +0080\t:443 " = .ok ⟨80, 443⟩ ∧
      (80 : UInt16) ≠ 0 ∧ (443 : UInt16) ≠ 0 ∧ parse (display ⟨80, 443⟩) = .ok ⟨80, 443⟩ := by
  have hhost : Numeral " +0080\t".toList 80 :=
    ⟨['+'], "0080".toList, ⟨[' '], ['\t'], by decide, by decide, by decide⟩, .inr rfl, by decide, by simp,
      by decide, by decide, by decide⟩
  have hcontainer : Numeral "443 ".toList 443 :=
    ⟨[], "443".toList, ⟨[], [' '], by decide, by decide, by decide⟩, .inl rfl, by decide, by simp,
      by decide, by decide, by decide⟩
  have h : Denotes " +0080\t:443 ".toList ⟨80, 443⟩ :=
    .pair (show ':' ∉ " +0080\t".toList by decide) hhost hcontainer
  obtain ⟨hread, -, hshown, -⟩ := parse_denotes " +0080\t:443 "
  exact ⟨h, (hread _).2 h, by decide, by decide, hshown _ (by decide) (by decide)⟩

end Bringup.PortMapping
