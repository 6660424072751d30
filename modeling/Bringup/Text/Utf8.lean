/-!
# UTF-8

A text from its bytes. `next?` reads one piece off the front: a character, or a maximal part that
begins no character. The strict reading takes characters only; the lenient one puts one replacement
character in the place of each part that is none.
-/

namespace Bringup.Text.Utf8

/-- The bytes that may follow a first byte, as the least and the greatest of each, or nothing where
no character of several bytes starts with it. -/
def tails? (lead : UInt8) : Option (List (UInt8 × UInt8)) :=
  let tail : UInt8 × UInt8 := (0x80, 0xBF)
  if 0xC2 ≤ lead ∧ lead ≤ 0xDF then some [tail]
  else if lead = 0xE0 then some [(0xA0, 0xBF), tail]
  else if lead = 0xED then some [(0x80, 0x9F), tail]
  else if 0xE1 ≤ lead ∧ lead ≤ 0xEF then some [tail, tail]
  else if lead = 0xF0 then some [(0x90, 0xBF), tail, tail]
  else if lead = 0xF4 then some [(0x80, 0x8F), tail, tail]
  else if 0xF1 ≤ lead ∧ lead ≤ 0xF3 then some [tail, tail, tail]
  else none

/-- The bits of a first byte that belong to the character. -/
def leadBits (lead : UInt8) : Nat :=
  if lead < 0xE0 then lead.toNat - 0xC0
  else if lead < 0xF0 then lead.toNat - 0xE0
  else lead.toNat - 0xF0

/-- Reads the bytes that may follow, as far as they are there: the number they add to, if all are,
and the bytes behind them. -/
def takeTails (value : Nat) : List (UInt8 × UInt8) → List UInt8 → Option Nat × List UInt8
  | [], bytes => (some value, bytes)
  | _ :: _, [] => (none, [])
  | (least, greatest) :: tails, byte :: bytes =>
    if least ≤ byte ∧ byte ≤ greatest then
      takeTails (value * 64 + (byte.toNat - 0x80)) tails bytes
    else (none, byte :: bytes)

/-- The first character, or nothing in its place where the first bytes are the start of none, and
the bytes behind. -/
def next (lead : UInt8) (bytes : List UInt8) : Option Char × List UInt8 :=
  if lead < 0x80 then (some (Char.ofNat lead.toNat), bytes)
  else
    match tails? lead with
    | none => (none, bytes)
    | some tails =>
      let (value, rest) := takeTails (leadBits lead) tails bytes
      (value.map Char.ofNat, rest)

theorem length_takeTails_le (value : Nat) (tails : List (UInt8 × UInt8)) (bytes : List UInt8) :
    (takeTails value tails bytes).2.length ≤ bytes.length := by
  fun_induction takeTails value tails bytes with
  | case1 => exact Nat.le_refl _
  | case2 => exact Nat.le_refl _
  | case3 _ _ _ _ _ _ _ ih => exact Nat.le_succ_of_le ih
  | case4 => exact Nat.le_refl _

theorem length_next_le (lead : UInt8) (bytes : List UInt8) :
    (next lead bytes).2.length ≤ bytes.length := by
  rw [next]
  split
  · simp
  · split
    · simp
    · exact length_takeTails_le ..

/-- The characters, with nothing in the place of each maximal part that begins none. -/
def pieces : List UInt8 → List (Option Char)
  | [] => []
  | lead :: bytes => (next lead bytes).1 :: pieces (next lead bytes).2
termination_by bytes => bytes.length
decreasing_by
  have := length_next_le lead bytes
  simp only [List.length_cons]
  omega

/-- The text that bytes are, or nothing where some of them are part of no character. -/
def decode? (bytes : List UInt8) : Option String :=
  ((pieces bytes).mapM id).map String.ofList

/-- The text that bytes are, with U+FFFD in the place of each part that is no character. -/
def decodeLossy (bytes : List UInt8) : String :=
  String.ofList ((pieces bytes).map fun piece => piece.getD '\uFFFD')

end Bringup.Text.Utf8
