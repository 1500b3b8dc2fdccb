import Mathlib.Data.Nat.Digits.Defs
import StardustOS.Libc.Strings

/-!
# Numbers as text

`convert` writes the digits of a number from the end of a buffer of its own
towards the start.  `numeral` is the positional notation it is compared with: the
digits of a number in a base, the most significant first, and a zero for zero.
-/

namespace StardustOS.Libc

/-- A character of the source as a byte. -/
def ascii (c : Char) : UInt8 := UInt8.ofNat c.toNat

/-- A text of the source as bytes. -/
def asciiText (cs : List Char) : List UInt8 := cs.map ascii

/-! ## Positional notation -/

/-- The digits of a number, the most significant first. -/
def numeral (base n : Nat) : List Nat := if n = 0 then [0] else (base.digits n).reverse

theorem numeral_of_lt {base n : Nat} (hn : n < base) : numeral base n = [n] := by
  rw [numeral]
  split
  · subst n
    rfl
  · rw [Nat.digits_of_lt base n ‹_› hn]
    rfl

theorem numeral_of_div {base n : Nat} (hb : 1 < base) (hn : n / base ≠ 0) :
    numeral base n = numeral base (n / base) ++ [n % base] := by
  have h0 : n ≠ 0 := by
    rintro rfl
    exact hn (Nat.zero_div base)
  rw [numeral, if_neg h0, numeral, if_neg hn, Nat.digits_eq_cons_digits_div hb h0,
    List.reverse_cons]

theorem numeral_lt {base n d : Nat} (hb : 1 < base) (h : d ∈ numeral base n) : d < base := by
  rw [numeral] at h
  split at h
  · have := List.mem_singleton.mp h
    omega
  · exact Nat.digits_lt_base hb (List.mem_reverse.mp h)

/-- What is left after a digit has one digit less. -/
theorem div_lt_pow {base turns n : Nat} (hn : n < base ^ (turns + 1)) :
    n / base < base ^ turns := by
  rw [Nat.pow_succ'] at hn
  exact Nat.div_lt_of_lt_mul hn

/-- As long as digits are left there are turns for them. -/
theorem turns_pos {base turns n : Nat} (hn : n < base ^ (turns + 1)) (hdiv : n / base ≠ 0) :
    0 < turns := by
  cases turns with
  | zero => exact absurd (Nat.lt_one_iff.mp (div_lt_pow hn)) hdiv
  | succ turns => exact Nat.succ_pos turns

/-- A digit as it is printed, in lower case beyond nine. -/
def digit (d : Nat) : UInt8 := UInt8.ofNat (if d < 10 then 48 + d else 87 + d)

/-- A number printed in a base. -/
def unsignedText (base n : Nat) : List UInt8 := (numeral base n).map digit

/-- A number printed with its sign. -/
def signedText (i : Int) : List UInt8 :=
  if i < 0 then ascii '-' :: unsignedText 10 i.natAbs else unsignedText 10 i.natAbs

/-! ## `convert` -/

/-- `rep`. -/
def rep : List UInt8 := asciiText "0123456789ABCDEF".toList

/-- The loop of `convert`, with the slots of the buffer that are left before `ptr`
and the text from `ptr` on.  It is undefined when it would leave the buffer. -/
def convertLoop : Nat → Nat → Nat → List UInt8 → Option (List UInt8)
  | 0, _, _, _ => none
  | slots + 1, num, base, text =>
      let text := rep.getD (num % base) 0 :: text
      let num := num / base
      if num ≠ 0 then convertLoop slots num base text else some text

/-- `convert`: the text at the pointer it returns. -/
def convert (num : UInt32) (base : Nat) : Option (List UInt8) := convertLoop 49 num.toNat base []

theorem convertLoop_eq {base : Nat} (hb : 1 < base) {slots num : Nat} {text : List UInt8}
    (hslots : 0 < slots) (hnum : num < base ^ slots) :
    convertLoop slots num base text =
      some ((numeral base num).map (rep.getD · 0) ++ text) := by
  induction slots generalizing num text with
  | zero => exact absurd hslots (Nat.lt_irrefl 0)
  | succ slots ih =>
      rw [convertLoop]
      by_cases hdiv : num / base = 0
      · have hlt : num < base := (Nat.div_eq_zero_iff_lt (Nat.zero_lt_of_lt hb)).mp hdiv
        simp [hdiv, numeral_of_lt hlt, Nat.mod_eq_of_lt hlt]
      · simp [hdiv, ih (turns_pos hnum hdiv) (div_lt_pow hnum), numeral_of_div hb hdiv]

/-- A digit below ten is printed alike in either case. -/
theorem map_rep_eq {base n : Nat} (hb : 1 < base) (hten : base ≤ 10) :
    (numeral base n).map (rep.getD · 0) = unsignedText base n := by
  have hdigit : ∀ d < 10, rep.getD d 0 = digit d := by decide
  exact List.map_congr_left fun d hd => hdigit d ((numeral_lt hb hd).trans_le hten)

/-- In base ten `convert` gives the decimal notation. -/
theorem convert_ten (num : UInt32) : convert num 10 = some (unsignedText 10 num.toNat) := by
  have hnum : num.toNat < 10 ^ 49 := num.toNat_lt.trans (by norm_num)
  rw [convert, convertLoop_eq (by omega) (by omega) hnum, map_rep_eq (by omega) le_rfl,
    List.append_nil]

/-! ## `itoa` -/

/-- The first loop of `itoa`: the digits, the last one first.  A number of 32 bits has no
more than 32. -/
def itoaLoop (divisor : Nat) : Nat → Nat → List UInt8
  | 0, _ => []
  | turns + 1, ud =>
      digit (ud % divisor) ::
        if ud / divisor ≠ 0 then itoaLoop divisor turns (ud / divisor) else []

/-- `itoa`: the text that it stores before the NUL, and its result, which counts the sign
and the swaps that put the digits in order. -/
def itoa (base : Int) (d : Int32) : List UInt8 × Nat :=
  let minus := base = 'd'.toNat ∧ d < 0
  let ud := if minus then (-d).toUInt32 else d.toUInt32
  let divisor := if ¬ minus ∧ base = 'x'.toNat then 16 else 10
  let digits := itoaLoop divisor 32 ud.toNat
  if minus then (ascii '-' :: digits.reverse, 1 + digits.length / 2)
  else (digits.reverse, digits.length / 2)

theorem itoaLoop_reverse {divisor : Nat} (hd : 1 < divisor) {turns ud : Nat} (hturns : 0 < turns)
    (hud : ud < divisor ^ turns) :
    (itoaLoop divisor turns ud).reverse = unsignedText divisor ud := by
  induction turns generalizing ud with
  | zero => exact absurd hturns (Nat.lt_irrefl 0)
  | succ turns ih =>
      rw [itoaLoop, List.reverse_cons, unsignedText]
      by_cases hdiv : ud / divisor = 0
      · have hlt : ud < divisor := (Nat.div_eq_zero_iff_lt (Nat.zero_lt_of_lt hd)).mp hdiv
        simp [hdiv, numeral_of_lt hlt, Nat.mod_eq_of_lt hlt]
      · have hrest := ih (turns_pos hud hdiv) (div_lt_pow hud)
        rw [if_pos hdiv, hrest, numeral_of_div hd hdiv, List.map_append, unsignedText]
        rfl

/-- In base 10, which is neither `d` nor `x`, the decimal notation is stored. -/
theorem itoa_ten (d : Int32) : (itoa 10 d).1 = unsignedText 10 d.toUInt32.toNat := by
  have hbound : d.toUInt32.toNat < 10 ^ 32 := d.toUInt32.toNat_lt.trans (by norm_num)
  have hminus : ¬ ((10 : Int) = 'd'.toNat ∧ d < 0) := fun h => absurd h.1 (by decide)
  have hx : ¬ (10 : Int) = 'x'.toNat := by decide
  simp only [itoa, hminus, hx, and_false, if_false]
  exact itoaLoop_reverse (by omega) (by omega) hbound

end StardustOS.Libc
