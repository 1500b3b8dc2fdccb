import Mathlib.Data.List.Induction
import Mathlib.Data.Nat.Digits.Lemmas
import StardustOS.Libc.Vsnprintf

/-!
# Numbers that survive printing

Three functions print numbers: `convert` from the end of its buffer, `ultoa` from the end
of a text whose length it counts first, and `itoa` forwards, with the digits put in order
afterwards.  `ultoa` and `itoaIn` are the functions in memory.  They store the text and
its NUL and nothing else (`ultoa_eq`, `itoaIn_eq`), and `itoa` is the text of `itoaIn`.

`parseNumber` and `parseInt` read a text back.
-/

namespace StardustOS.Libc

/-! ## The functions -/

/-- The bases that have digits. -/
def Base := { base : Nat // 2 ≤ base ∧ base ≤ 16 }

/-- The first loop of `ultoa`.  A number of 32 bits has no more than 32 digits. -/
def ultoaCount (base : Nat) : Nat → Nat → Nat → Option Nat
  | 0, _, _ => none
  | turns + 1, tmp, count =>
      if tmp > 0 then ultoaCount base turns (tmp / base) (count + 1) else some count

/-- The second loop of `ultoa`.  From sixteen on there is no digit to store. -/
def ultoaLoop (base : Nat) :
    Nat → Nat → Nat → (Nat → UInt8) → Option (Nat × (Nat → UInt8))
  | 0, _, _, _ => none
  | turns + 1, value, ptr, mem =>
      let t := value / base
      let res := value - base * t
      let (ptr, mem) :=
        if res < 10 then (ptr - 1, setByte mem (ptr - 1) (UInt8.ofNat ('0'.toNat + res)))
        else if res < 16 then
          (ptr - 1, setByte mem (ptr - 1) (UInt8.ofNat ('A'.toNat - 10 + res)))
        else (ptr, mem)
      if t ≠ 0 then ultoaLoop base turns t ptr mem else some (ptr, mem)

/-- `ultoa`, for a pointer that is not NULL: the result and the memory. -/
def ultoa (value : UInt32) (ptr base : Nat) (mem : Nat → UInt8) :
    Option (Nat × (Nat → UInt8)) :=
  (ultoaCount base 33 value.toNat (if value = 0 then 1 else 0)).bind fun count =>
    ultoaLoop base 32 value.toNat (ptr + count) (setByte mem (ptr + count) 0)

/-- The first loop of `itoa`, with the memory. -/
def itoaDigits (divisor : Nat) :
    Nat → Nat → Nat → (Nat → UInt8) → Option (Nat × (Nat → UInt8))
  | 0, _, _, _ => none
  | turns + 1, ud, p, mem =>
      let mem := setByte mem p (digit (ud % divisor))
      if ud / divisor ≠ 0 then itoaDigits divisor turns (ud / divisor) (p + 1) mem
      else some (p + 1, mem)

/-- The second loop of `itoa`: the bytes from `p1` to `p2` change places, and `wrote`
counts them. -/
def itoaSwap : Nat → Nat → Nat → Nat → (Nat → UInt8) → Option (Nat × (Nat → UInt8))
  | 0, _, _, _, _ => none
  | turns + 1, p1, p2, wrote, mem =>
      if p1 < p2 then
        let tmp := mem p1
        let mem := setByte mem p1 (mem p2)
        let mem := setByte mem p2 tmp
        itoaSwap turns (p1 + 1) (p2 - 1) (wrote + 1) mem
      else some (wrote, mem)

/-- `itoa`: its result and the memory. -/
def itoaIn (base : Int) (d : Int32) (buf : Nat) (mem : Nat → UInt8) :
    Option (Nat × (Nat → UInt8)) :=
  let minus := base = 'd'.toNat ∧ d < 0
  let ud := if minus then (-d).toUInt32 else d.toUInt32
  let divisor := if ¬ minus ∧ base = 'x'.toNat then 16 else 10
  let (buf, wrote, mem) :=
    if minus then (buf + 1, 1, setByte mem buf (ascii '-')) else (buf, 0, mem)
  (itoaDigits divisor 32 ud.toNat buf mem).bind fun (p, mem) =>
    itoaSwap 32 buf (p - 1) wrote (setByte mem p 0)

/-! ## Reading back -/

/-- The value of a digit. -/
def digitValue (c : UInt8) : Option Nat :=
  if ascii '0' ≤ c ∧ c ≤ ascii '9' then some (c.toNat - '0'.toNat)
  else if ascii 'A' ≤ c ∧ c ≤ ascii 'F' then some (c.toNat - 'A'.toNat + 10)
  else if ascii 'a' ≤ c ∧ c ≤ ascii 'f' then some (c.toNat - 'a'.toNat + 10)
  else none

/-- Digits below the base behind those of `n`. -/
def parseDigits (base : Nat) : Nat → List UInt8 → Option Nat
  | n, [] => some n
  | n, c :: text =>
      (digitValue c).bind fun d =>
        if d < base then parseDigits base (base * n + d) text else none

/-- The positional value of a text. -/
def parseNumber (base : Nat) (text : List UInt8) : Option Nat :=
  if text = [] then none else parseDigits base 0 text

/-- The value of a decimal text that may begin with a sign. -/
def parseInt : List UInt8 → Option Int
  | [] => none
  | c :: text =>
      if c = ascii '-' then (parseNumber 10 text).map fun (n : Nat) => -(n : Int)
      else (parseNumber 10 (c :: text)).map fun (n : Nat) => (n : Int)

/-! ## Digits -/

section Numerals

variable {base n : Nat}

theorem numeral_ne_nil (base n : Nat) : numeral base n ≠ [] := by
  rw [numeral]
  split
  · exact List.cons_ne_nil _ _
  · rw [ne_eq, List.reverse_eq_nil_iff, Nat.digits_eq_nil_iff_eq_zero]
    assumption

/-- Only zero begins with a zero. -/
theorem head_numeral (h : (numeral base n).head? = some 0) : n = 0 := by
  by_contra hn
  have hne : base.digits n ≠ [] := Nat.digits_ne_nil_iff_ne_zero.mpr hn
  rw [numeral, if_neg hn, List.head?_reverse, List.getLast?_eq_some_getLast hne] at h
  exact Nat.getLast_digit_ne_zero base hn (Option.some.inj h)

theorem parseDigits_snoc (text : List UInt8) (c : UInt8) (n : Nat) :
    parseDigits base n (text ++ [c]) =
      (parseDigits base n text).bind fun m =>
        (digitValue c).bind fun d => if d < base then some (base * m + d) else none := by
  induction text generalizing n with
  | nil => simp [parseDigits]
  | cons b text ih =>
      rw [List.cons_append, parseDigits, parseDigits]
      cases digitValue b with
      | none => rfl
      | some d =>
          simp only [Option.bind_some]
          split
          · exact ih _
          · rfl

variable {sym : Nat → UInt8}

/-- The digits of a number are read back. -/
theorem parseDigits_numeral (hsym : ∀ d < 16, digitValue (sym d) = some d) (hb : 1 < base)
    (hbase : base ≤ 16) (n : Nat) :
    parseDigits base 0 ((numeral base n).map sym) = some n := by
  induction n using Nat.strong_induction_on with
  | _ n ih =>
      by_cases hdiv : n / base = 0
      · have hlt : n < base := (Nat.div_eq_zero_iff_lt (by omega)).mp hdiv
        simp [numeral_of_lt hlt, parseDigits, hsym n (by omega), hlt]
      · have hmod : n % base < base := Nat.mod_lt n (by omega)
        have hlt : n / base < n := Nat.div_lt_self (Nat.pos_of_ne_zero fun h => by
          rw [h, Nat.zero_div] at hdiv
          exact hdiv rfl) hb
        rw [numeral_of_div hb hdiv, List.map_append, List.map_singleton, parseDigits_snoc,
          ih _ hlt, Option.bind_some, hsym _ (by omega), Option.bind_some, if_pos hmod,
          Nat.div_add_mod]

theorem parseNumber_numeral (hsym : ∀ d < 16, digitValue (sym d) = some d) (hb : 1 < base)
    (hbase : base ≤ 16) (n : Nat) :
    parseNumber base ((numeral base n).map sym) = some n := by
  rw [parseNumber, if_neg (by simp [numeral_ne_nil]), parseDigits_numeral hsym hb hbase]

theorem digitValue_rep : ∀ d < 16, digitValue (rep.getD d 0) = some d := by decide

theorem digitValue_digit : ∀ d < 16, digitValue (digit d) = some d := by decide

end Numerals

/-! ## Bytes in memory -/

section Memory

variable {mem : Nat → UInt8} {i : Nat}

/-- A byte in front of a text. -/
theorem setByte_before (s : List UInt8) (c : UInt8) :
    setByte (store mem (i + 1) s) i c = store mem i (c :: s) := by
  funext j
  rw [store, setByte, store_apply, store_apply, setByte]
  by_cases hj : j = i
  · rw [if_pos hj, if_neg (by omega), if_pos hj]
  · rw [if_neg hj, if_neg hj]

/-- A byte behind a text. -/
theorem setByte_behind (s : List UInt8) (c : UInt8) :
    setByte (store mem i s) (i + s.length) c = store mem i (s ++ [c]) := by
  rw [store_append]
  rfl

/-- A byte of a text is read. -/
theorem store_at (u v : List UInt8) (c : UInt8) :
    store mem i (u ++ c :: v) (i + u.length) = c := by
  rw [store_apply, if_pos (Nat.le_add_right i _), Nat.add_sub_cancel_left,
    List.getD_append_right _ _ _ _ le_rfl, Nat.sub_self, List.getD_cons_zero]

/-- A byte of a text is written over. -/
theorem setByte_at (u v : List UInt8) (c d : UInt8) :
    setByte (store mem i (u ++ c :: v)) (i + u.length) d = store mem i (u ++ d :: v) := by
  rw [store_append, store_append, ← setByte_before, ← setByte_before]
  funext j
  rw [setByte, setByte, setByte]
  split
  · rfl
  · rfl

end Memory

/-! ## `ultoa` -/

theorem ultoaCount_eq {base : Nat} (hb : 1 < base) {turns tmp : Nat} (count : Nat)
    (htmp : tmp < base ^ turns) :
    ultoaCount base (turns + 1) tmp count =
      some (count + if tmp = 0 then 0 else (numeral base tmp).length) := by
  induction turns generalizing tmp count with
  | zero =>
      obtain rfl := Nat.lt_one_iff.mp htmp
      rfl
  | succ turns ih =>
      rw [ultoaCount]
      by_cases h0 : tmp = 0
      · rw [if_neg (by omega), if_pos h0, Nat.add_zero]
      · rw [if_pos (by omega), ih _ (div_lt_pow htmp), if_neg h0]
        by_cases hdiv : tmp / base = 0
        · have hlt : tmp < base := (Nat.div_eq_zero_iff_lt (by omega)).mp hdiv
          rw [if_pos hdiv, numeral_of_lt hlt]
          rfl
        · rw [if_neg hdiv, numeral_of_div hb hdiv, List.length_append, List.length_singleton,
            Nat.add_right_comm, Nat.add_assoc]

/-- The digit that the second loop stores. -/
theorem ultoaLoop_step {base : Nat} (hb : 1 < base) (hbase : base ≤ 16) (turns value q : Nat)
    (mem : Nat → UInt8) :
    ultoaLoop base (turns + 1) value (q + 1) mem =
      let mem := setByte mem q (rep.getD (value % base) 0)
      if value / base ≠ 0 then ultoaLoop base turns (value / base) q mem else some (q, mem) := by
  have hres : value - base * (value / base) = value % base := by
    have := Nat.div_add_mod value base
    omega
  have hlt : value % base < 16 := (Nat.mod_lt value (by omega)).trans_le hbase
  have hlow : ∀ d < 10, UInt8.ofNat ('0'.toNat + d) = rep.getD d 0 := by decide
  have hhigh : ∀ d < 16, ¬ d < 10 → UInt8.ofNat ('A'.toNat - 10 + d) = rep.getD d 0 := by decide
  rw [ultoaLoop, hres, Nat.add_sub_cancel]
  by_cases hten : value % base < 10
  · simp only [if_pos hten, hlow _ hten]
  · simp only [if_neg hten, if_pos hlt, hhigh _ hlt hten]

theorem ultoaLoop_eq {base : Nat} (hb : 1 < base) (hbase : base ≤ 16) (mem : Nat → UInt8)
    (q : Nat) {turns value : Nat} (s : List UInt8) (hturns : 0 < turns)
    (hvalue : value < base ^ turns) :
    ultoaLoop base turns value (q + (numeral base value).length)
        (store mem (q + (numeral base value).length) s) =
      some (q, store mem q ((numeral base value).map (rep.getD · 0) ++ s)) := by
  induction turns generalizing value s with
  | zero => exact absurd hturns (Nat.lt_irrefl 0)
  | succ turns ih =>
      by_cases hdiv : value / base = 0
      · have hlt : value < base := (Nat.div_eq_zero_iff_lt (by omega)).mp hdiv
        rw [numeral_of_lt hlt, List.length_singleton, ultoaLoop_step hb hbase, setByte_before,
          Nat.mod_eq_of_lt hlt, hdiv]
        rfl
      · have hrest := ih (rep.getD (value % base) 0 :: s) (turns_pos hvalue hdiv)
          (div_lt_pow hvalue)
        rw [numeral_of_div hb hdiv, List.length_append, List.length_singleton, ← Nat.add_assoc,
          ultoaLoop_step hb hbase, setByte_before]
        simp only [hdiv, ne_eq, not_false_eq_true, if_true, hrest]
        simp

/-- `ultoa` stores the text at its argument. -/
theorem ultoa_eq (value : UInt32) (base : Base) (ptr : Nat) (mem : Nat → UInt8) :
    ultoa value ptr base.1 mem =
      some (ptr, store mem ptr ((numeral base.1 value.toNat).map (rep.getD · 0) ++ [0])) := by
  obtain ⟨base, hb, hbase⟩ := base
  have hvalue : value.toNat < base ^ 32 :=
    value.toNat_lt.trans_le (Nat.pow_le_pow_left hb 32)
  have hcount : (if value = 0 then 1 else 0) +
      (if value.toNat = 0 then 0 else (numeral base value.toNat).length) =
        (numeral base value.toNat).length := by
    by_cases h0 : value = 0
    · subst h0
      rfl
    · have h0' : value.toNat ≠ 0 := fun h => h0 (UInt32.toNat_inj.mp h)
      rw [if_neg h0, if_neg h0', Nat.zero_add]
  rw [ultoa, ultoaCount_eq hb _ hvalue, Option.bind_some, hcount]
  exact ultoaLoop_eq hb hbase mem ptr [0] (by omega) hvalue

/-! ## `itoa` -/

theorem itoaDigits_eq {divisor turns ud : Nat} (p : Nat) (mem : Nat → UInt8) (hturns : 0 < turns)
    (hud : ud < divisor ^ turns) :
    itoaDigits divisor turns ud p mem =
      some (p + (itoaLoop divisor turns ud).length, store mem p (itoaLoop divisor turns ud)) := by
  induction turns generalizing ud p mem with
  | zero => exact absurd hturns (Nat.lt_irrefl 0)
  | succ turns ih =>
      rw [itoaDigits, itoaLoop]
      by_cases hdiv : ud / divisor = 0
      · simp [hdiv, store]
      · have hrest := ih (p + 1) (setByte mem p (digit (ud % divisor))) (turns_pos hud hdiv)
          (div_lt_pow hud)
        simp only [hdiv, ne_eq, not_false_eq_true, if_true, hrest, store,
          List.length_cons, Nat.add_right_comm p 1, Nat.add_assoc]

theorem itoaLoop_length (divisor turns ud : Nat) :
    (itoaLoop divisor turns ud).length ≤ turns := by
  induction turns generalizing ud with
  | zero => exact Nat.le_refl 0
  | succ turns ih =>
      rw [itoaLoop, List.length_cons]
      split
      · exact Nat.succ_le_succ (ih _)
      · exact Nat.succ_le_succ (Nat.zero_le _)

/-- The digits are put in order. -/
theorem itoaSwap_eq (l : List UInt8) {turns : Nat} (q wrote : Nat) (z : List UInt8)
    (mem : Nat → UInt8) (hturns : l.length < 2 * turns) :
    itoaSwap turns q (q + l.length - 1) wrote (store mem q (l ++ z)) =
      some (wrote + l.length / 2, store mem q (l.reverse ++ z)) := by
  induction l using List.bidirectionalRec generalizing turns q wrote z mem with
  | nil =>
      obtain ⟨turns, rfl⟩ := Nat.exists_eq_succ_of_ne_zero (show turns ≠ 0 by omega)
      rw [itoaSwap, if_neg (by simp)]
      rfl
  | singleton a =>
      obtain ⟨turns, rfl⟩ := Nat.exists_eq_succ_of_ne_zero (show turns ≠ 0 by omega)
      rw [itoaSwap, if_neg (by simp)]
      simp
  | cons_append a l b ih =>
      obtain ⟨turns, rfl⟩ := Nat.exists_eq_succ_of_ne_zero (show turns ≠ 0 by omega)
      rw [List.length_cons, List.length_append, List.length_singleton] at hturns ⊢
      have hlast : q + (l.length + 1 + 1) - 1 = q + (a :: l).length := by
        rw [List.length_cons]
        omega
      have htext : (a :: (l ++ [b])) ++ z = (a :: l) ++ b :: z := by simp
      have hfirst : ∀ (c : UInt8) (u : List UInt8), store mem q (c :: u) q = c :=
        fun c u => store_at [] u c
      have hset : ∀ (c d : UInt8) (u : List UInt8),
          setByte (store mem q (c :: u)) q d = store mem q (d :: u) :=
        fun c d u => setByte_at [] u c d
      have hswapped : setByte (store mem q ((b :: l) ++ b :: z)) (q + (a :: l).length) a =
          store (setByte mem q b) (q + 1) (l ++ a :: z) := setByte_at (b :: l) z b a
      have hnext : q + (l.length + 1 + 1) - 1 - 1 = q + 1 + l.length - 1 := by omega
      rw [itoaSwap, if_pos (by omega), htext]
      simp only [hlast, store_at]
      rw [List.cons_append, hfirst, hset, ← List.cons_append, hswapped, ← hlast, hnext,
        ih (q + 1) (wrote + 1) (a :: z) (setByte mem q b) (by omega)]
      simp only [List.reverse_cons, List.reverse_append, List.reverse_nil, List.nil_append,
        List.append_assoc, List.cons_append, store, Option.some.injEq,
        Prod.mk.injEq, and_true]
      omega

/-- In memory `itoa` is the text that is modelled. -/
theorem itoaIn_eq (base : Int) (d : Int32) (buf : Nat) (mem : Nat → UInt8) :
    itoaIn base d buf mem =
      some ((itoa base d).2, store mem buf ((itoa base d).1 ++ [0])) := by
  -- from the first digit on the two cases are alike
  have hrest : ∀ (divisor ud p wrote : Nat) (mem : Nat → UInt8), 10 ≤ divisor → ud < 2 ^ 32 →
      ((itoaDigits divisor 32 ud p mem).bind fun (q, mem) =>
        itoaSwap 32 p (q - 1) wrote (setByte mem q 0)) =
      some (wrote + (itoaLoop divisor 32 ud).length / 2,
        store mem p ((itoaLoop divisor 32 ud).reverse ++ [0])) := by
    intro divisor ud p wrote mem hd hud
    have hlt : ud < divisor ^ 32 :=
      hud.trans_le ((Nat.pow_le_pow_left (by omega) 32).trans (Nat.pow_le_pow_left hd 32))
    rw [itoaDigits_eq p mem (by omega) hlt, Option.bind_some]
    simp only [setByte_behind]
    exact itoaSwap_eq _ _ _ _ _ ((itoaLoop_length divisor 32 ud).trans_lt (by omega))
  have hdivisor : ∀ c : Prop, [Decidable c] → 10 ≤ if c then 16 else 10 := by
    intro c _
    split
    · omega
    · omega
  by_cases hminus : base = 'd'.toNat ∧ d < 0
  · simp only [itoaIn, itoa, hminus, and_self, if_true]
    exact hrest _ _ _ _ _ (hdivisor _) (UInt32.toNat_lt _)
  · simp only [itoaIn, itoa, if_neg hminus]
    rw [hrest _ _ _ _ _ (hdivisor _) (UInt32.toNat_lt _), Nat.zero_add]

/-- A text of `itoa`. -/
theorem itoa_text (base : Int) (d : Int32) :
    (itoa base d).1 =
      if base = 'd'.toNat ∧ d < 0 then ascii '-' :: unsignedText 10 (-d).toUInt32.toNat
      else unsignedText (if base = 'x'.toNat then 16 else 10) d.toUInt32.toNat := by
  have hbound : ∀ (divisor : Nat) (w : UInt32), 2 ≤ divisor → w.toNat < divisor ^ 32 :=
    fun divisor w h => w.toNat_lt.trans_le (Nat.pow_le_pow_left h 32)
  by_cases hminus : base = 'd'.toNat ∧ d < 0
  · simp only [itoa, hminus, and_self, if_true, not_true_eq_false, false_and, if_false]
    rw [itoaLoop_reverse (by omega) (by omega) (hbound _ _ (by omega))]
  · simp only [itoa, hminus, not_false_eq_true, true_and, if_false]
    have hdivisor : 2 ≤ if base = 'x'.toNat then 16 else 10 := by
      split
      · omega
      · omega
    exact itoaLoop_reverse hdivisor (by omega) (hbound _ _ hdivisor)

theorem parseNumber_text {base : Nat} (hb : 1 < base) (hbase : base ≤ 16) (n : Nat) :
    parseNumber base (unsignedText base n) = some n :=
  parseNumber_numeral digitValue_digit hb hbase n

/-- No number begins with a minus. -/
theorem head_unsignedText {base n : Nat} (hb : 1 < base) (hbase : base ≤ 16) {c : UInt8}
    {text : List UInt8} (h : unsignedText base n = c :: text) : c ≠ ascii '-' := by
  rintro rfl
  have hparse := parseNumber_text hb hbase n
  rw [h, parseNumber, if_neg (List.cons_ne_nil _ _), parseDigits,
    show digitValue (ascii '-') = none by decide] at hparse
  cases hparse

theorem parseInt_signedText (d : Int32) : parseInt (itoa 'd'.toNat d).1 = some d.toInt := by
  have hx : ¬ (('d'.toNat : Int) = 'x'.toNat) := by decide
  rw [itoa_text, if_neg hx]
  by_cases hneg : d < 0
  · have hlt := Int32.lt_iff_toInt_lt.mp hneg
    rw [Int32.toInt_zero] at hlt
    rw [if_pos ⟨rfl, hneg⟩, parseInt, if_pos rfl, parseNumber_text (by omega) (by omega),
      toNat_toUInt32_neg hlt, Option.map_some, Option.some.injEq]
    omega
  · have hle : 0 ≤ d.toInt := by
      rw [Int32.lt_iff_toInt_lt, Int32.toInt_zero] at hneg
      omega
    rw [if_neg fun h => hneg h.2]
    cases htext : unsignedText 10 d.toUInt32.toNat with
    | nil => simp [unsignedText, numeral_ne_nil] at htext
    | cons c text =>
        rw [parseInt, if_neg (head_unsignedText (by omega) (by omega) htext), ← htext,
          parseNumber_text (by omega) (by omega), toNat_toUInt32 hle, Option.map_some,
          Option.some.injEq]
        omega

/-- What is printed is read back as the number it was. -/
theorem printed_back (value : UInt32) (base : Base) (d : Int32) (p : Nat) (mem : Nat → UInt8) :
    (∃ text, convert value base.1 = some text ∧
        ultoa value p base.1 mem = some (p, store mem p (text ++ [0])) ∧
        parseNumber base.1 text = some value.toNat ∧
        (text.head? = some (ascii '0') → value = 0 ∧ text = [ascii '0'])) ∧
      (∃ text wrote, itoaIn 'd'.toNat d p mem = some (wrote, store mem p (text ++ [0])) ∧
        parseInt text = some d.toInt) ∧
      ∃ text wrote, itoaIn 'x'.toNat d p mem = some (wrote, store mem p (text ++ [0])) ∧
        parseNumber 16 text = some d.toUInt32.toNat := by
  refine ⟨⟨_, ?_, ultoa_eq value base p mem,
    parseNumber_numeral digitValue_rep base.2.1 base.2.2 _, ?_⟩,
    ⟨_, _, itoaIn_eq _ d p mem, parseInt_signedText d⟩, ⟨_, _, itoaIn_eq _ d p mem, ?_⟩⟩
  · have hvalue : value.toNat < base.1 ^ 49 :=
      value.toNat_lt.trans_le ((Nat.pow_le_pow_right (by omega) (by omega : 32 ≤ 49)).trans
        (Nat.pow_le_pow_left base.2.1 49))
    rw [convert, convertLoop_eq base.2.1 (by omega) hvalue, List.append_nil]
  · intro hhead
    rw [List.head?_map, Option.map_eq_some_iff] at hhead
    obtain ⟨c, hc, hzero⟩ := hhead
    have hlt : c < 16 := (numeral_lt base.2.1 (List.mem_of_head? hc)).trans_le base.2.2
    have hc0 : ∀ c < 16, rep.getD c 0 = ascii '0' → c = 0 := by decide
    obtain rfl := hc0 c hlt hzero
    have hvalue := head_numeral hc
    rw [hvalue]
    exact ⟨UInt32.toNat_inj.mp hvalue, rfl⟩
  · have hd : ¬ ((('x'.toNat : Int) = 'd'.toNat) ∧ d < 0) := fun h => absurd h.1 (by decide)
    rw [itoa_text, if_neg hd, if_pos rfl]
    exact parseNumber_text (by omega) (by omega) _

end StardustOS.Libc
