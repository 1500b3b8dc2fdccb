import StardustOS.Libc.Strings

/-!
# String comparison

`strcmp` compares two strings as lists of unsigned bytes, and `strncmp` compares what
they begin with.

`strcmpIn` and `strncmpIn` are the loops on pointers to just so many bytes as the lists
hold: a read behind them is undefined.  They get by with the strings and their NUL, and
`strncmpIn` with `n` bytes.
-/

namespace StardustOS.Libc

/-- `strcmp`, with the bytes that may be read. -/
def strcmpIn : List UInt8 → List UInt8 → Option Int
  | a :: s1, b :: s2 =>
      if a ≠ 0 ∧ a = b then strcmpIn s1 s2 else some (byteDiff (a :: s1) (b :: s2))
  | _, _ => none

/-- `strncmp`, with the bytes that may be read. -/
def strncmpIn : List UInt8 → List UInt8 → Nat → Option Int
  | _, _, 0 => some 0
  | a :: s1, b :: s2, n + 1 =>
      if a = b then
        if n = 0 ∨ a = 0 then some (byteDiff (a :: s1) (b :: s2)) else strncmpIn s1 s2 n
      else some (byteDiff (a :: s1) (b :: s2))
  | _, _, _ + 1 => none

/-- A string in memory: its bytes and the NUL. -/
def CStr.bytes (s : CStr) : List UInt8 := s.1 ++ [0]

theorem ne_zero_of_cons {a : UInt8} {s : List UInt8} (h : 0 ∉ a :: s) : a ≠ 0 ∧ 0 ∉ s := by
  rw [List.mem_cons, not_or] at h
  exact ⟨Ne.symm h.1, h.2⟩

theorem byteDiff_swap (s1 s2 : List UInt8) : byteDiff s2 s1 = -byteDiff s1 s2 := by
  rw [byteDiff, byteDiff]
  omega

theorem byteDiff_cons_lt {a b : UInt8} {s1 s2 : List UInt8} :
    byteDiff (a :: s1) (b :: s2) < 0 ↔ a < b := by
  rw [byteDiff, deref, deref, UInt8.lt_iff_toNat_lt]
  omega

/-! ## The order of the bytes -/

theorem strcmp_cons {a b : UInt8} {s1 s2 : List UInt8} (ha : a ≠ 0) :
    strcmp (a :: s1) (b :: s2) =
      if a = b then strcmp s1 s2 else byteDiff (a :: s1) (b :: s2) := by
  simp [strcmp, deref, ha]

theorem strcmp_neg : ∀ {s1 s2 : List UInt8}, 0 ∉ s1 → 0 ∉ s2 → (strcmp s1 s2 < 0 ↔ s1 < s2)
  | [], [], _, _ => by simp [strcmp, byteDiff]
  | [], b :: s2, _, h2 => by
      have hb := UInt8.toNat_inj.not.mpr (ne_zero_of_cons h2).1
      rw [UInt8.toNat_zero] at hb
      simp only [strcmp, byteDiff, deref, UInt8.toNat_zero, List.nil_lt_cons, iff_true]
      omega
  | a :: s1, [], h1, _ => by
      have ha := (ne_zero_of_cons h1).1
      simp [strcmp, byteDiff, deref, ha]
  | a :: s1, b :: s2, h1, h2 => by
      obtain ⟨ha, h1⟩ := ne_zero_of_cons h1
      have ih := strcmp_neg h1 (ne_zero_of_cons h2).2
      rw [strcmp_cons ha, List.cons_lt_cons_iff]
      split
      · subst b
        simp [ih]
      · rename_i hab
        simp [byteDiff_cons_lt, hab]

/-- Two strings the other way round. -/
theorem strcmp_swap : ∀ {s1 s2 : List UInt8}, 0 ∉ s1 → 0 ∉ s2 → strcmp s2 s1 = -strcmp s1 s2
  | [], [], _, _ => by simp [strcmp, byteDiff]
  | [], b :: s2, _, h2 => by
      simp [strcmp, byteDiff, deref, (ne_zero_of_cons h2).1]
  | a :: s1, [], h1, _ => by
      simp [strcmp, byteDiff, deref, (ne_zero_of_cons h1).1]
  | a :: s1, b :: s2, h1, h2 => by
      obtain ⟨ha, h1⟩ := ne_zero_of_cons h1
      obtain ⟨hb, h2⟩ := ne_zero_of_cons h2
      rw [strcmp_cons ha, strcmp_cons hb]
      by_cases hab : a = b
      · rw [if_pos hab, if_pos hab.symm, strcmp_swap h1 h2]
      · rw [if_neg hab, if_neg (Ne.symm hab), byteDiff_swap]

theorem strcmp_pos {s1 s2 : List UInt8} (h1 : 0 ∉ s1) (h2 : 0 ∉ s2) :
    0 < strcmp s1 s2 ↔ s2 < s1 := by
  rw [← strcmp_neg h2 h1, strcmp_swap h1 h2]
  omega

theorem strcmp_trans {s1 s2 s3 : List UInt8} (h1 : 0 ∉ s1) (h2 : 0 ∉ s2) (h3 : 0 ∉ s3)
    (h12 : strcmp s1 s2 ≤ 0) (h23 : strcmp s2 s3 ≤ 0) : strcmp s1 s3 ≤ 0 := by
  refine Int.not_lt.mp ?_
  rw [strcmp_pos h1 h3]
  intro h31
  obtain heq | hlt := Int.le_iff_eq_or_lt.mp h12
  · -- the first two are one string
    obtain rfl := (strcmp_eq_zero h1 h2).mp heq
    exact absurd ((strcmp_pos h1 h3).mpr h31) (Int.not_lt.mpr h23)
  · have h32 : s3 < s2 := List.lt_trans h31 ((strcmp_neg h1 h2).mp hlt)
    exact absurd ((strcmp_pos h2 h3).mpr h32) (Int.not_lt.mpr h23)

/-! ## What is compared -/

/-- `strncmp` compares the strings cut to `n` bytes. -/
theorem strncmp_take :
    ∀ {n : Nat} {s1 s2 : List UInt8}, 0 ∉ s1 → 0 ∉ s2 →
      strncmp s1 s2 n = strcmp (s1.take n) (s2.take n)
  | 0, _, _, _, _ => by simp [strncmp, strcmp, byteDiff, deref]
  | n + 1, [], [], _, _ => by simp [strncmp, strcmp, deref]
  | n + 1, [], b :: s2, _, h2 => by
      simp [strncmp, strcmp, byteDiff, deref, (ne_zero_of_cons h2).1.symm]
  | n + 1, a :: s1, [], h1, _ => by
      simp [strncmp, strcmp, byteDiff, deref, (ne_zero_of_cons h1).1]
  | n + 1, a :: s1, b :: s2, h1, h2 => by
      obtain ⟨ha, h1⟩ := ne_zero_of_cons h1
      have ih := @strncmp_take n s1 s2 h1 (ne_zero_of_cons h2).2
      rw [List.take_succ_cons, List.take_succ_cons, strcmp_cons ha, ← ih, strncmp]
      simp only [deref, ha, or_false, List.tail_cons]
      split
      · subst b
        cases n with
        | zero => simp [strncmp, byteDiff, deref]
        | succ n => rw [if_neg (Nat.succ_ne_zero n)]
      · rfl

/-! ## What is read -/

theorem strcmpIn_eq : ∀ {s1 s2 : List UInt8}, 0 ∉ s1 → 0 ∉ s2 →
    strcmpIn (s1 ++ [0]) (s2 ++ [0]) = some (strcmp s1 s2)
  | [], [], _, _ => by simp [strcmpIn, strcmp, byteDiff, deref]
  | [], b :: s2, _, _ => by simp [strcmpIn, strcmp, byteDiff, deref]
  | a :: s1, [], h1, _ => by
      simp [strcmpIn, strcmp, byteDiff, deref, (ne_zero_of_cons h1).1]
  | a :: s1, b :: s2, h1, h2 => by
      obtain ⟨ha, h1⟩ := ne_zero_of_cons h1
      rw [strcmp_cons ha, List.cons_append, List.cons_append, strcmpIn,
        strcmpIn_eq h1 (ne_zero_of_cons h2).2]
      by_cases hab : a = b
      · rw [if_pos ⟨ha, hab⟩, if_pos hab]
      · rw [if_neg fun h => hab h.2, if_neg hab]
        rfl

theorem strncmpIn_eq : ∀ {n : Nat} {s1 s2 : List UInt8}, 0 ∉ s1 → 0 ∉ s2 →
    strncmpIn ((s1 ++ [0]).take n) ((s2 ++ [0]).take n) n = some (strncmp s1 s2 n)
  | 0, _, _, _, _ => by simp [strncmpIn, strncmp]
  | n + 1, [], [], _, _ => by simp [strncmpIn, strncmp, byteDiff, deref]
  | n + 1, [], b :: s2, _, h2 => by
      simp [strncmpIn, strncmp, byteDiff, deref, (ne_zero_of_cons h2).1.symm]
  | n + 1, a :: s1, [], h1, _ => by
      simp [strncmpIn, strncmp, byteDiff, deref, (ne_zero_of_cons h1).1]
  | n + 1, a :: s1, b :: s2, h1, h2 => by
      obtain ⟨ha, h1⟩ := ne_zero_of_cons h1
      have ih := @strncmpIn_eq n s1 s2 h1 (ne_zero_of_cons h2).2
      rw [List.cons_append, List.cons_append, List.take_succ_cons, List.take_succ_cons,
        strncmpIn, ih, strncmp]
      simp only [deref, ha, or_false, List.tail_cons, byteDiff]
      split
      · split
        · rfl
        · rfl
      · rfl

/-- The comparison functions are one order of strings, and read no further than they
have to. -/
theorem strcmp_order (a b c : CStr) (n : Nat) :
    (strcmp a.1 b.1 = 0 ↔ a = b) ∧ (strcmp a.1 b.1 < 0 ↔ a.1 < b.1) ∧
      (0 < strcmp a.1 b.1 ↔ b.1 < a.1) ∧ strcmp b.1 a.1 = -strcmp a.1 b.1 ∧
      (strcmp a.1 b.1 ≤ 0 → strcmp b.1 c.1 ≤ 0 → strcmp a.1 c.1 ≤ 0) ∧
      strncmp a.1 b.1 n = strcmp (a.1.take n) (b.1.take n) ∧
      strcmpIn a.bytes b.bytes = some (strcmp a.1 b.1) ∧
      strncmpIn (a.bytes.take n) (b.bytes.take n) n = some (strncmp a.1 b.1 n) :=
  ⟨(strcmp_eq_zero a.2 b.2).trans Subtype.ext_iff.symm, strcmp_neg a.2 b.2,
    strcmp_pos a.2 b.2, strcmp_swap a.2 b.2, strcmp_trans a.2 b.2 c.2, strncmp_take a.2 b.2,
    strcmpIn_eq a.2 b.2, strncmpIn_eq a.2 b.2⟩

end StardustOS.Libc
