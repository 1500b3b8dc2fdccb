import Mathlib.Tactic.Common
import Mathlib.Data.List.GetD
import Mathlib.Data.List.TakeWhile

/-!
# C strings

A `char` array is a list of bytes and a pointer into it is an index.  `cstr`
reads the string at a pointer: the bytes up to the first NUL.  The comparison
functions take the memory from their pointer on, so they work alike on an array
that holds a NUL and on the value of a string, whose end reads as NUL.

`strcmp_eq_zero` and `strncmp_eq_zero` say what a zero result means for two
strings; the callers in the kernel test for nothing else.
-/

namespace StardustOS.Libc

/-- The byte at an index of a `char` array. -/
def byteAt (buf : List UInt8) (i : Nat) : UInt8 := buf.getD i 0

/-- The string at a pointer: the bytes up to the first NUL. -/
def cstr (buf : List UInt8) (p : Nat) : List UInt8 := (buf.drop p).takeWhile (· ≠ 0)

/-- `strlen`. -/
def strlen (buf : List UInt8) (p : Nat) : Nat := (cstr buf p).length

/-- `*s` for a pointer `s` whose memory is the list. -/
def deref : List UInt8 → UInt8
  | [] => 0
  | c :: _ => c

/-- `(*(unsigned char*)s1) - (*(unsigned char*)s2)`. -/
def byteDiff (s1 s2 : List UInt8) : Int := (deref s1).toNat - (deref s2).toNat

/-- `strcmp`. -/
def strcmp : List UInt8 → List UInt8 → Int
  | [], s2 => byteDiff [] s2
  | a :: s1, s2 => if a ≠ 0 ∧ a = deref s2 then strcmp s1 s2.tail else byteDiff (a :: s1) s2

/-- `strncmp`.  The count `n + 1` is read before the decrement of the loop test
and `n` after it. -/
def strncmp : List UInt8 → List UInt8 → Nat → Int
  | _, _, 0 => 0
  | s1, s2, n + 1 =>
      if deref s1 = deref s2 then
        if n = 0 ∨ deref s1 = 0 then byteDiff s1 s2 else strncmp s1.tail s2.tail n
      else byteDiff s1 s2

/-! ## Strings at a pointer -/

@[simp] theorem cstr_append {s rest : List UInt8} (pre : List UInt8) (hs : 0 ∉ s) :
    cstr (pre ++ (s ++ 0 :: rest)) pre.length = s := by
  have hall : ∀ c ∈ s, (decide (c ≠ 0)) = true := by
    intro c hc
    simpa using fun h : c = 0 => hs (h ▸ hc)
  rw [cstr, List.drop_left, List.takeWhile_append_of_pos hall, List.takeWhile_cons]
  simp

theorem byteAt_append (pre s : List UInt8) (i : Nat) :
    byteAt (pre ++ s) (pre.length + i) = byteAt s i := by
  rw [byteAt, List.getD_append_right _ _ _ _ (Nat.le_add_right ..), Nat.add_sub_cancel_left, byteAt]

theorem byteAt_append_left {s t : List UInt8} {i : Nat} (hi : i < s.length) :
    byteAt (s ++ t) i = s[i] := by
  rw [byteAt, List.getD_append _ _ _ _ hi, List.getD_eq_getElem _ _ hi]

theorem strlen_le (buf : List UInt8) (p : Nat) : strlen buf p ≤ buf.length - p := by
  rw [strlen, cstr, ← List.length_drop]
  exact (List.takeWhile_prefix _).length_le

/-- A string ends at its first NUL, or where the array ends. -/
theorem strlen_le_of_byteAt {buf : List UInt8} {p j : Nat} (h : byteAt buf (p + j) = 0) :
    strlen buf p ≤ j := by
  by_contra hlt
  have hj : j < (cstr buf p).length := Nat.not_le.mp hlt
  have hdrop : j < (buf.drop p).length := hj.trans_le (List.takeWhile_prefix _).length_le
  have hbyte : (cstr buf p)[j] = byteAt buf (p + j) := by
    rw [byteAt, List.getD_eq_getElem _ _ (by rw [List.length_drop] at hdrop; omega)]
    exact ((List.takeWhile_prefix _).getElem hj).trans List.getElem_drop
  have hne : (cstr buf p)[j] ≠ 0 := by simpa using List.mem_takeWhile_imp (List.getElem_mem hj)
  exact hne (hbyte.trans h)

theorem byteAt_strlen (buf : List UInt8) (p : Nat) : byteAt buf (p + strlen buf p) = 0 := by
  have hend : ∀ l : List UInt8, l.getD (l.takeWhile (· ≠ 0)).length 0 = 0 := by
    intro l
    induction l with
    | nil => rfl
    | cons c l ih =>
        rw [List.takeWhile_cons]
        split
        · exact ih
        · rename_i hc
          simpa using hc
  have hdrop := hend (buf.drop p)
  rwa [List.getD_eq_getElem?_getD, List.getElem?_drop] at hdrop

theorem byteAt_set (buf : List UInt8) (i j : Nat) :
    byteAt (buf.set i 0) j = if i = j then 0 else byteAt buf j := by
  rw [byteAt, byteAt, List.getD_eq_getElem?_getD, List.getD_eq_getElem?_getD, List.getElem?_set]
  split
  · split
    · rfl
    · rfl
  · rfl

/-- A NUL that is stored makes no string longer. -/
theorem strlen_set_le (buf : List UInt8) (i p : Nat) : strlen (buf.set i 0) p ≤ strlen buf p :=
  strlen_le_of_byteAt (by rw [byteAt_set, byteAt_strlen, ite_self])

/-- It ends the string it is stored in. -/
theorem strlen_set_self_le (buf : List UInt8) (p j : Nat) : strlen (buf.set (p + j) 0) p ≤ j :=
  strlen_le_of_byteAt (by rw [byteAt_set, if_pos rfl])

/-! ## Comparisons -/

theorem byteDiff_eq_zero {s1 s2 : List UInt8} : byteDiff s1 s2 = 0 ↔ deref s1 = deref s2 := by
  rw [byteDiff, ← UInt8.toNat_inj]
  omega

theorem deref_eq_zero {s : List UInt8} (hs : 0 ∉ s) : deref s = 0 ↔ s = [] := by
  cases s with
  | nil => simp [deref]
  | cons c s => simpa [deref] using fun h : c = 0 => hs (h ▸ List.mem_cons_self)

theorem strcmp_eq_zero : ∀ {s1 s2 : List UInt8}, 0 ∉ s1 → 0 ∉ s2 → (strcmp s1 s2 = 0 ↔ s1 = s2)
  | [], s2, _, h2 => by
      rw [strcmp, byteDiff_eq_zero, deref, eq_comm, deref_eq_zero h2, eq_comm]
  | a :: s1, [], h1, _ => by
      have ha : a ≠ 0 := fun h => h1 (h ▸ List.mem_cons_self)
      simp [strcmp, deref, byteDiff_eq_zero, ha]
  | a :: s1, b :: s2, h1, h2 => by
      have ha : a ≠ 0 := fun h => h1 (h ▸ List.mem_cons_self)
      have h1' : 0 ∉ s1 := fun h => h1 (List.mem_cons_of_mem _ h)
      have h2' : 0 ∉ s2 := fun h => h2 (List.mem_cons_of_mem _ h)
      by_cases hab : a = b
      · subst hab
        simp [strcmp, deref, ha, strcmp_eq_zero h1' h2']
      · simp [strcmp, deref, hab, byteDiff_eq_zero]

theorem strncmp_eq_zero :
    ∀ {n : Nat} {s1 s2 : List UInt8}, 0 ∉ s1 → 0 ∉ s2 →
      (strncmp s1 s2 n = 0 ↔ s1.take n = s2.take n)
  | 0, _, _, _, _ => by simp [strncmp]
  | n + 1, [], s2, _, h2 => by
      rw [strncmp, show deref ([] : List UInt8) = 0 from rfl]
      cases s2 with
      | nil => simp [deref, byteDiff]
      | cons b s2 =>
          have hb : ¬ (0 : UInt8) = b := fun h => h2 (h ▸ List.mem_cons_self)
          simp [deref, hb, byteDiff_eq_zero]
  | n + 1, a :: s1, [], h1, _ => by
      have ha : a ≠ 0 := fun h => h1 (h ▸ List.mem_cons_self)
      simp [strncmp, deref, ha, byteDiff_eq_zero]
  | n + 1, a :: s1, b :: s2, h1, h2 => by
      have ha : a ≠ 0 := fun h => h1 (h ▸ List.mem_cons_self)
      have h1' : 0 ∉ s1 := fun h => h1 (List.mem_cons_of_mem _ h)
      have h2' : 0 ∉ s2 := fun h => h2 (List.mem_cons_of_mem _ h)
      by_cases hab : a = b
      · subst hab
        by_cases hn : n = 0
        · simp [strncmp, hn, byteDiff_eq_zero, deref]
        · simp [strncmp, deref, hn, ha, strncmp_eq_zero h1' h2']
      · simp [strncmp, deref, hab, byteDiff_eq_zero]

/-- A comparison cut at the length of the second string tests for a prefix. -/
theorem strncmp_length_eq_zero {s1 s2 : List UInt8} (h1 : 0 ∉ s1) (h2 : 0 ∉ s2) :
    strncmp s1 s2 s2.length = 0 ↔ s2 <+: s1 := by
  rw [strncmp_eq_zero h1 h2, List.take_length, List.prefix_iff_eq_take, eq_comm]

/-! ## Strings as values -/

theorem cstr_noNul (buf : List UInt8) (p : Nat) : 0 ∉ cstr buf p := fun h => by
  simpa using List.mem_takeWhile_imp h

/-- The content of an array that holds a string: the bytes before its NUL. -/
def CStr := { s : List UInt8 // 0 ∉ s }
deriving DecidableEq

/-- What `strcpy` copies from a pointer. -/
def CStr.read (buf : List UInt8) (p : Nat) : CStr := ⟨cstr buf p, cstr_noNul buf p⟩

/-- A string compared with the one at a pointer. -/
theorem CStr.strcmp_eq_zero (s : CStr) (buf : List UInt8) (p : Nat) :
    strcmp s.1 (cstr buf p) = 0 ↔ s.1 = cstr buf p :=
  Libc.strcmp_eq_zero s.2 (cstr_noNul buf p)

/-- A string compared with the start of the one at a pointer. -/
theorem CStr.strncmp_eq_zero (s : CStr) (buf : List UInt8) (p : Nat) :
    strncmp (cstr buf p) s.1 s.1.length = 0 ↔ s.1 <+: cstr buf p :=
  strncmp_length_eq_zero (cstr_noNul buf p) s.2

end StardustOS.Libc
