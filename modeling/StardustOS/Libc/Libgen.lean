import StardustOS.Libc.Strings

/-!
# `dirname` and `basename`

`dirname` works in place.  It drops trailing slashes by storing NUL over them,
looks for the last slash that is left, and stores NUL over that one too.  So it
returns two things here: the pointer, which is a string literal or the argument
itself, and the array as it leaves it.

Two cases matter for path resolution.  Without a slash the array is unchanged
and the result is the literal `.` (`dirname_noSlash`).  With a last slash that
is neither first nor trailing, the array is cut there and the result is the
argument (`dirname_cut`).

A caller that calls `dirname` again on the same array comes to an end: as long as
there is something behind the first character of the result, the string in the
array gets shorter (`dirname_shorter`).  All that is ever written is NUL
(`CutFrom`), and it is written exactly when there is a slash behind the first
character (`dirname_flat`, `dirname_writes`).
-/

namespace StardustOS.Libc

/-- `'/'`. -/
def slash : UInt8 := 47

/-- `'.'`. -/
def dot : UInt8 := 46

/-- A `char*` that a function returns: a string literal or a pointer into the
array it was given. -/
inductive CPtr where
  | lit (s : List UInt8)
  | ptr (p : Nat)
deriving DecidableEq, Repr

/-- `strlen` of such a pointer, the array being `buf`. -/
def CPtr.strlen (buf : List UInt8) : CPtr → Nat
  | .lit s => s.length
  | .ptr p => Libc.strlen buf p

/-- The string at such a pointer. -/
def CPtr.str (buf : List UInt8) : CPtr → List UInt8
  | .lit s => s
  | .ptr p => cstr buf p

/-- `d++`, for a pointer to a string that is not empty. -/
def CPtr.next : CPtr → CPtr
  | .lit s => .lit s.tail
  | .ptr p => .ptr (p + 1)

/-- `while (*p == '/') { if (p == path) return path; *p-- = '\0'; }` with
`p = path + k`.  The index is the `k` the loop ends at, or `none` when it
returns. -/
def trimSlashes (path : Nat) : Nat → List UInt8 → Option Nat × List UInt8
  | 0, buf => if byteAt buf path = slash then (none, buf) else (some 0, buf)
  | k + 1, buf =>
      if byteAt buf (path + (k + 1)) = slash then
        trimSlashes path k (buf.set (path + (k + 1)) 0)
      else (some (k + 1), buf)

/-- `while (p >= path && *p != '/') p--` with `p = path + k`.  The index is the
`k` the loop ends at, or `none` when it ends below `path`. -/
def lastSlash (buf : List UInt8) (path : Nat) : Nat → Option Nat
  | 0 => if byteAt buf path = slash then some 0 else none
  | k + 1 => if byteAt buf (path + (k + 1)) = slash then some (k + 1) else lastSlash buf path k

/-- `dirname(path)`.  A null path is not modelled: no caller passes one. -/
def dirname (buf : List UInt8) (path : Nat) : CPtr × List UInt8 :=
  if byteAt buf path = 0 then (.lit [dot], buf)
  else
    match trimSlashes path (strlen buf path - 1) buf with
    | (none, buf) => (.ptr path, buf)
    | (some k, buf) =>
        match lastSlash buf path k with
        | none => (.lit [dot], buf)
        | some 0 => (.lit [slash], buf)
        | some (j + 1) => (.ptr path, buf.set (path + (j + 1)) 0)

/-- `basename(path)`. -/
def basename (buf : List UInt8) (path : Nat) : CPtr × List UInt8 :=
  if byteAt buf path = 0 then (.lit [dot], buf)
  else
    match trimSlashes path (strlen buf path - 1) buf with
    | (none, buf) => (.ptr path, buf)
    | (some k, buf) =>
        match lastSlash buf path k with
        | none => (.ptr path, buf)
        | some j => (.ptr (path + j + 1), buf)

/-! ## The loops -/

theorem trimSlashes_of_ne {buf : List UInt8} {path k : Nat}
    (h : byteAt buf (path + k) ≠ slash) : trimSlashes path k buf = (some k, buf) := by
  cases k with
  | zero => simpa [trimSlashes] using h
  | succ k => simp [trimSlashes, h]

theorem lastSlash_eq_none {buf : List UInt8} {path : Nat} :
    ∀ {k : Nat}, (∀ j ≤ k, byteAt buf (path + j) ≠ slash) → lastSlash buf path k = none
  | 0, h => by simpa [lastSlash] using h 0 le_rfl
  | k + 1, h => by
      have hk := h (k + 1) le_rfl
      simp only [lastSlash, hk, ↓reduceIte]
      exact lastSlash_eq_none fun j hj => h j (by omega)

theorem lastSlash_eq_some {buf : List UInt8} {path j : Nat} :
    ∀ {k : Nat}, j ≤ k → byteAt buf (path + j) = slash →
      (∀ i, j < i → i ≤ k → byteAt buf (path + i) ≠ slash) → lastSlash buf path k = some j
  | 0, hj, hs, _ => by
      obtain rfl : j = 0 := by omega
      simpa [lastSlash] using hs
  | k + 1, hj, hs, hne => by
      by_cases hjk : j = k + 1
      · subst hjk
        simp [lastSlash, hs]
      · have hk := hne (k + 1) (by omega) le_rfl
        simp only [lastSlash, hk, ↓reduceIte]
        exact lastSlash_eq_some (by omega) hs fun i h1 h2 => hne i h1 (by omega)

theorem trimSlashes_length {path : Nat} :
    ∀ {k : Nat} {buf : List UInt8}, (trimSlashes path k buf).2.length = buf.length
  | 0, buf => by
      rw [trimSlashes]
      split <;> rfl
  | k + 1, buf => by
      rw [trimSlashes]
      split
      · rw [trimSlashes_length, List.length_set]
      · rfl

/-- `dirname` writes inside the array and never moves it. -/
theorem dirname_length (buf : List UInt8) (path : Nat) :
    (dirname buf path).2.length = buf.length := by
  have htrim := @trimSlashes_length path (strlen buf path - 1) buf
  rw [dirname]
  split
  · rfl
  · split
    next hb =>
      rw [hb] at htrim
      exact htrim
    next k buf' hb =>
      rw [hb] at htrim
      split
      · exact htrim
      · exact htrim
      · rw [List.length_set]
        exact htrim

theorem trimSlashes_strlen {path : Nat} :
    ∀ {k : Nat} {buf : List UInt8}, strlen (trimSlashes path k buf).2 path ≤ strlen buf path
  | 0, buf => by
      rw [trimSlashes]
      split <;> exact Nat.le_refl _
  | k + 1, buf => by
      rw [trimSlashes]
      split
      · exact trimSlashes_strlen.trans (strlen_set_le buf _ path)
      · exact Nat.le_refl _

/-- The loop ends where it began or before, and returns at the first character. -/
theorem trimSlashes_le {path i : Nat} :
    ∀ {k : Nat} {buf : List UInt8}, (trimSlashes path k buf).1 = some i → i ≤ k
  | 0, buf, h => by
      rw [trimSlashes] at h
      split at h
      · cases h
      · exact (Option.some.inj h).ge
  | k + 1, buf, h => by
      rw [trimSlashes] at h
      split at h
      · exact (trimSlashes_le h).trans (Nat.le_succ k)
      · exact (Option.some.inj h).ge

theorem lastSlash_le {buf : List UInt8} {path j : Nat} :
    ∀ {k : Nat}, lastSlash buf path k = some j → j ≤ k
  | 0, h => by
      rw [lastSlash] at h
      split at h
      · exact (Option.some.inj h).ge
      · cases h
  | k + 1, h => by
      rw [lastSlash] at h
      split at h
      · exact (Option.some.inj h).ge
      · exact (lastSlash_le h).trans (Nat.le_succ k)

/-- What `trimSlashes` returns through is the string of one slash. -/
theorem trimSlashes_none {path : Nat} :
    ∀ {k : Nat} {buf : List UInt8}, byteAt buf (path + (k + 1)) = 0 →
      (trimSlashes path k buf).1 = none → byteAt (trimSlashes path k buf).2 (path + 1) = 0
  | 0, buf, hend, h => by
      rw [trimSlashes] at h ⊢
      split at h
      · rw [if_pos ‹_›]
        exact hend
      · cases h
  | k + 1, buf, hend, h => by
      rw [trimSlashes] at h ⊢
      split at h
      · rw [if_pos ‹_›]
        exact trimSlashes_none (by rw [byteAt_set, if_pos rfl]) h
      · cases h

theorem strlen_pos {buf : List UInt8} {path : Nat} (h : byteAt buf path ≠ 0) :
    0 < strlen buf path := by
  refine Nat.pos_of_ne_zero ?_
  intro h0
  have hend := byteAt_strlen buf path
  rw [h0, Nat.add_zero] at hend
  exact h hend

/-- Another `dirname` on the same array: there is nothing behind the first
character of the result, or the string in the array got shorter. -/
theorem dirname_shorter (buf : List UInt8) (path : Nat) :
    (dirname buf path).1.next.str (dirname buf path).2 = [] ∧
        strlen (dirname buf path).2 path ≤ strlen buf path ∨
      strlen (dirname buf path).2 path < strlen buf path := by
  rw [dirname]
  split
  · exact Or.inl ⟨rfl, Nat.le_refl _⟩
  · have hpos := strlen_pos ‹_›
    have hle := @trimSlashes_strlen path (strlen buf path - 1) buf
    split
    next buf' htrim =>
      have hend : byteAt buf (path + (strlen buf path - 1 + 1)) = 0 := by
        rw [Nat.sub_add_cancel hpos]
        exact byteAt_strlen buf path
      have hnone := trimSlashes_none hend (by rw [htrim])
      rw [htrim] at hnone hle
      have hlen : strlen buf' (path + 1) ≤ 0 := strlen_le_of_byteAt hnone
      exact Or.inl ⟨List.eq_nil_of_length_eq_zero (Nat.le_zero.mp hlen), hle⟩
    next k buf' htrim =>
      have hk : k ≤ strlen buf path - 1 := trimSlashes_le (by rw [htrim])
      rw [htrim] at hle
      split
      · exact Or.inl ⟨rfl, hle⟩
      · exact Or.inl ⟨rfl, hle⟩
      next j hlast =>
        have hj := lastSlash_le hlast
        have hset := strlen_set_self_le buf' path (j + 1)
        right
        show strlen (buf'.set (path + (j + 1)) 0) path < strlen buf path
        omega

/-! ## What is written -/

/-- The array `buf'` is `buf` with some bytes set to NUL. -/
def CutFrom (buf buf' : List UInt8) : Prop :=
  ∀ i, byteAt buf' i = byteAt buf i ∨ byteAt buf' i = 0

namespace CutFrom

variable {buf buf' buf'' : List UInt8}

theorem refl (buf : List UInt8) : CutFrom buf buf := fun _ => Or.inl rfl

theorem trans (h : CutFrom buf buf') (h' : CutFrom buf' buf'') : CutFrom buf buf'' := by
  intro i
  obtain he | he := h' i
  · rw [he]
    exact h i
  · exact Or.inr he

theorem set (buf : List UInt8) (j : Nat) : CutFrom buf (buf.set j 0) := by
  intro i
  rw [byteAt_set]
  split
  · exact Or.inr rfl
  · exact Or.inl rfl

/-- A NUL stays. -/
theorem nul {i : Nat} (h : CutFrom buf buf') (hi : byteAt buf i = 0) : byteAt buf' i = 0 := by
  obtain he | he := h i
  · rw [he, hi]
  · exact he

end CutFrom

/-- The string has no slash behind its first character. -/
def Flat (buf : List UInt8) (path : Nat) : Prop :=
  ∀ i, 1 ≤ i → i < strlen buf path → byteAt buf (path + i) ≠ slash

theorem trimSlashes_cutFrom {path : Nat} :
    ∀ {k : Nat} {buf : List UInt8}, CutFrom buf (trimSlashes path k buf).2
  | 0, buf => by
      rw [trimSlashes]
      split
      · exact .refl buf
      · exact .refl buf
  | k + 1, buf => by
      rw [trimSlashes]
      split
      · exact (CutFrom.set buf _).trans trimSlashes_cutFrom
      · exact .refl buf

theorem dirname_cutFrom (buf : List UInt8) (path : Nat) : CutFrom buf (dirname buf path).2 := by
  have htrim := @trimSlashes_cutFrom path (strlen buf path - 1) buf
  rw [dirname]
  split
  · exact .refl buf
  · split
    next buf' hb =>
      rw [hb] at htrim
      exact htrim
    next k buf' hb =>
      rw [hb] at htrim
      split
      · exact htrim
      · exact htrim
      · exact htrim.trans (.set buf' _)

theorem lastSlash_slash {buf : List UInt8} {path j : Nat} :
    ∀ {k : Nat}, lastSlash buf path k = some j → byteAt buf (path + j) = slash
  | 0, h => by
      rw [lastSlash] at h
      split at h
      · cases h
        assumption
      · cases h
  | k + 1, h => by
      rw [lastSlash] at h
      split at h
      · cases h
        assumption
      · exact lastSlash_slash h

/-- A slash is found at its place or behind it. -/
theorem le_lastSlash {buf : List UInt8} {path i : Nat} (hi : byteAt buf (path + i) = slash) :
    ∀ {k : Nat}, i ≤ k → ∃ j, lastSlash buf path k = some j ∧ i ≤ j
  | 0, hle => by
      obtain rfl : i = 0 := Nat.le_zero.mp hle
      exact ⟨0, if_pos hi, le_rfl⟩
  | k + 1, hle => by
      rw [lastSlash]
      split
      · exact ⟨k + 1, rfl, hle⟩
      · rename_i hk
        have hne : i ≠ k + 1 := by
          rintro rfl
          exact hk hi
        exact le_lastSlash hi (by omega)

/-- With no slash behind the first character nothing is written, and the result
is one character long. -/
theorem dirname_flat {buf : List UInt8} {path : Nat} (h : Flat buf path) :
    (dirname buf path).2 = buf ∧ (dirname buf path).1.strlen buf = 1 := by
  rw [dirname]
  split
  · exact ⟨rfl, rfl⟩
  rename_i hfirst
  have hpos := strlen_pos hfirst
  obtain ⟨k, hk⟩ : ∃ k, strlen buf path = k + 1 := ⟨_, (Nat.sub_add_cancel hpos).symm⟩
  have htrim : trimSlashes path k buf = (some k, buf) ∨
      k = 0 ∧ trimSlashes path k buf = (none, buf) := by
    cases k with
    | zero =>
        rw [trimSlashes]
        split
        · exact Or.inr ⟨rfl, rfl⟩
        · exact Or.inl rfl
    | succ k => exact Or.inl (trimSlashes_of_ne (h (k + 1) (by omega) (by omega)))
  rw [hk, Nat.add_sub_cancel]
  obtain htrim | ⟨rfl, htrim⟩ := htrim
  · rw [htrim]
    dsimp only
    split
    · exact ⟨rfl, rfl⟩
    · exact ⟨rfl, rfl⟩
    · rename_i j hlast
      have hj := lastSlash_le hlast
      exact absurd (lastSlash_slash hlast) (h (j + 1) (by omega) (by omega))
  · rw [htrim]
    exact ⟨rfl, hk⟩

/-- With a slash behind the first character one is written over. -/
theorem dirname_writes {buf : List UInt8} {path : Nat} (h : ¬ Flat buf path) :
    ∃ i, byteAt buf i = slash ∧ byteAt (dirname buf path).2 i = 0 := by
  simp only [Flat, not_forall, not_not] at h
  obtain ⟨i, hi, hlt, hslash⟩ := h
  obtain ⟨k, hk⟩ : ∃ k, strlen buf path = k + 2 := ⟨strlen buf path - 2, by omega⟩
  have hfirst : byteAt buf path ≠ 0 := by
    intro h0
    have hnil : strlen buf path ≤ 0 := strlen_le_of_byteAt h0
    omega
  by_cases hend : byteAt buf (path + (k + 1)) = slash
  · -- a slash at the end is trimmed, and stays NUL
    refine ⟨_, hend, ?_⟩
    have hcut : CutFrom (buf.set (path + (k + 1)) 0) (dirname buf path).2 := by
      have htrim := @trimSlashes_cutFrom path k (buf.set (path + (k + 1)) 0)
      rw [dirname, if_neg hfirst, hk]
      simp only [Nat.add_one_sub_one, trimSlashes, if_pos hend]
      split
      next buf' hb =>
        rw [hb] at htrim
        exact htrim
      next k' buf' hb =>
        rw [hb] at htrim
        split
        · exact htrim
        · exact htrim
        · exact htrim.trans (.set buf' _)
    exact hcut.nul (by rw [byteAt_set, if_pos rfl])
  · -- the last slash is written over
    obtain ⟨j, hlast, hij⟩ := le_lastSlash hslash (show i ≤ k + 1 by omega)
    refine ⟨_, lastSlash_slash hlast, ?_⟩
    obtain ⟨m, rfl⟩ : ∃ m, j = m + 1 := ⟨j - 1, by omega⟩
    rw [dirname, if_neg hfirst, hk]
    simp only [Nat.add_one_sub_one, trimSlashes_of_ne hend, hlast]
    rw [byteAt_set, if_pos rfl]

/-- The name of a path is a string. -/
theorem basename_noNul (buf : List UInt8) (path : Nat) :
    0 ∉ (basename buf path).1.str (basename buf path).2 := by
  rw [basename]
  split
  · simp [CPtr.str, dot]
  · split
    · exact cstr_noNul _ _
    · split
      · exact cstr_noNul _ _
      · exact cstr_noNul _ _

/-! ## The two cases -/

section Cases

variable {pre s rest : List UInt8}

theorem byteAt_body {i : Nat} (hi : i < s.length) :
    byteAt (pre ++ (s ++ 0 :: rest)) (pre.length + i) = s[i] := by
  rw [byteAt_append, byteAt_append_left hi]

theorem strlen_body (hs : 0 ∉ s) : strlen (pre ++ (s ++ 0 :: rest)) pre.length = s.length := by
  rw [strlen, cstr_append pre hs]

/-- No slash: the result is `.` and nothing is written. -/
theorem dirname_noSlash (h0 : 0 ∉ s) (hs : slash ∉ s) :
    dirname (pre ++ (s ++ 0 :: rest)) pre.length = (.lit [dot], pre ++ (s ++ 0 :: rest)) := by
  cases hlen : s.length with
  | zero =>
      obtain rfl := List.eq_nil_of_length_eq_zero hlen
      simp [dirname, byteAt]
  | succ n =>
      have hbyte : ∀ i (hi : i < s.length),
          byteAt (pre ++ (s ++ 0 :: rest)) (pre.length + i) ≠ slash := by
        intro i hi h
        rw [byteAt_body hi] at h
        exact hs (h ▸ List.getElem_mem hi)
      have hfirst : byteAt (pre ++ (s ++ 0 :: rest)) pre.length ≠ 0 := by
        have h := @byteAt_body pre s rest 0 (by omega)
        rw [Nat.add_zero] at h
        rw [h]
        exact fun h => h0 (h ▸ List.getElem_mem _)
      rw [dirname, if_neg hfirst, strlen_body h0, hlen,
        trimSlashes_of_ne (hbyte _ (by omega))]
      simp only [lastSlash_eq_none fun j (hj : j ≤ n + 1 - 1) => hbyte j (by omega)]

/-- A last slash inside the string: the array is cut there. -/
theorem dirname_cut {d l : List UInt8} (hd : d ≠ []) (hl : l ≠ []) (hd0 : 0 ∉ d) (hl0 : 0 ∉ l)
    (hls : slash ∉ l) :
    dirname (pre ++ ((d ++ slash :: l) ++ 0 :: rest)) pre.length =
      (.ptr pre.length, pre ++ (d ++ 0 :: (l ++ 0 :: rest))) := by
  have h0 : (0 : UInt8) ∉ d ++ slash :: l := by
    simp [hd0, hl0, slash]
  have hdpos : 0 < d.length := List.length_pos_iff.mpr hd
  have hlpos : 0 < l.length := List.length_pos_iff.mpr hl
  have hlen : (d ++ slash :: l).length = d.length + 1 + l.length := by
    rw [List.length_append, List.length_cons]
    omega
  -- what stands at each index of the string
  have hbody : ∀ i (hi : i < (d ++ slash :: l).length),
      byteAt (pre ++ ((d ++ slash :: l) ++ 0 :: rest)) (pre.length + i) = (d ++ slash :: l)[i] :=
    fun i hi => byteAt_body hi
  have hafter : ∀ i, d.length < i → i ≤ d.length + l.length →
      byteAt (pre ++ ((d ++ slash :: l) ++ 0 :: rest)) (pre.length + i) ≠ slash := by
    intro i h1 h2 h
    rw [hbody i (by omega), List.getElem_append_right (by omega)] at h
    obtain ⟨m, rfl⟩ : ∃ m, i = d.length + (m + 1) := ⟨i - d.length - 1, by omega⟩
    simp only [Nat.add_sub_cancel_left, List.getElem_cons_succ] at h
    exact hls (h ▸ List.getElem_mem _)
  have hslash : byteAt (pre ++ ((d ++ slash :: l) ++ 0 :: rest)) (pre.length + d.length) =
      slash := by
    rw [hbody d.length (by omega), List.getElem_append_right le_rfl]
    simp
  have hfirst : byteAt (pre ++ ((d ++ slash :: l) ++ 0 :: rest)) pre.length ≠ 0 := by
    have h := hbody 0 (by omega)
    rw [Nat.add_zero] at h
    rw [h]
    exact fun h => h0 (h ▸ List.getElem_mem _)
  have hlast : (d ++ slash :: l).length - 1 = d.length + l.length := by omega
  rw [dirname, if_neg hfirst, strlen_body h0, hlast,
    trimSlashes_of_ne (hafter _ (by omega) le_rfl)]
  simp only
  rw [lastSlash_eq_some (by omega) hslash hafter]
  obtain ⟨n, hn⟩ : ∃ n, d.length = n + 1 := ⟨d.length - 1, by omega⟩
  simp only [hn]
  rw [← hn]
  simp [List.set_append_right]

end Cases

end StardustOS.Libc
