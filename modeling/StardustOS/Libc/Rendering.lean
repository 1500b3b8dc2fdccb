import StardustOS.Libc.Vsnprintf

/-!
# Formatting into a buffer

`rendering` is what `vsnprintf` makes of a format and its arguments, as a text without a
buffer.  It is not defined when a conversion lacks its argument, or when a `%` is the last
character.

`vsnprintf` looks at the size when it begins with a part of the text, and stores the whole
part then, and it stores the NUL behind the full text.  So the bytes that fit are those of
the text in any case (`vsnprintf_shows`), but nothing is stored past the buffer only when
the full text is shorter than it (`keepsBuffer_iff`).
-/

namespace StardustOS.Libc

/-! ## The text -/

/-- The text of the conversion `k`, with the character after it. -/
def convText (k : UInt8) (ap : List Arg) : Option (List Arg × List UInt8) :=
  if k = ascii 'c' then (vaWord ap).map fun (_, ap) => (ap, [k])
  else if k = ascii 'd' then (vaWord ap).map fun (w, ap) => (ap, signedText w.toInt32.toInt)
  else if k = ascii 'o' ∨ k = ascii 'x' ∨ k = ascii 'l' then
    (vaWord ap).map fun (w, ap) => (ap, unsignedText 10 w.toNat)
  else if k = ascii 's' then
    (vaString ap).map fun (s, ap) =>
      (ap, match s with
        | none => asciiText "(null)".toList
        | some s => s.1)
  else if k = ascii 'f' then (vaDouble ap).map fun (text, ap) => (ap, text)
  else if k = ascii '%' then some (ap, [k])
  else some (ap, [])

/-- The full text of a format, and the arguments not taken. -/
def textOf : List UInt8 → List Arg → Option (List Arg × List UInt8)
  | [], ap => some (ap, [])
  | [c], ap => if c ≠ ascii '%' then some (ap, [c]) else none
  | c :: k :: rest, ap =>
      if c ≠ ascii '%' then (textOf (k :: rest) ap).map fun (ap, t) => (ap, c :: t)
      else (convText k ap).bind fun (ap, s) => (textOf rest ap).map fun (ap, t) => (ap, s ++ t)

/-- The full rendering of a format. -/
def rendering (format : List UInt8) (ap : List Arg) : Option (List UInt8) :=
  (textOf format ap).map Prod.snd

/-- `vsnprintf`, with `wrote` an `int`, which is undefined beyond the largest one. -/
def vsnprintf32 (mem : Nat → UInt8) (size : Nat) (format : List UInt8) (ap : List Arg) :
    Option Printed :=
  (vsnprintf mem size format ap).filter fun p => p.ret + 1 < 2147483648

/-- Whatever was in memory, only the buffer is stored to, and it then holds as much of the
full rendering as fits, and a NUL. -/
def KeepsBuffer (size : Nat) (format : List UInt8) (ap : List Arg) : Prop :=
  ∀ mem, ∃ s p, rendering format ap = some s ∧ vsnprintf32 mem size format ap = some p ∧
    (∀ j, size ≤ j → p.mem j = mem j) ∧
    (∀ j < min s.length (size - 1), p.mem j = s.getD j 0) ∧ p.mem (min s.length (size - 1)) = 0

/-! ## What is stored -/

section Shows

variable {size : Nat} {mem : Nat → UInt8} {s t : List UInt8} {o : Output} {c : UInt8}

/-- The text `s` was printed: its bytes below the size are there, and nothing behind it has
changed. -/
structure Shows (size : Nat) (mem : Nat → UInt8) (s : List UInt8) (o : Output) : Prop where
  wrote : o.wrote = s.length
  text : ∀ j < s.length, j < size → o.mem j = s.getD j 0
  rest : ∀ j, s.length ≤ j → o.mem j = mem j

theorem Shows.nil (size : Nat) (mem : Nat → UInt8) : Shows size mem [] ⟨mem, 0⟩ where
  wrote := rfl
  text := fun j hj => absurd hj (Nat.not_lt_zero j)
  rest := fun _ _ => rfl

/-- A part is stored as a whole, or it begins past the buffer. -/
theorem Shows.puts (h : Shows size mem s o) (t : List UInt8) :
    Shows size mem (s ++ t) (o.puts size t) where
  wrote := by simp [Output.puts, h.wrote]
  text := by
    intro j hj hsize
    rw [List.length_append] at hj
    simp only [Output.puts, strncpy_length, h.wrote]
    by_cases hfit : s.length < size
    · rw [if_pos hfit, store_apply]
      by_cases hlt : j < s.length
      · rw [if_neg (by omega), h.text j hlt hsize, List.getD_append _ _ _ _ hlt]
      · have hindex : j - s.length < t.length := by omega
        rw [if_pos (by omega), List.getD_append_right _ _ _ _ (by omega),
          List.getD_eq_getElem _ _ hindex, List.getD_eq_getElem _ _ hindex]
    · rw [if_neg hfit, h.text j (by omega) hsize, List.getD_append _ _ _ _ (by omega)]
  rest := by
    intro j hj
    rw [List.length_append] at hj
    simp only [Output.puts, strncpy_length, h.wrote]
    split
    · rw [store_apply, if_pos (by omega), List.getD_eq_default _ _ (by omega), h.rest j (by omega)]
    · exact h.rest j (by omega)

theorem Shows.put (h : Shows size mem s o) (c : UInt8) :
    Shows size mem (s ++ [c]) (o.put size c) := h.puts [c]

end Shows

/-! ## The conversions -/

section Conversion

variable {size : Nat} {mem : Nat → UInt8} {k next : UInt8} {ap ap' : List Arg} {s t : List UInt8}
  {o : Output}

theorem vaWord_eq_some {w : UInt32} (h : vaWord ap = some (w, ap')) : ap = .word w :: ap' := by
  cases ap with
  | nil => cases h
  | cons a ap =>
      cases a with
      | word => cases h; rfl
      | string => cases h
      | double => cases h

theorem vaString_eq_some {x : Option CStr} (h : vaString ap = some (x, ap')) :
    ap = .string x :: ap' := by
  cases ap with
  | nil => cases h
  | cons a ap =>
      cases a with
      | word => cases h
      | string => cases h; rfl
      | double => cases h

theorem vaDouble_eq_some (h : vaDouble ap = some (t, ap')) : ap = .double t :: ap' := by
  cases ap with
  | nil => cases h
  | cons a ap =>
      cases a with
      | word => cases h
      | string => cases h
      | double => cases h; rfl

/-- The character after a `%`: one with a case, or one that is left out. -/
inductive Letter : UInt8 → Prop
  | c : Letter (ascii 'c')
  | d : Letter (ascii 'd')
  | o : Letter (ascii 'o')
  | x : Letter (ascii 'x')
  | l : Letter (ascii 'l')
  | s : Letter (ascii 's')
  | f : Letter (ascii 'f')
  | percent : Letter (ascii '%')
  | other {k : UInt8} (text : ∀ ap, convText k ap = some (ap, []))
      (left : ∀ size next ap o, conversion size k next ap o = some (ap, o)) : Letter k

theorem letter (k : UInt8) : Letter k := by
  by_cases hc : k = ascii 'c'
  · exact hc ▸ .c
  by_cases hd : k = ascii 'd'
  · exact hd ▸ .d
  by_cases ho : k = ascii 'o'
  · exact ho ▸ .o
  by_cases hx : k = ascii 'x'
  · exact hx ▸ .x
  by_cases hl : k = ascii 'l'
  · exact hl ▸ .l
  by_cases hs : k = ascii 's'
  · exact hs ▸ .s
  by_cases hf : k = ascii 'f'
  · exact hf ▸ .f
  by_cases hp : k = ascii '%'
  · exact hp ▸ .percent
  · refine .other (fun ap => ?_) (fun size next ap o => ?_)
    · simp only [convText, hc, hd, ho, hx, hl, hs, hf, hp, or_self, if_false]
    · simp only [conversion, hc, hd, ho, hx, hl, hs, hf, hp, if_false]

/-- The text of a conversion that takes a word. -/
theorem word_of_map (text : UInt32 → List UInt8)
    (h : ((vaWord ap).map fun (w, ap) => (ap, text w)) = some (ap', t)) :
    ∃ w, ap = .word w :: ap' ∧ t = text w := by
  obtain ⟨⟨w, _⟩, hw, heq⟩ := Option.map_eq_some_iff.mp h
  cases heq
  exact ⟨w, vaWord_eq_some hw, rfl⟩

/-- A sign and the digits are printed one after the other. -/
theorem shows_signed (h : Shows size mem s o) (i : Int32) :
    Shows size mem (s ++ signedText i.toInt)
      ((if i < 0 then o.put size (ascii '-') else o).puts size
        (unsignedText 10 i.toInt.natAbs)) := by
  rw [signedText]
  by_cases hneg : i.toInt < 0
  · rw [if_pos (Int32.lt_iff_toInt_lt.mpr hneg), if_pos hneg, ← List.singleton_append,
      ← List.append_assoc]
    exact (h.put _).puts _
  · rw [if_neg (mt Int32.lt_iff_toInt_lt.mp hneg), if_neg hneg]
    exact h.puts _

/-- A conversion prints its text. -/
theorem conversion_shows (next : UInt8) (h : convText k ap = some (ap', t))
    (hshows : Shows size mem s o) :
    ∃ o', conversion size k next ap o = some (ap', o') ∧ Shows size mem (s ++ t) o' := by
  cases letter k with
  | c =>
      obtain ⟨w, rfl, rfl⟩ := word_of_map (fun _ => [ascii 'c']) h
      exact ⟨_, conversion_c w, hshows.put _⟩
  | d =>
      obtain ⟨w, rfl, rfl⟩ := word_of_map (fun w => signedText w.toInt32.toInt) h
      exact ⟨_, conversion_d w, shows_signed hshows w.toInt32⟩
  | o =>
      obtain ⟨w, rfl, rfl⟩ := word_of_map (fun w => unsignedText 10 w.toNat) h
      exact ⟨_, conversion_o w, hshows.puts _⟩
  | x =>
      obtain ⟨w, rfl, rfl⟩ := word_of_map (fun w => unsignedText 10 w.toNat) h
      exact ⟨_, conversion_x w, hshows.puts _⟩
  | l =>
      obtain ⟨w, rfl, rfl⟩ := word_of_map (fun w => unsignedText 10 w.toNat) h
      exact ⟨_, conversion_l w, hshows.puts _⟩
  | s =>
      change (vaString ap).map _ = _ at h
      obtain ⟨⟨x, _⟩, hstring, heq⟩ := Option.map_eq_some_iff.mp h
      cases heq
      rw [vaString_eq_some hstring]
      exact ⟨_, conversion_s x, hshows.puts _⟩
  | f =>
      change (vaDouble ap).map _ = _ at h
      obtain ⟨⟨text, _⟩, hdouble, heq⟩ := Option.map_eq_some_iff.mp h
      cases heq
      rw [vaDouble_eq_some hdouble]
      exact ⟨_, rfl, hshows.puts _⟩
  | percent =>
      cases h
      exact ⟨_, rfl, hshows.put _⟩
  | other text left =>
      rw [text] at h
      cases h
      rw [List.append_nil]
      exact ⟨o, left _ _ _ _, hshows⟩

end Conversion

/-! ## The loop -/

section Loop

variable {size : Nat} {mem : Nat → UInt8} {ap' : List Arg}

/-- The loop prints the full text. -/
theorem loop_shows : ∀ {format : List UInt8} {ap : List Arg} {s t : List UInt8} {o : Output},
    textOf format ap = some (ap', t) → Shows size mem s o →
      ∃ o', vsnprintfLoop size format ap o = some (ap', o') ∧ Shows size mem (s ++ t) o'
  | [], _, s, _, o, h, hshows => by
      cases h
      exact ⟨o, rfl, by rwa [List.append_nil]⟩
  | [c], ap, s, t, o, h, hshows => by
      rw [textOf] at h
      by_cases hc : c ≠ ascii '%'
      · rw [if_pos hc] at h
        cases h
        exact ⟨_, by rw [vsnprintfLoop, if_pos hc], hshows.put c⟩
      · rw [if_neg hc] at h
        cases h
  | c :: k :: rest, ap, s, t, o, h, hshows => by
      rw [textOf] at h
      by_cases hc : c ≠ ascii '%'
      · rw [if_pos hc] at h
        obtain ⟨⟨_, u⟩, hu, heq⟩ := Option.map_eq_some_iff.mp h
        cases heq
        obtain ⟨o', ho', hshows'⟩ := loop_shows hu (hshows.put c)
        rw [List.append_assoc] at hshows'
        exact ⟨o', by rwa [vsnprintfLoop, if_pos hc], hshows'⟩
      · rw [if_neg hc] at h
        obtain ⟨⟨ap₁, u⟩, hu, h⟩ := Option.bind_eq_some_iff.mp h
        obtain ⟨⟨_, v⟩, hv, heq⟩ := Option.map_eq_some_iff.mp h
        cases heq
        obtain ⟨o₁, ho₁, hshows₁⟩ := conversion_shows (deref rest) hu hshows
        obtain ⟨o', ho', hshows'⟩ := loop_shows hv hshows₁
        rw [List.append_assoc] at hshows'
        exact ⟨o', by rwa [vsnprintfLoop, if_neg hc, ho₁], hshows'⟩

end Loop

/-! ## `vsnprintf` -/

section Printed

variable {size : Nat} {mem : Nat → UInt8} {format : List UInt8} {ap : List Arg} {s : List UInt8}

/-- What fits is stored, and a NUL behind the full text.  The result is one less than its
length. -/
theorem vsnprintf_shows (h : rendering format ap = some s) (size : Nat) (mem : Nat → UInt8) :
    ∃ o ap', Shows size mem s o ∧
      vsnprintf mem size format ap =
        some ⟨setByte o.mem s.length 0, ap', (s.length : Int) - 1⟩ := by
  obtain ⟨⟨ap', _⟩, ht, rfl⟩ := Option.map_eq_some_iff.mp h
  obtain ⟨o, ho, hshows⟩ := loop_shows ht (.nil size mem)
  rw [List.nil_append] at hshows
  refine ⟨o, ap', hshows, ?_⟩
  rw [vsnprintf, ho, ← hshows.wrote]
  rfl

theorem vsnprintf32_some (h : rendering format ap = some s) (hint : s.length < 2147483648)
    (size : Nat) (mem : Nat → UInt8) : ∃ o ap', Shows size mem s o ∧
      vsnprintf32 mem size format ap =
        some ⟨setByte o.mem s.length 0, ap', (s.length : Int) - 1⟩ := by
  obtain ⟨o, ap', hshows, hret⟩ := vsnprintf_shows h size mem
  refine ⟨o, ap', hshows, ?_⟩
  have hlt : (s.length : Int) - 1 + 1 < 2147483648 := by omega
  rw [vsnprintf32, hret]
  exact Option.filter_some_pos (decide_eq_true hlt)

/-- A text that is too long for an `int` is undefined. -/
theorem vsnprintf32_none (h : rendering format ap = some s) (hint : ¬ s.length < 2147483648)
    (size : Nat) (mem : Nat → UInt8) : vsnprintf32 mem size format ap = none := by
  obtain ⟨o, ap', -, hret⟩ := vsnprintf_shows h size mem
  have hle : ¬ (s.length : Int) - 1 + 1 < 2147483648 := by omega
  rw [vsnprintf32, hret]
  exact Option.filter_some_neg (decide_eq_false hle)

end Printed

/-- `vsnprintf` keeps to its buffer exactly when the format has a full rendering that is
shorter than the buffer, and of a length that an `int` can hold. -/
theorem keepsBuffer_iff (size : Nat) (format : List UInt8) (ap : List Arg) :
    KeepsBuffer size format ap ↔
      ∃ s, rendering format ap = some s ∧ s.length < size ∧ s.length < 2147483648 := by
  constructor
  · intro h
    -- a memory with no NUL in it
    obtain ⟨s, p, hs, hp, hrest, -, -⟩ := h fun _ => 1
    have hint : s.length < 2147483648 := by
      by_contra hint
      rw [vsnprintf32_none hs hint] at hp
      cases hp
    obtain ⟨o, ap', hshows, hret⟩ := vsnprintf32_some hs hint size fun _ => 1
    rw [hret, Option.some.injEq] at hp
    refine ⟨s, hs, ?_, hint⟩
    by_contra hsize
    have hbyte := hrest s.length (Nat.le_of_not_lt hsize)
    rw [← hp] at hbyte
    simp [setByte] at hbyte
  · rintro ⟨s, hs, hsize, hint⟩ mem
    obtain ⟨o, ap', hshows, hret⟩ := vsnprintf32_some hs hint size mem
    have hmin : min s.length (size - 1) = s.length := by omega
    refine ⟨s, _, hs, hret, ?_, ?_, ?_⟩
    · intro j hj
      exact (if_neg (by omega)).trans (hshows.rest j (by omega))
    · intro j hj
      rw [hmin] at hj
      exact (if_neg (by omega)).trans (hshows.text j hj (by omega))
    · rw [hmin]
      exact if_pos rfl

/-- The probe of `vfprintf`, a buffer of one byte, for the format `hi`: the NUL goes two
bytes behind it. -/
theorem not_keepsBuffer_probe :
    (∀ mem, (vsnprintf32 mem 1 (asciiText "hi".toList) []).map (fun p => p.mem 2) = some 0) ∧
      ¬ KeepsBuffer 1 (asciiText "hi".toList) [] := by
  have hmem : ∀ mem, (vsnprintf32 mem 1 (asciiText "hi".toList) []).map (fun p => p.mem 2) =
      some 0 := by
    intro mem
    obtain ⟨o, ap', -, hret⟩ := vsnprintf32_some
      (show rendering (asciiText "hi".toList) [] = some (asciiText "hi".toList) from rfl)
      (by decide) 1 mem
    rw [hret]
    rfl
  refine ⟨hmem, ?_⟩
  intro h
  obtain ⟨s, p, -, hp, hrest, -, -⟩ := h fun _ => 1
  have hzero := hmem fun _ => 1
  rw [hp] at hzero
  have hone : p.mem 2 = 1 := hrest 2 (by omega)
  rw [Option.map_some, hone] at hzero
  cases hzero

end StardustOS.Libc
