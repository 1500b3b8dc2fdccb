import Mathlib.Algebra.Order.BigOperators.Group.List
import StardustOS.Libc.Digits

/-!
# `vsnprintf`

The output of `vsnprintf` goes to the memory from `str` on, by an index `wrote`
that also counts what there is no room for.

A format is looked at in two ways: as the bytes that `vsnprintf` walks over, and
as a list of pieces, literal characters and conversions.  `render` goes over the
pieces with a text for each conversion, either the standard one or the one the
code stores.  `vsnprintfLoop_pieces` says that the code stores its own; the two
agree for `%d` and `%s` and for no other conversion of the list
(`formatRight_iff`):

* `%c` stores the conversion character and not the argument;
* `%o` and `%x` convert in base ten;
* `%lu` and `%ld` leave the `u` and the `d` to be printed, and `%ld` does not look
  at the sign.
-/

namespace StardustOS.Libc

/-! ## The source -/

/-- What is passed for a conversion.  A number is one word.  A `double` is given by
the bytes that `strncpy` stores of the text `ftoa` makes of it. -/
inductive Arg
  | word (w : UInt32)
  | string (s : Option CStr)
  | double (text : List UInt8)

/-- `va_arg` of an `int`, an `unsigned int` or one of the `long` types. -/
def vaWord : List Arg → Option (UInt32 × List Arg)
  | .word w :: ap => some (w, ap)
  | _ => none

/-- `va_arg` of a `char*`. -/
def vaString : List Arg → Option (Option CStr × List Arg)
  | .string s :: ap => some (s, ap)
  | _ => none

/-- `va_arg` of a `double`. -/
def vaDouble : List Arg → Option (List UInt8 × List Arg)
  | .double text :: ap => some (text, ap)
  | _ => none

/-- A byte is stored. -/
def setByte (mem : Nat → UInt8) (i : Nat) (c : UInt8) : Nat → UInt8 :=
  fun j => if j = i then c else mem j

/-- `strncpy`.  The string ends where the list does, and from there on the rest of
the count is filled with NULs. -/
def strncpy (mem : Nat → UInt8) (dst : Nat) (src : List UInt8) : Nat → Nat → UInt8
  | 0 => mem
  | count + 1 => strncpy (setByte mem dst (deref src)) (dst + 1) src.tail count

/-- The memory from `str` on and the value of `wrote`. -/
structure Output where
  mem : Nat → UInt8
  wrote : Nat

namespace Output

/-- `if (wrote < size) str[wrote] = c; wrote++;` -/
def put (size : Nat) (c : UInt8) (o : Output) : Output where
  mem := if o.wrote < size then setByte o.mem o.wrote c else o.mem
  wrote := o.wrote + 1

/-- `if (wrote < size) strncpy((char*)(str + wrote), s, strlen(s)); wrote += strlen(s);` -/
def puts (size : Nat) (s : List UInt8) (o : Output) : Output where
  mem := if o.wrote < size then strncpy o.mem o.wrote s s.length else o.mem
  wrote := o.wrote + s.length

end Output

/-- The `switch` at the character `k` after a `%`, with the character after it.  A
character without a case is left out. -/
def conversion (size : Nat) (k next : UInt8) (ap : List Arg) (o : Output) :
    Option (List Arg × Output) :=
  if k = ascii 'c' then do
    let (_, ap) ← vaWord ap
    some (ap, o.put size k)
  else if k = ascii 'd' then do
    let (w, ap) ← vaWord ap
    let i := w.toInt32
    let s ← convert (if i < 0 then (-i).toUInt32 else i.toUInt32) 10
    some (ap, (if i < 0 then o.put size (ascii '-') else o).puts size s)
  else if k = ascii 'o' then do
    let (si, ap) ← vaWord ap
    let s ← convert si 10
    some (ap, o.puts size s)
  else if k = ascii 's' then do
    let (s, ap) ← vaString ap
    some (ap, o.puts size (match s with
      | none => asciiText "(null)".toList
      | some s => s.1))
  else if k = ascii 'x' then do
    let (si, ap) ← vaWord ap
    let s ← convert si 10
    some (ap, o.puts size s)
  else if k = ascii 'f' then do
    let (text, ap) ← vaDouble ap
    some (ap, o.puts size text)
  else if k = ascii 'l' then
    if next = ascii 'u' then do
      let (lu, ap) ← vaWord ap
      let s ← convert lu 10
      some (ap, o.puts size s)
    else do
      let (l, ap) ← vaWord ap
      let s ← convert l 10
      some (ap, o.puts size s)
  else if k = ascii '%' then some (ap, o.put size (ascii '%'))
  else some (ap, o)

/-- The loops of `vsnprintf` over the format.  After a `%` at the end the next step
of `traverse` is past the NUL. -/
def vsnprintfLoop (size : Nat) : List UInt8 → List Arg → Output → Option (List Arg × Output)
  | [], ap, o => some (ap, o)
  | [c], ap, o => if c ≠ ascii '%' then some (ap, o.put size c) else none
  | c :: k :: rest, ap, o =>
      if c ≠ ascii '%' then vsnprintfLoop size (k :: rest) ap (o.put size c)
      else (conversion size k (deref rest) ap o).bind fun (ap, o) => vsnprintfLoop size rest ap o

/-- What a call leaves: the memory from `str` on, the arguments not taken and the
result. -/
structure Printed where
  mem : Nat → UInt8
  ap : List Arg
  ret : Int

/-- `vsnprintf`, with a format that ends where the list does. -/
def vsnprintf (mem : Nat → UInt8) (size : Nat) (format : List UInt8) (ap : List Arg) :
    Option Printed := do
  let (ap, o) ← vsnprintfLoop size format ap ⟨mem, 0⟩
  some ⟨setByte o.mem o.wrote 0, ap, (o.wrote : Int) - 1⟩

/-! ## Texts in memory -/

/-- Bytes are stored one after the other. -/
def store (mem : Nat → UInt8) : Nat → List UInt8 → Nat → UInt8
  | _, [] => mem
  | i, c :: cs => store (setByte mem i c) (i + 1) cs

theorem store_append (mem : Nat → UInt8) (i : Nat) (s t : List UInt8) :
    store mem i (s ++ t) = store (store mem i s) (i + s.length) t := by
  induction s generalizing mem i with
  | nil => rfl
  | cons c s ih => rw [List.cons_append, store, store, ih, List.length_cons, Nat.add_right_comm,
      Nat.add_assoc]

theorem strncpy_length (mem : Nat → UInt8) (i : Nat) (s : List UInt8) :
    strncpy mem i s s.length = store mem i s := by
  induction s generalizing mem i with
  | nil => rfl
  | cons c s ih => exact ih _ _

theorem store_apply (mem : Nat → UInt8) (i : Nat) (s : List UInt8) (j : Nat) :
    store mem i s j = if i ≤ j then s.getD (j - i) (mem j) else mem j := by
  induction s generalizing mem i with
  | nil => simp [store]
  | cons c s ih =>
      rw [store, ih, setByte]
      rcases Nat.lt_trichotomy j i with hlt | rfl | hgt
      · rw [if_neg (by omega), if_neg (by omega), if_neg (by omega)]
      · rw [if_neg (by omega), if_pos rfl, if_pos le_rfl, Nat.sub_self, List.getD_cons_zero]
      · obtain ⟨d, rfl⟩ := Nat.exists_eq_add_of_lt hgt
        rw [if_pos (by omega), if_neg (by omega), if_pos (by omega),
          show i + d + 1 - (i + 1) = d by omega, show i + d + 1 - i = d + 1 by omega,
          List.getD_cons_succ]

/-- What is stored over every memory alike is the same text. -/
theorem store_inj {s t : List UInt8} (h : ∀ mem, store mem 0 s = store mem 0 t) : s = t := by
  have hbyte : ∀ (j : Nat) (d : UInt8), s.getD j d = t.getD j d := by
    intro j d
    have hj := congrFun (h fun _ => d) j
    simpa [store_apply] using hj
  refine List.ext_getElem? fun j => ?_
  have h0 := hbyte j 0
  have h1 := hbyte j 1
  rw [List.getD_eq_getElem?_getD, List.getD_eq_getElem?_getD] at h0 h1
  cases hs : s[j]? with
  | none =>
      cases ht : t[j]? with
      | none => rfl
      | some d =>
          rw [hs, ht] at h0 h1
          exact absurd (h0.trans h1.symm) (by decide)
  | some c =>
      cases ht : t[j]? with
      | none =>
          rw [hs, ht] at h0 h1
          exact absurd (h0.symm.trans h1) (by decide)
      | some d =>
          rw [hs, ht] at h0
          exact congrArg some h0

/-- A text is added to the output. -/
def Output.add (s : List UInt8) (o : Output) : Output := ⟨store o.mem o.wrote s, o.wrote + s.length⟩

namespace Output

variable {size : Nat} {o : Output} {c : UInt8} {s t : List UInt8}

theorem add_append : o.add (s ++ t) = (o.add s).add t := by
  simp [add, store_append, Nat.add_assoc]

theorem put_eq_add (h : o.wrote < size) : o.put size c = o.add [c] := by
  simp [put, add, h, store]

theorem puts_eq_add (h : o.wrote < size) : o.puts size s = o.add s := by
  simp [puts, add, h, strncpy_length]

end Output

/-! ## Formats as pieces -/

/-- A conversion. -/
inductive Conv
  | c | d | o | x | s | lu | ld
deriving DecidableEq

/-- The characters of a conversion after the `%`. -/
def Conv.bytes : Conv → List UInt8
  | .c => asciiText ['c']
  | .d => asciiText ['d']
  | .o => asciiText ['o']
  | .x => asciiText ['x']
  | .s => asciiText ['s']
  | .lu => asciiText ['l', 'u']
  | .ld => asciiText ['l', 'd']

/-- The standard rendering of an argument, if its type is the one the conversion
takes. -/
def Conv.standard : Conv → Arg → Option (List UInt8)
  | .c, .word w => some [w.toUInt8]
  | .d, .word w => some (signedText w.toInt32.toInt)
  | .o, .word w => some (unsignedText 8 w.toNat)
  | .x, .word w => some (unsignedText 16 w.toNat)
  | .s, .string none => some (asciiText "(null)".toList)
  | .s, .string (some text) => some text.1
  | .lu, .word w => some (unsignedText 10 w.toNat)
  | .ld, .word w => some (signedText w.toInt32.toInt)
  | _, _ => none

/-- What `vsnprintf` stores for an argument of that type. -/
def Conv.stored : Conv → Arg → Option (List UInt8)
  | .c, .word _ => some [ascii 'c']
  | .d, .word w => some (signedText w.toInt32.toInt)
  | .o, .word w => some (unsignedText 10 w.toNat)
  | .x, .word w => some (unsignedText 10 w.toNat)
  | .s, .string none => some (asciiText "(null)".toList)
  | .s, .string (some text) => some text.1
  | .lu, .word w => some (unsignedText 10 w.toNat ++ [ascii 'u'])
  | .ld, .word w => some (unsignedText 10 w.toNat ++ [ascii 'd'])
  | _, _ => none

/-- A part of a format: a character that stands for itself, `%%` or a conversion. -/
inductive Piece
  | lit (c : { c : UInt8 // c ≠ 0 ∧ c ≠ ascii '%' })
  | percent
  | conv (k : Conv)

/-- The characters of a piece. -/
def Piece.bytes : Piece → List UInt8
  | .lit c => [c.1]
  | .percent => asciiText ['%', '%']
  | .conv k => ascii '%' :: k.bytes

/-- The format with the pieces. -/
def formatBytes (ps : List Piece) : List UInt8 := ps.flatMap Piece.bytes

/-- The pieces with a text for each conversion.  Every conversion takes one argument
of its type, and there are no others. -/
def render (text : Conv → Arg → Option (List UInt8)) : List Piece → List Arg → Option (List UInt8)
  | [], [] => some []
  | [], _ :: _ => none
  | .lit c :: ps, as => (render text ps as).map (c.1 :: ·)
  | .percent :: ps, as => (render text ps as).map (ascii '%' :: ·)
  | .conv _ :: _, [] => none
  | .conv k :: ps, a :: as => do
      let s ← text k a
      let t ← render text ps as
      some (s ++ t)

/-! ## What is stored -/

theorem toInt_eq_toNat (i : Int32) :
    i.toInt = if 2 * i.toUInt32.toNat < 2 ^ 32 then (i.toUInt32.toNat : Int)
      else (i.toUInt32.toNat : Int) - 2 ^ 32 :=
  BitVec.toInt_eq_toNat_cond i.toBitVec

/-- The minimum is its own negative, and read without sign it is right. -/
theorem toNat_toUInt32_neg {i : Int32} (h : i.toInt < 0) :
    (-i).toUInt32.toNat = i.toInt.natAbs := by
  have hneg : (-i).toUInt32.toNat = (2 ^ 32 - i.toUInt32.toNat) % 2 ^ 32 :=
    BitVec.toNat_neg i.toBitVec
  have hlt := i.toUInt32.toNat_lt
  have hcond := toInt_eq_toNat i
  split at hcond
  · omega
  · omega

theorem toNat_toUInt32 {i : Int32} (h : 0 ≤ i.toInt) : i.toUInt32.toNat = i.toInt.natAbs := by
  have hlt := i.toUInt32.toNat_lt
  have hcond := toInt_eq_toNat i
  split at hcond
  · omega
  · omega

/-- The digits that `%d` prints after the sign. -/
theorem convert_abs (i : Int32) :
    convert (if i < 0 then (-i).toUInt32 else i.toUInt32) 10 =
      some (unsignedText 10 i.toInt.natAbs) := by
  rw [convert_ten]
  split
  · rw [toNat_toUInt32_neg (Int32.lt_iff_toInt_lt.mp ‹_›)]
  · rename_i hneg
    rw [Int32.lt_iff_toInt_lt, Int32.toInt_zero] at hneg
    rw [toNat_toUInt32 (Int.not_lt.mp hneg)]

theorem loop_lit {size : Nat} {c : UInt8} (hc : c ≠ ascii '%') (rest : List UInt8)
    (ap : List Arg) (o : Output) :
    vsnprintfLoop size (c :: rest) ap o = vsnprintfLoop size rest ap (o.put size c) := by
  cases rest with
  | nil => simp [vsnprintfLoop, hc]
  | cons k rest => simp [vsnprintfLoop, hc]

theorem loop_conversion {size : Nat} {k : UInt8} {rest : List UInt8} {ap ap' : List Arg}
    {o o' : Output} (h : conversion size k (deref rest) ap o = some (ap', o')) :
    vsnprintfLoop size (ascii '%' :: k :: rest) ap o = vsnprintfLoop size rest ap' o' := by
  simp [vsnprintfLoop, h]

section Conversion

variable {size : Nat} {next : UInt8} {ap : List Arg} {o : Output}

theorem conversion_c (w : UInt32) :
    conversion size (ascii 'c') next (.word w :: ap) o = some (ap, o.put size (ascii 'c')) :=
  rfl

theorem conversion_d (w : UInt32) :
    conversion size (ascii 'd') next (.word w :: ap) o =
      some (ap, (if w.toInt32 < 0 then o.put size (ascii '-') else o).puts size
        (unsignedText 10 w.toInt32.toInt.natAbs)) := by
  show (convert _ 10).bind _ = _
  rw [convert_abs]
  rfl

theorem conversion_o (w : UInt32) :
    conversion size (ascii 'o') next (.word w :: ap) o =
      some (ap, o.puts size (unsignedText 10 w.toNat)) := by
  show (convert w 10).bind _ = _
  rw [convert_ten]
  rfl

theorem conversion_x (w : UInt32) :
    conversion size (ascii 'x') next (.word w :: ap) o =
      some (ap, o.puts size (unsignedText 10 w.toNat)) := by
  show (convert w 10).bind _ = _
  rw [convert_ten]
  rfl

/-- Both `long` conversions print the word as it is. -/
theorem conversion_l (w : UInt32) :
    conversion size (ascii 'l') next (.word w :: ap) o =
      some (ap, o.puts size (unsignedText 10 w.toNat)) := by
  show (if next = ascii 'u' then (convert w 10).bind _ else (convert w 10).bind _) = _
  rw [convert_ten, ite_self]
  rfl

theorem conversion_s (s : Option CStr) :
    conversion size (ascii 's') next (.string s :: ap) o =
      some (ap, o.puts size (match s with
        | none => asciiText "(null)".toList
        | some s => s.1)) :=
  rfl

end Conversion

/-- A sign and the digits are one text. -/
theorem add_signedText {size : Nat} {i : Int32} {o : Output}
    (hfit : o.wrote + (signedText i.toInt).length < size) :
    (if i < 0 then o.put size (ascii '-') else o).puts size (unsignedText 10 i.toInt.natAbs) =
      o.add (signedText i.toInt) := by
  rw [signedText] at hfit ⊢
  by_cases hneg : i.toInt < 0
  · rw [if_pos hneg, List.length_cons] at hfit
    rw [if_pos hneg, if_pos (Int32.lt_iff_toInt_lt.mpr hneg), Output.put_eq_add (by omega),
      Output.puts_eq_add (by simp only [Output.add, List.length_singleton]; omega),
      ← Output.add_append]
    rfl
  · rw [if_neg hneg] at hfit
    rw [if_neg hneg, if_neg (mt Int32.lt_iff_toInt_lt.mp hneg), Output.puts_eq_add (by omega)]

/-- A conversion stores its text and takes its argument. -/
theorem loop_conv {size : Nat} {k : Conv} {a : Arg} {s : List UInt8} (hs : k.stored a = some s)
    (rest : List UInt8) (ap : List Arg) (o : Output) (hfit : o.wrote + s.length < size) :
    vsnprintfLoop size (ascii '%' :: (k.bytes ++ rest)) (a :: ap) o =
      vsnprintfLoop size rest ap (o.add s) := by
  have hw : o.wrote < size := by omega
  cases a with
  | word w =>
      cases k with
      | c =>
          cases hs
          show vsnprintfLoop size (ascii '%' :: ascii 'c' :: rest) _ o = _
          rw [loop_conversion (conversion_c w), Output.put_eq_add hw]
      | d =>
          cases hs
          show vsnprintfLoop size (ascii '%' :: ascii 'd' :: rest) _ o = _
          rw [loop_conversion (conversion_d w), add_signedText hfit]
      | o =>
          cases hs
          show vsnprintfLoop size (ascii '%' :: ascii 'o' :: rest) _ o = _
          rw [loop_conversion (conversion_o w), Output.puts_eq_add hw]
      | x =>
          cases hs
          show vsnprintfLoop size (ascii '%' :: ascii 'x' :: rest) _ o = _
          rw [loop_conversion (conversion_x w), Output.puts_eq_add hw]
      | s => cases hs
      | lu =>
          cases hs
          rw [List.length_append, List.length_singleton] at hfit
          show vsnprintfLoop size (ascii '%' :: ascii 'l' :: ascii 'u' :: rest) _ o = _
          rw [loop_conversion (conversion_l w), loop_lit (by decide),
            Output.puts_eq_add hw, Output.put_eq_add (by simp only [Output.add]; omega),
            Output.add_append]
      | ld =>
          cases hs
          rw [List.length_append, List.length_singleton] at hfit
          show vsnprintfLoop size (ascii '%' :: ascii 'l' :: ascii 'd' :: rest) _ o = _
          rw [loop_conversion (conversion_l w), loop_lit (by decide),
            Output.puts_eq_add hw, Output.put_eq_add (by simp only [Output.add]; omega),
            Output.add_append]
  | string t =>
      cases k with
      | s =>
          show vsnprintfLoop size (ascii '%' :: ascii 's' :: rest) _ o = _
          rw [loop_conversion (conversion_s t), Output.puts_eq_add hw]
          cases t <;> cases hs <;> rfl
      | _ => cases hs
  | double text => cases k <;> cases hs

/-- The code stores its text of the pieces, when there is room for it, and takes the
arguments. -/
theorem vsnprintfLoop_pieces {size : Nat} {ps : List Piece} {args : List Arg} {s : List UInt8}
    (hs : render Conv.stored ps args = some s) (o : Output) (hfit : o.wrote + s.length < size) :
    vsnprintfLoop size (formatBytes ps) args o = some ([], o.add s) := by
  induction ps generalizing args s o with
  | nil =>
      cases args with
      | nil =>
          cases hs
          rfl
      | cons a args => cases hs
  | cons p ps ih =>
      cases p with
      | lit c =>
          obtain ⟨t, ht, rfl⟩ := Option.map_eq_some_iff.mp hs
          rw [List.length_cons] at hfit
          show vsnprintfLoop size (c.1 :: formatBytes ps) args o = _
          rw [loop_lit c.2.2, Output.put_eq_add (by omega),
            ih ht _ (by simp only [Output.add, List.length_singleton]; omega), ← Output.add_append]
          rfl
      | percent =>
          obtain ⟨t, ht, rfl⟩ := Option.map_eq_some_iff.mp hs
          rw [List.length_cons] at hfit
          show vsnprintfLoop size (ascii '%' :: ascii '%' :: formatBytes ps) args o = _
          have hconv : conversion size (ascii '%') (deref (formatBytes ps)) args o =
              some (args, o.put size (ascii '%')) := rfl
          rw [loop_conversion hconv, Output.put_eq_add (by omega),
            ih ht _ (by simp only [Output.add, List.length_singleton]; omega), ← Output.add_append]
          rfl
      | conv k =>
          cases args with
          | nil => cases hs
          | cons a args =>
              obtain ⟨t, ht, hs⟩ := Option.bind_eq_some_iff.mp hs
              obtain ⟨u, hu, hs⟩ := Option.bind_eq_some_iff.mp hs
              cases hs
              rw [List.length_append] at hfit
              show vsnprintfLoop size (ascii '%' :: (k.bytes ++ formatBytes ps)) _ o = _
              rw [loop_conv ht _ _ _ (by omega),
                ih hu _ (by simp only [Output.add]; omega), ← Output.add_append]

/-- With a buffer large enough the code stores its text and a NUL. -/
theorem vsnprintf_pieces {size : Nat} {ps : List Piece} {args : List Arg} {s : List UInt8}
    (hs : render Conv.stored ps args = some s) (mem : Nat → UInt8) (hfit : s.length < size) :
    vsnprintf mem size (formatBytes ps) args =
      some ⟨store mem 0 (s ++ [0]), [], (s.length : Int) - 1⟩ := by
  rw [vsnprintf, vsnprintfLoop_pieces hs ⟨mem, 0⟩ (by simpa using hfit)]
  simp [Output.add, store_append, store]

/-! ## Which formats are right -/

/-- For all arguments of the types that the conversions take, in every buffer large
enough, the standard rendering and a NUL are stored and every argument is taken. -/
def FormatRight (ps : List Piece) : Prop :=
  ∀ (args : List Arg) (s : List UInt8), render Conv.standard ps args = some s →
    ∀ (mem : Nat → UInt8) (size : Nat), s.length < size →
      ∃ ret, vsnprintf mem size (formatBytes ps) args = some ⟨store mem 0 (s ++ [0]), [], ret⟩

/-- The conversions that are printed as they should be. -/
def Conv.Good (k : Conv) : Prop := k = .d ∨ k = .s

/-- Every conversion of the format is `%d` or `%s`. -/
def OnlyGood (ps : List Piece) : Prop := ∀ k : Conv, .conv k ∈ ps → k.Good

theorem stored_eq_standard {k : Conv} (h : k.Good) (a : Arg) : k.stored a = k.standard a := by
  rcases h with rfl | rfl
  · cases a <;> rfl
  · cases a with
    | string t => cases t <;> rfl
    | _ => rfl

theorem render_stored {ps : List Piece} (h : OnlyGood ps) (args : List Arg) :
    render Conv.stored ps args = render Conv.standard ps args := by
  induction ps generalizing args with
  | nil => cases args <;> rfl
  | cons p ps ih =>
      have hps := ih fun k hk => h k (List.mem_cons_of_mem _ hk)
      cases p with
      | lit c => rw [render, render, hps]
      | percent => rw [render, render, hps]
      | conv k =>
          cases args with
          | nil => rfl
          | cons a args =>
              rw [render, render, hps, stored_eq_standard (h k List.mem_cons_self)]

/-! A format with another conversion is not right for the arguments of `probe`: the
text that is stored then has a larger sum of bytes than the standard one. -/

/-- An argument that a wrong conversion shows itself with. -/
def Conv.probe : Conv → Arg
  | .c => .word 97
  | .o | .x => .word 19
  | .s => .string none
  | _ => .word 0

/-- The sum of the bytes of a text. -/
def weight (s : List UInt8) : Nat := (s.map UInt8.toNat).sum

theorem weight_append (s t : List UInt8) : weight (s ++ t) = weight s + weight t := by
  simp [weight]

theorem weight_cons (c : UInt8) (s : List UInt8) : weight (c :: s) = c.toNat + weight s := rfl

/-- A letter too many makes a text heavier. -/
theorem weight_lt_concat {c : UInt8} (hc : 0 < c.toNat) (s : List UInt8) :
    weight s < weight (s ++ [c]) := by
  rw [weight_append, weight_cons]
  omega

theorem weight_text_19 : weight (unsignedText 8 19) = 101 ∧ weight (unsignedText 16 19) = 100 ∧
    weight (unsignedText 10 19) = 106 := by
  simp [weight, unsignedText, numeral, digit]

theorem probe_texts (k : Conv) : ∃ s t, k.standard k.probe = some s ∧ k.stored k.probe = some t ∧
    weight s ≤ weight t ∧ (weight s = weight t → k.Good) := by
  obtain ⟨h8, h16, h10⟩ := weight_text_19
  cases k with
  | c => exact ⟨[97], [99], rfl, rfl, by decide, fun h => absurd h (by decide)⟩
  | d => exact ⟨_, _, rfl, rfl, le_rfl, fun _ => Or.inl rfl⟩
  | o =>
      refine ⟨unsignedText 8 19, unsignedText 10 19, rfl, rfl, ?_, ?_⟩
      · omega
      · omega
  | x =>
      refine ⟨unsignedText 16 19, unsignedText 10 19, rfl, rfl, ?_, ?_⟩
      · omega
      · omega
  | s => exact ⟨_, _, rfl, rfl, le_rfl, fun _ => Or.inr rfl⟩
  | lu =>
      have hlt := weight_lt_concat (c := ascii 'u') (by decide) (unsignedText 10 0)
      exact ⟨_, _, rfl, rfl, hlt.le, fun h => absurd h hlt.ne⟩
  | ld =>
      have hlt := weight_lt_concat (c := ascii 'd') (by decide) (unsignedText 10 0)
      exact ⟨_, _, rfl, rfl, hlt.le, fun h => absurd h hlt.ne⟩

/-- The two texts of a format, with arguments for which they weigh the same only if
every conversion is good. -/
def Probed (ps : List Piece) (args : List Arg) (s t : List UInt8) : Prop :=
  render Conv.standard ps args = some s ∧ render Conv.stored ps args = some t ∧
    weight s ≤ weight t ∧ (weight s = weight t → OnlyGood ps)

/-- A piece that is printed as one character changes nothing. -/
theorem Probed.cons {ps : List Piece} {args : List Arg} {s t : List UInt8}
    (h : Probed ps args s t) {p : Piece} {c : UInt8}
    (hp : ∀ text, render text (p :: ps) args = (render text ps args).map (c :: ·))
    (hk : ∀ k, p ≠ .conv k) : Probed (p :: ps) args (c :: s) (c :: t) := by
  obtain ⟨hs, ht, hle, hgood⟩ := h
  refine ⟨by rw [hp, hs]; rfl, by rw [hp, ht]; rfl, ?_, ?_⟩
  · simpa only [weight_cons, Nat.add_le_add_iff_left] using hle
  · intro h k hmem
    rw [weight_cons, weight_cons, Nat.add_left_cancel_iff] at h
    exact hgood h k ((List.mem_cons.mp hmem).resolve_left (hk k).symm)

theorem exists_probed (ps : List Piece) : ∃ args s t, Probed ps args s t := by
  induction ps with
  | nil => exact ⟨[], [], [], rfl, rfl, le_rfl, fun _ k hk => absurd hk List.not_mem_nil⟩
  | cons p ps ih =>
      obtain ⟨args, s, t, h⟩ := ih
      cases p with
      | lit c => exact ⟨_, _, _, h.cons (fun _ => rfl) nofun⟩
      | percent => exact ⟨_, _, _, h.cons (fun _ => rfl) nofun⟩
      | conv k =>
          obtain ⟨hs, ht, hle, hgood⟩ := h
          obtain ⟨u, v, hu, hv, hkle, hkgood⟩ := probe_texts k
          refine ⟨k.probe :: args, u ++ s, v ++ t, by rw [render, hu, hs]; rfl,
            by rw [render, hv, ht]; rfl, ?_, ?_⟩
          · rw [weight_append, weight_append]
            omega
          · rw [weight_append, weight_append]
            intro h k' hk'
            rcases List.mem_cons.mp hk' with hhead | htail
            · cases hhead
              exact hkgood (by omega)
            · exact hgood (by omega) k' htail

/-- A format is right exactly when all its conversions are `%d` and `%s`. -/
theorem formatRight_iff (ps : List Piece) : FormatRight ps ↔ OnlyGood ps := by
  constructor
  · intro h
    obtain ⟨args, s, t, hs, ht, -, hgood⟩ := exists_probed ps
    -- a buffer with room for either text
    have hstore : ∀ mem, store mem 0 (s ++ [0]) = store mem 0 (t ++ [0]) := by
      intro mem
      obtain ⟨ret, hret⟩ := h args s hs mem (s.length + t.length + 1) (by omega)
      rw [vsnprintf_pieces ht mem (by omega)] at hret
      exact (congrArg Printed.mem (Option.some.inj hret)).symm
    have hst : s = t := List.append_cancel_right (store_inj hstore)
    exact hgood (congrArg weight hst)
  · intro h args s hs mem size hsize
    rw [← render_stored h] at hs
    exact ⟨_, vsnprintf_pieces hs mem hsize⟩

/-- `%x` of 255 prints `255`. -/
theorem not_formatRight : ¬ ∀ ps, FormatRight ps := by
  intro h
  have hstd : unsignedText 16 255 = asciiText "ff".toList := by
    simp [unsignedText, numeral, digit, asciiText, ascii]
  obtain ⟨ret, hret⟩ := h [.conv .x] [.word 255] (unsignedText 16 255 ++ []) rfl (fun _ => 0) 8
    (by rw [hstd]; decide)
  have hcode : (vsnprintf (fun _ => 0) 8 (formatBytes [.conv .x]) [.word 255]).map
      (fun p => p.mem 0) = some (ascii '2') := by decide
  rw [hret, hstd] at hcode
  have hbyte : store (fun _ => 0) 0 (asciiText "ff".toList ++ [] ++ [0]) 0 = ascii '2' :=
    Option.some.inj hcode
  exact absurd hbyte (by decide)

end StardustOS.Libc
