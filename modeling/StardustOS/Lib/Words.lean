import Mathlib.Data.UInt
import Mathlib.Tactic.Ring
import StardustOS.Lib.Image
import StardustOS.Lib.LittleEndian

/-!
# Words in memory

Bytes at addresses of 32 bits, and the words of four bytes among them.

`Words` says which words stand in a row from an address on: those of a stack
from the stack pointer on, those of a structure from its base on.  A store
either leaves the row as it was (`Words.store`), or changes one word of it
(`Words.set`), or makes it longer below (`Words.push`).
-/

namespace StardustOS.Lib

/-- The bytes of an address space. -/
abbrev ByteMem := UInt32 → UInt8

/-- The word at an address, the least significant byte first. -/
def load32 (m : ByteMem) (x : UInt32) : UInt32 :=
  UInt32.ofNat (leNat ((List.range 4).map fun i => m (x + UInt32.ofNat i)))

/-- The four bytes of a word are written. -/
def store32 (m : ByteMem) (x v : UInt32) : ByteMem := fun z =>
  if InBlock x 4 z then (leBytes 4 v.toNat).getD (z - x).toNat 0 else m z

/-! ## Blocks -/

theorem offset_zero (x : UInt32) : x + UInt32.ofNat 0 = x := add_zero x

theorem sub_offset (x : UInt32) (d k : Nat) :
    x - UInt32.ofNat (d + k) + UInt32.ofNat d = x - UInt32.ofNat k := by
  rw [UInt32.ofNat_add, add_comm, ← sub_sub, sub_right_comm, add_sub_cancel]

/-- Two blocks have no address in common. -/
def BlocksApart (x : UInt32) (n : Nat) (y : UInt32) (k : Nat) : Prop :=
  ∀ z, InBlock x n z → ¬ InBlock y k z

theorem inBlock_offset {x : UInt32} {n i : Nat} (hi : i < n) (hn : n ≤ 2 ^ 32) :
    InBlock x n (x + UInt32.ofNat i) := by
  rw [InBlock, add_sub_cancel_left, UInt32.toNat_ofNat']
  omega

theorem InBlock.mono {x z : UInt32} {n k : Nat} (h : InBlock x n z) (hnk : n ≤ k) :
    InBlock x k z := Nat.lt_of_lt_of_le h hnk

/-- A block within a larger one. -/
theorem InBlock.within {x z : UInt32} {d j n : Nat} (h : InBlock (x + UInt32.ofNat d) j z)
    (hd : d + j ≤ n) (hn : n ≤ 2 ^ 32) : InBlock x n z :=
  (InBlock.of_offset h (hd.trans hn)).mono hd

/-- An address in a block is in its first part or in the rest. -/
theorem InBlock.split {x z : UInt32} {n k : Nat} (h : InBlock x (n + k) z) :
    InBlock x n z ∨ InBlock (x + UInt32.ofNat n) k z := by
  have hlt := (z - x).toNat_lt
  rw [InBlock] at h
  rw [InBlock, InBlock, ← sub_sub, UInt32.toNat_sub (z - x), UInt32.toNat_ofNat']
  omega

namespace BlocksApart

variable {x y : UInt32} {n k d j : Nat}

theorem symm (h : BlocksApart x n y k) : BlocksApart y k x n := fun z hz hz' => h z hz' hz

theorem left (h : BlocksApart x n y k) (hd : d + j ≤ n) (hn : n ≤ 2 ^ 32) :
    BlocksApart (x + UInt32.ofNat d) j y k := fun z hz => h z (hz.within hd hn)

theorem right (h : BlocksApart x n y k) (hd : d + j ≤ k) (hk : k ≤ 2 ^ 32) :
    BlocksApart x n (y + UInt32.ofNat d) j := (h.symm.left hd hk).symm

/-- Two blocks that follow each other within the address space. -/
theorem of_le {d' : Nat} (hd : d + j ≤ d') (hn : d' + n ≤ 2 ^ 32) :
    BlocksApart (x + UInt32.ofNat d) j (x + UInt32.ofNat d') n := by
  intro z hz hz'
  have hdiff : z - (x + UInt32.ofNat d) =
      z - (x + UInt32.ofNat d') + UInt32.ofNat (d' - d) := by
    have hsum : UInt32.ofNat d' = UInt32.ofNat d + UInt32.ofNat (d' - d) := by
      rw [← UInt32.ofNat_add, Nat.add_sub_cancel' (by omega)]
    rw [hsum, ← add_assoc, ← sub_sub z (x + UInt32.ofNat d), sub_add_cancel]
  rw [InBlock] at hz hz'
  rw [hdiff, UInt32.toNat_add, UInt32.toNat_ofNat'] at hz
  omega

/-- Blocks that do not run over the end of the address space. -/
theorem of_toNat_le (hx : x.toNat + n ≤ y.toNat) (hy : y.toNat + k ≤ 2 ^ 32) :
    BlocksApart x n y k := by
  have happ : BlocksApart (0 + UInt32.ofNat x.toNat) n (0 + UInt32.ofNat y.toNat) k := of_le hx hy
  rwa [zero_add, zero_add, UInt32.ofNat_toNat, UInt32.ofNat_toNat] at happ

/-- The word below a block. -/
theorem below (x : UInt32) (hn : n + 4 ≤ 2 ^ 32) : BlocksApart x n (x - 4) 4 := by
  have hsum : x - 4 + UInt32.ofNat 4 = x := sub_add_cancel x 4
  have happ : BlocksApart (x - 4 + UInt32.ofNat 0) 4 (x - 4 + UInt32.ofNat 4) n :=
    of_le (by omega) (by omega)
  rw [hsum, offset_zero] at happ
  exact happ.symm

end BlocksApart

/-! ## Words -/

theorem load32_congr {m m' : ByteMem} {x : UInt32} (h : ∀ z, InBlock x 4 z → m' z = m z) :
    load32 m' x = load32 m x := by
  have hbytes : (List.range 4).map (fun i => m' (x + UInt32.ofNat i)) =
      (List.range 4).map fun i => m (x + UInt32.ofNat i) :=
    List.map_congr_left fun i hi => h _ (inBlock_offset (List.mem_range.mp hi) (by omega))
  rw [load32, load32, hbytes]

/-- The bytes of a word follow from the word. -/
theorem byte_eq_of_load32 {m m' : ByteMem} {x z : UInt32} (h : load32 m' x = load32 m x)
    (hz : InBlock x 4 z) : m' z = m z := by
  have hbytes (m : ByteMem) : leBytes 4 (load32 m x).toNat =
      (List.range 4).map fun i => m (x + UInt32.ofNat i) := by
    have hlen : ((List.range 4).map fun i => m (x + UInt32.ofNat i)).length = 4 := by simp
    have hlt := leNat_lt ((List.range 4).map fun i => m (x + UInt32.ofNat i))
    have hback := leBytes_leNat ((List.range 4).map fun i => m (x + UInt32.ofNat i))
    rw [hlen] at hlt hback
    rwa [load32, UInt32.toNat_ofNat_of_lt' hlt]
  have hrow := (hbytes m').symm.trans ((congrArg (fun w => leBytes 4 w.toNat) h).trans (hbytes m))
  have hat := List.map_inj_left.mp hrow (z - x).toNat (List.mem_range.mpr hz)
  rwa [UInt32.ofNat_toNat, add_sub_cancel] at hat

theorem store32_of_not_inBlock {m : ByteMem} {x v z : UInt32} (h : ¬ InBlock x 4 z) :
    store32 m x v z = m z := if_neg h

@[simp] theorem load32_store32 (m : ByteMem) (x v : UInt32) : load32 (store32 m x v) x = v := by
  have hbytes : (List.range 4).map (fun i => store32 m x v (x + UInt32.ofNat i)) =
      leBytes 4 v.toNat := by
    refine List.ext_getElem (by simp) fun i hi hi' => ?_
    rw [length_leBytes] at hi'
    have hin := inBlock_offset (x := x) hi' (by omega)
    have hoff : (UInt32.ofNat i).toNat = i := UInt32.toNat_ofNat_of_lt' (by
      simp only [UInt32.size]
      omega)
    rw [List.getElem_map, List.getElem_range, store32, if_pos hin, add_sub_cancel_left, hoff,
      List.getD_eq_getElem?_getD, List.getElem?_eq_getElem, Option.getD_some]
  rw [load32, hbytes, leNat_leBytes v.toNat_lt, UInt32.ofNat_toNat]

@[simp] theorem store32_store32 (m : ByteMem) (x v w : UInt32) :
    store32 (store32 m x v) x w = store32 m x w := by
  funext z
  simp only [store32]
  split <;> rfl

theorem load32_store32_apart {m : ByteMem} {x y v : UInt32} (h : BlocksApart x 4 y 4) :
    load32 (store32 m y v) x = load32 m x :=
  load32_congr fun z hz => store32_of_not_inBlock (h z hz)

/-! ## Words in a row -/

theorem offset_succ (x : UInt32) (i : Nat) :
    x + UInt32.ofNat (4 * (i + 1)) = x + 4 + UInt32.ofNat (4 * i) := by
  have hsum : UInt32.ofNat (4 * (i + 1)) = UInt32.ofNat (4 * i) + 4 := by
    rw [Nat.mul_succ, UInt32.ofNat_add]
    rfl
  rw [hsum, add_assoc, add_comm 4]

/-- The words from `x` on. -/
def Words (m : ByteMem) : UInt32 → List UInt32 → Prop
  | _, [] => True
  | x, w :: ws => load32 m x = w ∧ Words m (x + 4) ws

/-- The `n` words from `x` on. -/
def wordsAt (m : ByteMem) : UInt32 → Nat → List UInt32
  | _, 0 => []
  | x, n + 1 => load32 m x :: wordsAt m (x + 4) n

theorem words_wordsAt (m : ByteMem) (x : UInt32) (n : Nat) : Words m x (wordsAt m x n) := by
  induction n generalizing x with
  | zero => trivial
  | succ n ih => exact ⟨rfl, ih (x + 4)⟩

@[simp] theorem length_wordsAt (m : ByteMem) (x : UInt32) (n : Nat) :
    (wordsAt m x n).length = n := by
  induction n generalizing x with
  | zero => rfl
  | succ n ih => rw [wordsAt, List.length_cons, ih]

namespace Words

variable {m m' : ByteMem} {x y v w : UInt32} {ws : List UInt32}

/-- The word with an index. -/
theorem get (h : Words m x ws) (i : Nat) (hi : ws[i]? = some w) :
    load32 m (x + UInt32.ofNat (4 * i)) = w := by
  induction ws generalizing x i with
  | nil => cases hi
  | cons u ws ih =>
      cases i with
      | zero =>
          rw [Nat.mul_zero, offset_zero, h.1]
          exact Option.some.inj hi
      | succ i =>
          rw [offset_succ]
          exact ih h.2 i hi

/-- Words of a row are a row. -/
theorem drop (h : Words m x ws) (i : Nat) : Words m (x + UInt32.ofNat (4 * i)) (ws.drop i) := by
  induction ws generalizing x i with
  | nil =>
      rw [List.drop_nil]
      trivial
  | cons u ws ih =>
      cases i with
      | zero =>
          rw [Nat.mul_zero, offset_zero]
          exact h
      | succ i =>
          rw [offset_succ]
          exact ih h.2 i

/-- The row is in the bytes of its block. -/
theorem congr {n : Nat} (h : Words m x ws) (hn : 4 * ws.length ≤ n) (hsize : n ≤ 2 ^ 32)
    (hm : ∀ z, InBlock x n z → m' z = m z) : Words m' x ws := by
  induction ws generalizing x n with
  | nil => trivial
  | cons u ws ih =>
      rw [List.length_cons] at hn
      refine ⟨(load32_congr fun z hz => hm z (hz.mono (by omega))).trans h.1, ?_⟩
      refine ih h.2 (le_refl (4 * ws.length)) (by omega) fun z hz => hm z ?_
      exact InBlock.within (d := 4) hz (by omega) hsize

/-- A store elsewhere. -/
theorem store {n : Nat} (h : Words m x ws) (hn : 4 * ws.length ≤ n) (hsize : n ≤ 2 ^ 32)
    (hy : BlocksApart x n y 4) : Words (store32 m y v) x ws :=
  h.congr hn hsize fun z hz => store32_of_not_inBlock (hy z hz)

/-- A word is pushed. -/
theorem push (h : Words m x ws) (hsize : 4 * (ws.length + 1) ≤ 2 ^ 32) :
    Words (store32 m (x - 4) v) (x - 4) (v :: ws) := by
  refine ⟨load32_store32 _ _ _, ?_⟩
  rw [sub_add_cancel]
  exact h.store (le_refl _) (by omega) (BlocksApart.below x (by omega))

/-- A word of the row is stored. -/
theorem set {i : Nat} (h : Words m x ws) (hi : i < ws.length) (hsize : 4 * ws.length ≤ 2 ^ 32) :
    Words (store32 m (x + UInt32.ofNat (4 * i)) v) x (ws.set i v) := by
  induction ws generalizing x i with
  | nil => cases hi
  | cons u ws ih =>
      rw [List.length_cons] at hi hsize
      cases i with
      | zero =>
          have happ : BlocksApart (x + UInt32.ofNat 4) (4 * ws.length) (x + UInt32.ofNat 0) 4 :=
            (BlocksApart.of_le (by omega) (by omega)).symm
          rw [offset_zero] at happ
          rw [Nat.mul_zero, offset_zero]
          exact ⟨load32_store32 _ _ _, h.2.store (le_refl _) (by omega) happ⟩
      | succ i =>
          have happ : BlocksApart (x + UInt32.ofNat 0) 4 (x + UInt32.ofNat (4 * (i + 1))) 4 :=
            BlocksApart.of_le (by omega) (by omega)
          rw [offset_zero] at happ
          refine ⟨(load32_store32_apart happ).trans h.1, ?_⟩
          rw [offset_succ]
          exact ih h.2 (Nat.lt_of_succ_lt_succ hi) (by omega)

/-- The words of a row say what the bytes of its block are. -/
theorem ext (h : Words m x ws) (h' : Words m' x ws) (hsize : 4 * ws.length ≤ 2 ^ 32) {z : UInt32}
    (hz : InBlock x (4 * ws.length) z) : m' z = m z := by
  induction ws generalizing x with
  | nil => exact absurd hz (Nat.not_lt_zero _)
  | cons u ws ih =>
      rw [List.length_cons, Nat.mul_succ, Nat.add_comm] at hz hsize
      cases hz.split with
      | inl hz => exact byte_eq_of_load32 (h'.1.trans h.1.symm) hz
      | inr hz => exact ih h.2 h'.2 (by omega) hz

end Words

/-! ## Stores into a row -/

/-- Words are stored into a row from `x` on, each with its index. -/
def storeWords (m : ByteMem) (x : UInt32) (l : List (Nat × UInt32)) : ByteMem :=
  l.foldl (fun m p => store32 m (x + UInt32.ofNat (4 * p.1)) p.2) m

/-- The words of a row after the stores. -/
def setAll (ws : List UInt32) (l : List (Nat × UInt32)) : List UInt32 :=
  l.foldl (fun ws p => ws.set p.1 p.2) ws

namespace Words

variable {m : ByteMem} {x y : UInt32} {ws : List UInt32} {l : List (Nat × UInt32)}

theorem setAll (h : Words m x ws) (hl : ∀ p ∈ l, p.1 < ws.length)
    (hsize : 4 * ws.length ≤ 2 ^ 32) : Words (storeWords m x l) x (Lib.setAll ws l) := by
  induction l generalizing m ws with
  | nil => exact h
  | cons p l ih =>
      rw [List.forall_mem_cons] at hl
      refine ih (h.set hl.1 hsize) ?_ ?_
      · rw [List.length_set]
        exact hl.2
      · rw [List.length_set]
        exact hsize

/-- Stores into another row. -/
theorem storeWords {n k : Nat} (h : Words m x ws) (hn : 4 * ws.length ≤ n) (hsize : n ≤ 2 ^ 32)
    (hl : ∀ p ∈ l, 4 * p.1 + 4 ≤ k) (hk : k ≤ 2 ^ 32) (hy : BlocksApart x n y k) :
    Words (Lib.storeWords m y l) x ws := by
  induction l generalizing m with
  | nil => exact h
  | cons p l ih =>
      rw [List.forall_mem_cons] at hl
      exact ih (h.store hn hsize (hy.right hl.1 hk)) hl.2

end Words

theorem storeWords_of_not_inBlock {m : ByteMem} {x z : UInt32} {l : List (Nat × UInt32)} {n : Nat}
    (hl : ∀ p ∈ l, 4 * p.1 + 4 ≤ n) (hn : n ≤ 2 ^ 32) (hz : ¬ InBlock x n z) :
    storeWords m x l z = m z := by
  induction l generalizing m with
  | nil => rfl
  | cons p l ih =>
      rw [List.forall_mem_cons] at hl
      exact (ih hl.2).trans (store32_of_not_inBlock fun h => hz (h.within hl.1 hn))

end StardustOS.Lib
