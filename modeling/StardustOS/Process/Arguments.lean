import StardustOS.Libc.Memory
import StardustOS.Process.StackBound

/-!
# The arguments of a program

`proc_exec` pushes the arguments in their order and then their number, each push
below the last.  From the stack pointer up a program finds the number, and behind
it the arguments from the last one to the first.

`pushAll_argsOnStack` says that this is what the memory holds up to the end of the
stack, that nothing else was written, and that the arguments can be read back.
-/

namespace StardustOS.Process

open Lib Libc

/-! ## Reading them -/

/-- A number of four bytes, the lowest first. -/
def decodeArgc : List UInt8 → Option (Nat × List UInt8)
  | b₀ :: b₁ :: b₂ :: b₃ :: bytes =>
      some (b₀.toNat + 0x100 * b₁.toNat + 0x10000 * b₂.toNat + 0x1000000 * b₃.toNat, bytes)
  | _ => none

/-- A number of strings, each with its NUL, and what is behind them. -/
def decodeStrings : Nat → List UInt8 → Option (List (List UInt8) × List UInt8)
  | 0, bytes => some ([], bytes)
  | n + 1, bytes =>
      if 0 ∈ bytes then
        (decodeStrings n (bytes.drop (strlen bytes 0 + 1))).map fun (args, rest) =>
          (cstr bytes 0 :: args, rest)
      else none

/-- The arguments on a stack, in their order, and what is behind them. -/
def decodeArgs (bytes : List UInt8) : Option (List (List UInt8) × List UInt8) :=
  (decodeArgc bytes).bind fun (argc, strings) =>
    (decodeStrings argc strings).map fun (args, rest) => (args.reverse, rest)

/-- `argc`, and each argument with its NUL, the last one first. -/
def argsImage (args : List (List UInt8)) : List UInt8 :=
  argcBytes args.length ++ (args.reverse.map (· ++ [0])).flatten

theorem decodeArgc_argcBytes {argc : Nat} (h : argc < 2 ^ 32) (bytes : List UInt8) :
    decodeArgc (argcBytes argc ++ bytes) = some (argc, bytes) := by
  simp only [argcBytes, List.cons_append, List.nil_append, decodeArgc, UInt8.toNat_ofNat',
    Option.some.injEq, Prod.mk.injEq, and_true]
  omega

theorem decodeStrings_flatten (args : List (List UInt8)) (hnul : ∀ arg ∈ args, 0 ∉ arg)
    (bytes : List UInt8) :
    decodeStrings args.length ((args.map (· ++ [0])).flatten ++ bytes) = some (args, bytes) := by
  induction args with
  | nil => rfl
  | cons arg args ih =>
      obtain ⟨harg, hargs⟩ := List.forall_mem_cons.mp hnul
      let rest := (args.map (· ++ [0])).flatten ++ bytes
      have hbytes : ((arg :: args).map (· ++ [0])).flatten ++ bytes = arg ++ 0 :: rest := by
        simp [rest]
      have hcstr : cstr (arg ++ 0 :: rest) 0 = arg := cstr_append [] harg
      have hdrop : (arg ++ 0 :: rest).drop (arg.length + 1) = rest := by
        rw [List.append_cons, List.drop_left' (by simp)]
      rw [hbytes, List.length_cons, decodeStrings, if_pos (by simp), strlen, hcstr, hdrop, ih hargs]
      rfl

/-- The arguments are read back. -/
theorem decodeArgs_argsImage {args : List (List UInt8)} (hlen : args.length < 2 ^ 32)
    (hnul : ∀ arg ∈ args, 0 ∉ arg) : decodeArgs (argsImage args) = some (args, []) := by
  have hstrings := decodeStrings_flatten args.reverse
    (fun arg harg => hnul arg (List.mem_reverse.mp harg)) []
  rw [List.append_nil, List.length_reverse] at hstrings
  rw [decodeArgs, argsImage, decodeArgc_argcBytes hlen, Option.bind_some]
  simp only [hstrings, Option.map_some, List.reverse_reverse]

/-- The size of that: four bytes, and each argument with its NUL. -/
def argsSize (args : List (List UInt8)) : Nat := 4 + (args.map fun arg => arg.length + 1).sum

/-- There are fewer arguments than bytes. -/
theorem length_lt_argsSize (args : List (List UInt8)) : args.length < argsSize args := by
  simp [argsSize]
  omega

theorem length_argsImage (args : List (List UInt8)) :
    (argsImage args).length = argsSize args := by
  simp [argsImage, argsSize, argcBytes, List.length_flatten, List.sum_reverse, Function.comp_def]
  omega

/-- It is what `proc_exec` pushes, the last push first. -/
theorem flatten_reverse_pushes {argv : Option (List (List UInt8))}
    (hnul : ∀ arg ∈ argv.getD [], 0 ∉ arg) :
    (pushes argv).reverse.flatten = argsImage (argv.getD []) := by
  have hcstr : (argv.getD []).map (fun arg => cstr arg 0 ++ [0]) =
      (argv.getD []).map (· ++ [0]) := by
    refine List.map_congr_left ?_
    intro arg harg
    rw [cstr, List.drop_zero, List.takeWhile_eq_self_iff.mpr]
    intro b hb
    rw [decide_eq_true_eq]
    rintro rfl
    exact hnul arg harg hb
  rw [pushes, hcstr, List.reverse_append, ← List.map_reverse, argsImage]
  rfl

theorem pushed_eq {argv : Option (List (List UInt8))} (hnul : ∀ arg ∈ argv.getD [], 0 ∉ arg) :
    pushed argv = argsSize (argv.getD []) := by
  rw [← length_argsImage, ← flatten_reverse_pushes hnul, List.length_flatten, List.map_reverse,
    List.sum_reverse, pushed]
namespace Procs

variable {κ : Type*} {K : Kernel κ} {a n : Nat} {s u : Procs κ}

/-! ## Pushing them -/

/-- `mem` shows the memory, in which `memcpy` writes. -/
def ShowsMemory (K : Kernel κ) (mem : κ → UInt32 → UInt8) : Prop :=
  ∀ addr bytes k, mem (K.memcpy addr bytes k) = memcpy addr bytes (mem k)

/-- The memory from the stack pointer up to the top of the stack of the process at
`a` is the image of the arguments, they can be read back from it, and nothing else
was written. -/
structure ArgsOnStack (mem : κ → UInt32 → UInt8) (a : Nat) (args : List (List UInt8))
    (t u : Procs κ) : Prop where
  stack : ∃ P, u.processes.get? a = some P ∧
    P.regs.esp.toNat = a + stackOffset + PROC_STACKSIZE - argsSize args ∧
    readBytes (mem u.kernel) P.regs.esp (argsSize args) = argsImage args ∧
    decodeArgs (readBytes (mem u.kernel) P.regs.esp (argsSize args)) = some (args, [])
  outside : ∀ x, x.toNat < a + stackOffset + PROC_STACKSIZE - argsSize args ∨
    a + stackOffset + PROC_STACKSIZE ≤ x.toNat → mem u.kernel x = mem t.kernel x

/-- What is pushed comes before what is on the stack, the last push first. -/
theorem pushAll_readBytes {mem : κ → UInt32 → UInt8} (hmem : ShowsMemory K mem)
    (values : List (List UInt8)) {s : Procs κ} {P : Proc} {n : Nat}
    (hP : s.processes.get? a = some P) (hfits : (values.map List.length).sum + n ≤ 2 ^ 32)
    (hpush : pushAll K a values s = some u) :
    ∃ Q, u.processes.get? a = some Q ∧
      Q.regs.esp = P.regs.esp - UInt32.ofNat (values.map List.length).sum ∧
      readBytes (mem u.kernel) Q.regs.esp ((values.map List.length).sum + n) =
        values.reverse.flatten ++ readBytes (mem s.kernel) P.regs.esp n ∧
      ∀ x, ¬ InBlock Q.regs.esp (values.map List.length).sum x →
        mem u.kernel x = mem s.kernel x := by
  induction values generalizing s P n with
  | nil =>
      cases hpush
      exact ⟨P, hP, by simp, by simp, fun x _ => rfl⟩
  | cons value values ih =>
      rw [List.map_cons, List.sum_cons] at hfits
      simp only [pushAll, hP] at hpush
      let esp := P.regs.esp - UInt32.ofNat value.length
      have hpushed : (s.procPushstack K a P value).processes.get? a = some (P.withEsp esp) :=
        SList.get?_update_self hP
      have hcopied : mem (s.procPushstack K a P value).kernel =
          memcpy esp value (mem s.kernel) := hmem _ _ _
      obtain ⟨Q, hQ, hesp, hread, houtside⟩ := ih (n := value.length + n) hpushed (by omega) hpush
      have hmoved : Q.regs.esp = esp - UInt32.ofNat (values.map List.length).sum := hesp
      rw [List.map_cons, List.sum_cons]
      refine ⟨Q, hQ, ?_, ?_, ?_⟩
      · rw [hmoved, UInt32.ofNat_add, sub_sub]
      · have htop : esp + UInt32.ofNat value.length = P.regs.esp := sub_add_cancel _ _
        have hvalue : readBytes (memcpy esp value (mem s.kernel)) esp (value.length + n) =
            value ++ readBytes (mem s.kernel) P.regs.esp n := by
          rw [readBytes_memcpy (by omega), htop]
        rw [hcopied] at hread
        rw [add_right_comm, add_comm _ (values.map List.length).sum, hread]
        show _ ++ readBytes (memcpy esp value (mem s.kernel)) esp (value.length + n) = _
        rw [hvalue]
        simp
      · intro x hx
        have hbase : esp = Q.regs.esp + UInt32.ofNat (values.map List.length).sum := by
          rw [hmoved, sub_add_cancel]
        have hpush' : ¬ InBlock esp value.length x := by
          intro hin
          rw [hbase] at hin
          refine hx ?_
          rw [add_comm]
          exact hin.of_offset (by omega)
        have hrest : ¬ InBlock Q.regs.esp (values.map List.length).sum x :=
          fun h => hx (h.trans_le (Nat.le_add_left _ _))
        rw [houtside x hrest, hcopied, memcpy_outside (by omega) hpush']

/-- The arguments that `proc_exec` pushes for the process it created are on its
stack. -/
theorem pushAll_argsOnStack {mem : κ → UInt32 → UInt8} (hmem : ShowsMemory K mem)
    {curr : Option Nat} {path : List UInt8} {t : Procs κ}
    (hcreate : s.procCreate K curr path 1 = some (some a, t))
    (hblock : a + stackOffset + 4 * PROC_STACKSIZE ≤ 2 ^ 32) (entry : UInt32)
    (argv : Option (List (List UInt8))) (hnul : ∀ arg ∈ argv.getD [], 0 ∉ arg)
    (hfits : argsSize (argv.getD []) ≤ PROC_STACKSIZE) :
    ∃ u, pushAll K a (pushes argv)
        { t with processes := t.processes.update a (Proc.withEip entry) } = some u ∧
      ArgsOnStack mem a (argv.getD []) t u := by
  let t₁ : Procs κ := { t with processes := t.processes.update a (Proc.withEip entry) }
  obtain ⟨N, hN, -, -, htop⟩ := procCreate_get? hcreate
  have hN₁ : t₁.processes.get? a = some (N.withEip entry) := SList.get?_update_self hN
  obtain ⟨u, hu⟩ := pushAll_defined (K := K) (pushes argv) hN₁
  have hpushed : ((pushes argv).map List.length).sum = argsSize (argv.getD []) := pushed_eq hnul
  -- no address of the stack is behind the end of the address space
  have hlt : a + stackOffset + PROC_STACKSIZE < 2 ^ 32 := by
    rw [PROC_STACKSIZE] at hblock ⊢
    omega
  have hsmall : argsSize (argv.getD []) < 2 ^ 32 :=
    lt_of_le_of_lt hfits ((Nat.le_add_left _ _).trans_lt hlt)
  obtain ⟨Q, hQ, hesp, hread, houtside⟩ := pushAll_readBytes hmem (pushes argv) (n := 0) hN₁
    (by rw [hpushed]; exact hsmall.le) hu
  rw [hpushed] at hesp hread houtside
  have hat : Q.regs.esp.toNat = a + stackOffset + PROC_STACKSIZE - argsSize (argv.getD []) := by
    have hN : (N.withEip entry).regs.esp = N.regs.esp := rfl
    rw [hesp, hN, htop, UInt32.toNat_sub, UInt32.toNat_ofNat_of_lt' hlt,
      UInt32.toNat_ofNat_of_lt' hsmall]
    omega
  have himage : readBytes (mem u.kernel) Q.regs.esp (argsSize (argv.getD [])) =
      argsImage (argv.getD []) := by
    rw [flatten_reverse_pushes hnul] at hread
    simpa [readBytes] using hread
  refine ⟨u, hu, ⟨Q, hQ, hat, himage, ?_⟩, ?_⟩
  · rw [himage]
    exact decodeArgs_argsImage ((length_lt_argsSize _).trans hsmall) hnul
  · intro x hx
    refine houtside x ?_
    rw [InBlock, UInt32.toNat_sub, hat]
    have hx32 := x.toNat_lt
    omega

section Small

/-- A kernel that has nothing but a memory, and one block of it to give. -/
def memoryOnly : Kernel (UInt32 → UInt8) where
  kmalloc k := (some 0x100000, k)
  kfree _ k := k
  memAllocPgdir k := (0x2000, k)
  memFreePgdir _ k := k
  krnlPgdir := 0x1000
  fsNodeClose _ k := k
  ttyName _ := none
  memcpy := memcpy

/-- Two letters, and an empty argument. -/
theorem pushAll_argsOnStack_two : ∃ t u,
    (boot {} [] (fun _ => 0xCC)).procCreate memoryOnly none [98] 1 = some (some 0x100000, t) ∧
      pushAll memoryOnly 0x100000 (pushes (some [[104, 105], []]))
        { t with processes := t.processes.update 0x100000 (Proc.withEip 0x40000000) } = some u ∧
      ArgsOnStack id 0x100000 [[104, 105], []] t u := by
  obtain ⟨t, ht⟩ : ∃ t, (boot {} [] (fun _ => 0xCC)).procCreate memoryOnly none [98] 1 =
    some (some 0x100000, t) := ⟨_, rfl⟩
  have hmem : ShowsMemory memoryOnly id := fun _ _ _ => rfl
  obtain ⟨u, hu, hargs⟩ := pushAll_argsOnStack hmem ht (by decide)
    0x40000000 (some [[104, 105], []]) (by decide) (by decide)
  exact ⟨t, u, ht, hu, hargs⟩

end Small

end Procs

end StardustOS.Process
