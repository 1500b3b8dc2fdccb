import StardustOS.Fs.NodeIo
import StardustOS.Process.Table
import Mathlib.Data.Fin.Basic
import Mathlib.Logic.Function.Basic

/-!
# The calls on files

`nl_open`, `nl_close`, `nl_write` and `nl_read` of `system.c`, and the part of
`proc_t` that they use.

An outcome of `none` is a call that does not return: it follows the node of a
descriptor that is not open, or the links that it follows do not end.
-/

namespace StardustOS.Sys

open Fs
open Process (OPEN_MAX)

variable {σ N α β : Type*}

instance : NeZero OPEN_MAX := ⟨by decide⟩

/-- The part of `proc_t` that the calls on files use. -/
structure ProcFiles (N : Type*) where
  id : UInt32
  uid : UInt32
  gid : UInt32
  fd : Fin OPEN_MAX → Fd N

/-- `proc->fd[i] = fd`. -/
def ProcFiles.setFd (p : ProcFiles N) (i : Fin OPEN_MAX) (fd : Fd N) : ProcFiles N :=
  { p with fd := Function.update p.fd i fd }

/-- `process_curr()`, and the rest of the kernel. -/
structure Files (σ N : Type*) where
  curr : Option (ProcFiles N)
  world : σ

namespace Files

variable (W : Nodes σ N) (depth : Nat) (s : Files σ N)

/-- `nl_open`. -/
def nlOpen (path : Option (List UInt8)) (mode : Int) : Except ErrorCode Nat × Files σ N :=
  match s.curr with
  | none => (.error (errno EINVAL), s)
  | some p =>
      match Fin.find? fun i => (p.fd i).node.isNone with
      | none => (.error (errno EMFILE), s)
      | some i =>
          match W.fsResolve path s.world with
          | (.error e, w) => (.error e, { s with world := w })
          | (.ok node, w) =>
              let fd : Fd N :=
                { node := some node, gid := p.gid, uid := p.uid, pid := p.id, offset := 0, mode }
              match W.fsNodeOpen node fd w with
              | (.error e, w) =>
                  let fd := { fd with node := none, mode := 0, gid := 0, uid := 0 }
                  (.error e, ⟨some (p.setFd i fd), w⟩)
              | (.ok _, w) => (.ok i, ⟨some (p.setFd i fd), w⟩)

/-- The checks that the other calls begin with. -/
def onFd (fd : Int) (invalid : β) (f : ProcFiles N → Fin OPEN_MAX → N → Option β) : Option β :=
  match s.curr with
  | none => some invalid
  | some p =>
      if h : 0 ≤ fd ∧ fd < OPEN_MAX then
        let i : Fin OPEN_MAX := ⟨fd.toNat, by omega⟩
        (p.fd i).node.bind (f p i)
      else some invalid

/-- `nl_close`. -/
def nlClose (fd : Int) : Option (Except ErrorCode Nat × Files σ N) :=
  s.onFd fd (.error (errno EINVAL), s) fun p i node =>
    match W.fsNodeClose node (p.fd i) s.world with
    | (.error e, w) => some (.error e, { s with world := w })
    | (.ok _, w) =>
        let fd := { p.fd i with node := none, mode := 0, gid := 0, uid := 0 }
        some (.ok 0, ⟨some (p.setFd i fd), w⟩)

/-- What `nl_write` and `nl_read` have in common, for the operation `io` on the
node at the offset. -/
def nlIo (fd : Int) (empty : α)
    (io : N → UInt32 → σ → Option (Except ErrorCode Nat × α × σ)) :
    Option (Except ErrorCode Nat × α × Files σ N) :=
  s.onFd fd (.error (errno EINVAL), empty, s) fun p i node =>
    (io node (p.fd i).offset s.world).map fun (r, x, w) =>
      if sizeT r < 0 then (r, x, { s with world := w })
      else
        let fd := { p.fd i with offset := (p.fd i).offset + sizeT r }
        (r, x, ⟨some (p.setFd i fd), w⟩)

/-- `nl_write`. -/
def nlWrite (fd : Int) (buff : List UInt8) (count : UInt32) :
    Option (Except ErrorCode Nat × Unit × Files σ N) :=
  s.nlIo fd () fun node offset w => W.fsNodeWrite depth node offset buff count w

/-- `nl_read`, with the bytes in the buffer. -/
def nlRead (fd : Int) (count : UInt32) :
    Option (Except ErrorCode Nat × List UInt8 × Files σ N) :=
  s.nlIo fd [] fun node offset w => W.fsNodeRead depth node offset count w

variable {s}

/-- The checks of a call on an open descriptor pass. -/
theorem onFd_open {p : ProcFiles N} {i : Fin OPEN_MAX} {node : N} (hcurr : s.curr = some p)
    (hnode : (p.fd i).node = some node) (invalid : β)
    (f : ProcFiles N → Fin OPEN_MAX → N → Option β) : s.onFd i invalid f = f p i node := by
  have hi : 0 ≤ (i : Int) ∧ (i : Int) < OPEN_MAX := ⟨Int.natCast_nonneg _, Int.ofNat_lt.mpr i.isLt⟩
  simp only [onFd, hcurr, hi, and_self, ↓reduceDIte, Int.toNat_natCast, hnode, Option.bind_some]

end Files

/-! ## Sequences of calls -/

/-- A call on files. -/
inductive FileCall where
  | nlOpen (path : Option (List UInt8)) (mode : Int)
  | nlClose (fd : Int)
  | nlWrite (fd : Int) (buff : List UInt8) (count : UInt32)
  | nlRead (fd : Int) (count : UInt32)

namespace Files

variable (W : Nodes σ N) (depth : Nat) (s : Files σ N)

/-- A call, with its result. -/
def call : FileCall → Option (Except ErrorCode Nat × Files σ N)
  | .nlOpen path mode => some (s.nlOpen W path mode)
  | .nlClose fd => s.nlClose W fd
  | .nlWrite fd buff count => (s.nlWrite W depth fd buff count).map fun (r, _, s) => (r, s)
  | .nlRead fd count => (s.nlRead W depth fd count).map fun (r, _, s) => (r, s)

/-- A call as a step of a run. -/
def step (c : FileCall) : Option (Files σ N) := (s.call W depth c).map Prod.snd

end Files

end StardustOS.Sys
