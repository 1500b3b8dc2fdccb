import StardustOS.Lib.Ledger
import StardustOS.Lib.Run
import StardustOS.Mem.Phys

/-!
# No frame is allocated twice

A client of the physical memory manager keeps the runs it was given and gives
each of them back at most once.  `Follows` says that the bitmap is the set of
used cells of a ledger whose live runs are the client's, so the disjointness
that is part of a ledger is disjointness of what the client holds.
-/

namespace StardustOS.Mem

open Lib

/-- The run of frames that `phys_alloc(count)` returned as `addr`. -/
structure PhysRun where
  addr : Nat
  count : Nat
deriving DecidableEq, Repr

/-- The frames of a run. -/
def PhysRun.frames (r : PhysRun) : Finset Frame := runFrames r.addr r.count

/-- A call of the physical memory manager. -/
inductive PhysCall where
  | physAlloc (count : Nat)
  | physSetfree (r : PhysRun)

/-- The manager, and the runs its client was given and has not freed. -/
structure PhysClient where
  phys : Phys
  live : List PhysRun

namespace PhysClient

/-- One call.  Only live runs may be freed. -/
def step (s : PhysClient) : PhysCall → Option PhysClient
  | .physAlloc count =>
      let (addr, phys) := s.phys.physAlloc count
      some ⟨phys, if addr = Phys.allocFailed then s.live else ⟨addr, count⟩ :: s.live⟩
  | .physSetfree r =>
      if r ∈ s.live then some ⟨s.phys.physSetfree r.addr r.count, s.live.erase r⟩ else none

/-- The frames of the live runs. -/
def liveFrames (s : PhysClient) : Finset Frame := s.live.foldr (fun r t => r.frames ∪ t) ∅

/-- The state follows a ledger of the frames used in `s₀` and the live runs. -/
structure Follows (s₀ : Phys) (s : PhysClient) (L : Ledger PhysRun.frames) : Prop where
  base : L.base = s₀.used
  live : L.live = s.live
  used : s.phys.used = L.used
  balance : s.phys.balance = s₀.balance

theorem follows_start (s₀ : Phys) : Follows s₀ ⟨s₀, []⟩ (.start _ s₀.used) where
  base := rfl
  live := rfl
  used := by simp
  balance := rfl

/-- Each call moves the ledger by one allocation or one release. -/
theorem step_follows {s₀ : Phys} {s s' : PhysClient} {L : Ledger PhysRun.frames}
    (h : Follows s₀ s L) (op : PhysCall) (hop : s.step op = some s') : ∃ L', Follows s₀ s' L' := by
  cases op with
  | physAlloc count =>
      obtain hfail | ⟨i, -, hok, hdis⟩ := s.phys.physAlloc_spec count
      · obtain rfl : s = s' := by simpa [step, hfail] using hop
        exact ⟨L, h⟩
      · simp only [step, hok, Phys.allocFailed_ne, ↓reduceIte, Option.some.injEq] at hop
        subst hop
        have hfree : Disjoint L.used (PhysRun.frames ⟨i * PAGE_SIZE, count⟩) := h.used ▸ hdis
        refine ⟨L.alloc ⟨i * PAGE_SIZE, count⟩ hfree, h.base, ?_, ?_, ?_⟩
        · rw [Ledger.live_alloc, h.live]
        · rw [Ledger.used_alloc, Phys.used_physSetused, h.used]
          rfl
        · rw [Phys.balance_physSetused, h.balance]
  | physSetfree r =>
      by_cases hr : r ∈ s.live
      · simp only [step, hr, ↓reduceIte, Option.some.injEq] at hop
        subst hop
        refine ⟨L.free r, h.base, ?_, ?_, ?_⟩
        · rw [Ledger.live_free, h.live]
        · rw [Ledger.used_free L (h.live ▸ hr), Phys.used_physSetfree, h.used]
          rfl
        · rw [Phys.balance_physSetfree, h.balance]
      · simp [step, hr] at hop

theorem run_follows {s₀ : Phys} {ops : List PhysCall} {s : PhysClient}
    (h : run step ⟨s₀, []⟩ ops = some s) : ∃ L, Follows s₀ s L :=
  run_invariant (I := fun s => ∃ L, Follows s₀ s L) (C := fun _ _ => True)
    (fun _ op _ ⟨_, hL⟩ _ hop => step_follows hL op hop) ops ⟨_, follows_start s₀⟩
    (meets_true ops) h

namespace Follows

variable {s₀ : Phys} {s : PhysClient} {L : Ledger PhysRun.frames} (h : Follows s₀ s L)

include h

theorem held_eq : L.held = s.liveFrames := by rw [Ledger.held, h.live, liveFrames]

/-- Frames outside the live runs have the used bit of the start. -/
theorem isUsed_eq {f : Frame} (hf : ∀ r ∈ s.live, f ∉ r.frames) :
    s.phys.isUsed f = s₀.isUsed f := by
  have hiff : f ∈ s.phys.used ↔ f ∈ s₀.used := by
    rw [h.used, Ledger.mem_used, h.base, h.live]
    exact or_iff_left fun ⟨r, hr, hfr⟩ => hf r hr hfr
  rw [Phys.mem_used, Phys.mem_used] at hiff
  exact Bool.eq_iff_iff.mpr hiff

/-- `used_mem` has grown by the frames of the live runs. -/
theorem usedMem_eq : s.phys.usedMem = s₀.usedMem + UInt32.ofNat (4096 * s.liveFrames.card) := by
  refine Phys.usedMem_of_balance h.balance ?_
  rw [h.used, Ledger.card_used, h.base, h.held_eq]

end Follows

/-- After any run, from any state of the bitmap and the counters: the live runs
share no frame and are marked used, all other frames have the used bit of the
start, and `used_mem` counts the live frames. -/
theorem runs_noFrameTwice (s₀ : Phys) (ops : List PhysCall) {s : PhysClient}
    (hrun : run step ⟨s₀, []⟩ ops = some s) :
    s.live.Pairwise (fun r r' => Disjoint r.frames r'.frames) ∧
      (∀ r ∈ s.live, r.frames ⊆ s.phys.used) ∧
      (∀ f, (∀ r ∈ s.live, f ∉ r.frames) → s.phys.isUsed f = s₀.isUsed f) ∧
      s.phys.usedMem = s₀.usedMem + UInt32.ofNat (4096 * s.liveFrames.card) := by
  obtain ⟨L, h⟩ := run_follows hrun
  refine ⟨h.live ▸ L.pairwise, fun r hr => ?_, fun f hf => h.isUsed_eq hf, h.usedMem_eq⟩
  rw [h.used]
  exact L.cells_subset_used (h.live ▸ hr)

/-- Four pages of memory, none used. -/
def fourPages : Phys := ⟨fun _ => 0, 0, 16384⟩

/-- Two allocations, a release of the first, and two more. -/
def reuse : List PhysCall :=
  [.physAlloc 1, .physAlloc 2, .physSetfree ⟨0, 1⟩, .physAlloc 1, .physAlloc 1]

/-- The page freed is given out again before the last one. -/
theorem runs_noFrameTwice_reuse :
    ∃ s, run step ⟨fourPages, []⟩ reuse = some s ∧
      s.live = [⟨12288, 1⟩, ⟨0, 1⟩, ⟨4096, 2⟩] ∧
      s.live.Pairwise (fun r r' => Disjoint r.frames r'.frames) := by
  have hlive : (run step ⟨fourPages, []⟩ reuse).map live =
      some [⟨12288, 1⟩, ⟨0, 1⟩, ⟨4096, 2⟩] := by decide
  obtain ⟨s, hs, hls⟩ := Option.map_eq_some_iff.mp hlive
  exact ⟨s, hs, hls, (runs_noFrameTwice fourPages reuse hs).1⟩

end PhysClient

end StardustOS.Mem
