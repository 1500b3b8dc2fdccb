import StardustOS.Lib.Ledger
import StardustOS.Lib.Run
import StardustOS.Mem.KernelSpace

/-!
# Kernel heap regions

A client of `mem_alloc` and `mem_free` on the kernel's directory keeps the
regions it was given.  A region takes a run of pages and a run of frames, found
by two searches that know nothing of each other, and is given back by its
address and length: the frames are recovered from the translation of its first
page.

`HeapInv` follows both searches with a ledger each.  The two ledgers have the
same live regions, and each region's pages lead to its frames in order.
-/

namespace StardustOS.Mem

open Lib

/-- A region that `mem_alloc` returned as `vaddr`, for the frames that
`phys_alloc` returned as `paddr`. -/
structure Region where
  vaddr : Nat
  paddr : Nat
  count : Nat
deriving DecidableEq, Repr

/-- The virtual pages of a region. -/
def Region.pages (r : Region) : Finset Frame := runFrames r.vaddr r.count

/-- The frames of a region. -/
def Region.frames (r : Region) : Finset Frame := runFrames r.paddr r.count

/-- A call on the kernel's directory. -/
inductive HeapCall where
  | memAlloc (count : Nat) (iswrite : Bool)
  | memFree (r : Region)

/-- The memory, and the regions that the client was given and has not freed. -/
structure HeapClient where
  mem : Memory
  live : List Region

/-- One call.  An allocation is followed when both its searches succeed, and
only live regions may be freed. -/
def HeapClient.step (krnl : Frame) (s : HeapClient) : HeapCall → Option HeapClient
  | .memAlloc count iswrite =>
      let paddr := (s.mem.phys.physAlloc count).1
      let (vaddr, mem) := s.mem.memAlloc krnl count iswrite false
      if paddr = Phys.allocFailed ∨ vaddr = 0 then none
      else some ⟨mem, ⟨vaddr, paddr, count⟩ :: s.live⟩
  | .memFree r =>
      if r ∈ s.live then some ⟨s.mem.memFree krnl r.vaddr r.count, s.live.erase r⟩ else none

/-! ## The invariant -/

/-- A region lies in the kernel half, and its pages lead to its frames in
order. -/
structure Region.Placed (r : Region) (s : Memory) (krnl : Frame) : Prop where
  pos : 0 < r.count
  vaddr_aligned : r.vaddr % PAGE_SIZE = 0
  paddr_aligned : r.paddr % PAGE_SIZE = 0
  paddr_lt : r.paddr < 2 ^ 32
  kernel : ∀ k < r.count, KernelHalf (frameOf (r.vaddr + k * PAGE_SIZE)).pdi
  leads : ∀ k < r.count,
    (s.pte krnl (frameOf (r.vaddr + k * PAGE_SIZE))).frame = frameOf (r.paddr + k * PAGE_SIZE)

/-- The present kernel pages and the used frames are those of the start and
those of the live regions. -/
structure HeapInv (s₀ : Memory) (krnl : Frame) (s : HeapClient) (P : Ledger Region.pages)
    (L : Ledger Region.frames) : Prop where
  pages_base : P.base = s₀.kernelPages krnl
  pages_live : P.live = s.live
  pages : s.mem.kernelPages krnl = P.used
  frames_base : L.base = s₀.phys.used
  frames_live : L.live = s.live
  frames : s.mem.phys.used = L.used
  balance : s.mem.phys.balance = s₀.phys.balance
  kernel : s.mem.KernelTables krnl
  avoids : ∀ S, Disjoint s₀.phys.used S → s.mem.Avoids krnl S
  placed : ∀ r ∈ s.live, r.Placed s.mem krnl

variable {s₀ : Memory} {krnl : Frame} {s s' : HeapClient} {P : Ledger Region.pages}
  {L : Ledger Region.frames}

theorem heapInv_start (h : KernelReady s₀ krnl) :
    HeapInv s₀ krnl ⟨s₀, []⟩ (.start _ (s₀.kernelPages krnl)) (.start _ s₀.phys.used) where
  pages_base := rfl
  pages_live := rfl
  pages := by simp
  frames_base := rfl
  frames_live := rfl
  frames := by simp
  balance := rfl
  kernel := h.kernelTables
  avoids := fun _ hS => h.kernelTables.avoids hS
  placed := by simp

namespace HeapInv

/-- A page of a live region is present. -/
theorem present (h : HeapInv s₀ krnl s P L) {r : Region} (hr : r ∈ s.live) {k : Nat}
    (hk : k < r.count) :
    (s.mem.pte krnl (frameOf (r.vaddr + k * PAGE_SIZE))).present = true := by
  have hmem : frameOf (r.vaddr + k * PAGE_SIZE) ∈ P.used :=
    P.cells_subset_used (h.pages_live ▸ hr) (mem_runFrames.mpr ⟨k, hk, rfl⟩)
  rw [← h.pages, Memory.mem_kernelPages] at hmem
  exact hmem.2


/-- A region whose pages keep their entries stays placed. -/
theorem placed_of_pte {t : Memory} (h : HeapInv s₀ krnl s P L) {r : Region} (hr : r ∈ s.live)
    (hpte : ∀ k < r.count, t.pte krnl (frameOf (r.vaddr + k * PAGE_SIZE)) =
      s.mem.pte krnl (frameOf (r.vaddr + k * PAGE_SIZE))) : r.Placed t krnl := by
  have hp := h.placed r hr
  refine { hp with leads := fun k hk => ?_ }
  rw [hpte k hk, hp.leads k hk]

/-- An allocation adds one region to both ledgers. -/
theorem memAlloc (h : HeapInv s₀ krnl s P L) {count : Nat} {w : Bool}
    (hp : (s.mem.phys.physAlloc count).1 ≠ Phys.allocFailed)
    (hv : (s.mem.memAlloc krnl count w false).1 ≠ 0) :
    ∃ P' L', HeapInv s₀ krnl
      ⟨(s.mem.memAlloc krnl count w false).2,
        ⟨(s.mem.memAlloc krnl count w false).1, (s.mem.phys.physAlloc count).1, count⟩ ::
          s.live⟩ P' L' := by
  obtain ⟨i, j, hi, hc, hj, hdis, habs, hpa, hva, hu⟩ := Memory.memAlloc_kernel h.kernel hp hv
  have hle : count ≤ 2 ^ 20 := by omega
  rw [hpa, hva]
  set t := (s.mem.memAlloc krnl count w false).2
  set s₁ := s.mem.setPhys (s.mem.phys.physSetused (i * PAGE_SIZE) count)
  set r : Region := ⟨j * PAGE_SIZE, i * PAGE_SIZE, count⟩
  have hK : ∀ k < count, KernelHalf (frameOf (j * PAGE_SIZE + k * PAGE_SIZE)).pdi := by
    intro k hk
    rw [← Nat.add_mul]
    exact kernelHalf_frameOf (by omega)
  -- the pages found are absent, so no one holds them
  have hpages : Disjoint P.used r.pages := by
    rw [← h.pages, Finset.disjoint_right]
    intro p hp hmem
    obtain ⟨k, hk, rfl⟩ := mem_runFrames.mp hp
    have := habs k hk
    rw [Nat.add_mul, h.kernel.tables.pageIspresent (hK k hk)] at this
    rw [(Memory.mem_kernelPages.mp hmem).2] at this
    exact Bool.false_ne_true this.symm
  have hframes : Disjoint L.used r.frames := h.frames ▸ hdis
  have hk₁ : s₁.KernelTables krnl := h.kernel.setused _ _
  have hav : s₁.Avoids krnl r.frames := (h.kernel.avoids hdis).setPhys _
  refine ⟨P.alloc r hpages, L.alloc r hframes, ?_⟩
  constructor
  · exact h.pages_base
  · rw [Ledger.live_alloc, h.pages_live]
  · rw [Ledger.used_alloc, ← h.pages]
    exact hu.kernelPages_mapPages hj
  · exact h.frames_base
  · rw [Ledger.live_alloc, h.frames_live]
  · rw [Ledger.used_alloc, ← h.frames]
    exact (congrArg Phys.used hu.phys).trans (Phys.used_physSetused _ _ _)
  · exact ((congrArg Phys.balance hu.phys).trans (Phys.balance_physSetused _ _ _)).trans h.balance
  · exact hu.kernelTables hk₁ hav
  · exact fun S hS => hu.avoids hk₁ hav ((h.avoids S hS).setPhys _)
  · intro r' hr'
    obtain rfl | hr' := List.mem_cons.mp hr'
    · refine ⟨hc, Nat.mul_mod_left _ _, Nat.mul_mod_left _ _, ?_, hK, fun k hk => ?_⟩
      · simp only [r, PAGE_SIZE]
        omega
      · rw [hu.pte _ (hK k hk), mapPages_inside hle hk]
    · refine h.placed_of_pte hr' ?_
      intro k hk
      have hin := P.cells_subset_used (h.pages_live ▸ hr') (mem_runFrames.mpr ⟨k, hk, rfl⟩)
      have hout := Finset.disjoint_left.mp hpages hin
      rw [hu.pte _ ((h.placed r' hr').kernel k hk),
        mapPages_outside fun l hl heq => hout (mem_runFrames.mpr ⟨l, hl, heq.symm⟩)]

/-- A release takes the region off both ledgers. -/
theorem memFree (h : HeapInv s₀ krnl s P L) {r : Region} (hr : r ∈ s.live) :
    HeapInv s₀ krnl ⟨s.mem.memFree krnl r.vaddr r.count, s.live.erase r⟩ (P.free r)
      (L.free r) := by
  have hpl := h.placed r hr
  have hrP : r ∈ P.live := h.pages_live ▸ hr
  have hrL : r ∈ L.live := h.frames_live ▸ hr
  -- the first page leads to the first frame
  have hfirst : (s.mem.pte krnl (frameOf r.vaddr)).frame.addr = r.paddr := by
    have := hpl.leads 0 hpl.pos
    rw [Nat.zero_mul, Nat.add_zero, Nat.add_zero] at this
    rw [this, addr_frameOf hpl.paddr_aligned, Nat.mod_eq_of_lt hpl.paddr_lt]
  have hu := Memory.memFree_kernel h.kernel hpl.vaddr_aligned hpl.kernel
    fun k hk => h.present hr hk
  rw [hfirst] at hu
  set t := s.mem.memFree krnl r.vaddr r.count
  set s₁ := s.mem.setPhys (s.mem.phys.physSetfree r.paddr r.count)
  have hR : s.mem.Avoids krnl r.frames := h.avoids _ (h.frames_base ▸ L.base_disjoint r hrL)
  have hk₁ : s₁.KernelTables krnl := h.kernel.setfree hR
  have hav : s₁.Avoids krnl ∅ := hk₁.avoids (Finset.disjoint_empty_right _)
  constructor
  · exact h.pages_base
  · rw [Ledger.live_free, h.pages_live]
  · rw [Ledger.used_free P hrP, ← h.pages]
    exact hu.kernelPages_unmapPages
  · exact h.frames_base
  · rw [Ledger.live_free, h.frames_live]
  · rw [Ledger.used_free L hrL, ← h.frames]
    exact (congrArg Phys.used hu.phys).trans (Phys.used_physSetfree _ _ _)
  · exact ((congrArg Phys.balance hu.phys).trans (Phys.balance_physSetfree _ _ _)).trans h.balance
  · exact hu.kernelTables hk₁ hav
  · exact fun S hS => hu.avoids hk₁ hav ((h.avoids S hS).setPhys _)
  · intro r' hr'
    have hmem := List.mem_of_mem_erase hr'
    refine h.placed_of_pte hmem ?_
    intro k hk
    -- the regions that stay live share no page with the one freed
    have hout := Finset.disjoint_right.mp (P.disjoint_free hrP r' (h.pages_live ▸ hr'))
      (mem_runFrames.mpr ⟨k, hk, rfl⟩)
    rw [hu.pte _ ((h.placed r' hmem).kernel k hk),
      unmapPages_outside fun l hl heq => hout (mem_runFrames.mpr ⟨l, hl, heq.symm⟩)]

end HeapInv

theorem step_heapInv (h : HeapInv s₀ krnl s P L) (op : HeapCall) (hop : s.step krnl op = some s') :
    ∃ P' L', HeapInv s₀ krnl s' P' L' := by
  cases op with
  | memAlloc count w =>
      by_cases hfail : (s.mem.phys.physAlloc count).1 = Phys.allocFailed ∨
          (s.mem.memAlloc krnl count w false).1 = 0
      · simp [HeapClient.step, hfail] at hop
      · simp only [HeapClient.step, hfail, ↓reduceIte, Option.some.injEq] at hop
        subst hop
        rw [not_or] at hfail
        exact h.memAlloc hfail.1 hfail.2
  | memFree r =>
      by_cases hr : r ∈ s.live
      · simp only [HeapClient.step, hr, ↓reduceIte, Option.some.injEq] at hop
        subst hop
        exact ⟨_, _, h.memFree hr⟩
      · simp [HeapClient.step, hr] at hop

theorem run_heapInv (h : KernelReady s₀ krnl) {ops : List HeapCall}
    (hrun : run (HeapClient.step krnl) ⟨s₀, []⟩ ops = some s) : ∃ P L, HeapInv s₀ krnl s P L :=
  run_invariant (I := fun s => ∃ P L, HeapInv s₀ krnl s P L) (C := fun _ _ => True)
    (fun _ op _ ⟨_, _, hinv⟩ _ hop => step_heapInv hinv op hop) ops
    ⟨_, _, heapInv_start h⟩ (meets_true ops) hrun

namespace HeapInv

/-- The pages of a live region lead to its frames. -/
theorem translates (h : HeapInv s₀ krnl s P L) {r : Region} (hr : r ∈ s.live) {k : Nat}
    (hk : k < r.count) :
    s.mem.pageIspresent krnl (r.vaddr + k * PAGE_SIZE) = true ∧
      s.mem.virt2phys krnl (r.vaddr + k * PAGE_SIZE) = (r.paddr + k * PAGE_SIZE) % 2 ^ 32 := by
  have hp := h.placed r hr
  constructor
  · rw [h.kernel.tables.pageIspresent (hp.kernel k hk), h.present hr hk]
  · rw [s.mem.virt2phys_eq krnl (step_aligned hp.vaddr_aligned k), hp.leads k hk,
      addr_frameOf (step_aligned hp.paddr_aligned k)]

/-- With no live region, the used frames and the present pages are those of the
start. -/
theorem restored (h : HeapInv s₀ krnl s P L) (h₀ : KernelReady s₀ krnl) (hnone : s.live = []) :
    (∀ f, s.mem.phys.isUsed f = s₀.phys.isUsed f) ∧
      s.mem.phys.usedMem = s₀.phys.usedMem ∧
      ∀ p : Frame, KernelHalf p.pdi →
        s.mem.pageIspresent krnl p.addr = s₀.pageIspresent krnl p.addr := by
  have hused : s.mem.phys.used = s₀.phys.used := by
    rw [h.frames, L.used_of_live_eq_nil (h.frames_live.trans hnone), h.frames_base]
  have hpages : s.mem.kernelPages krnl = s₀.kernelPages krnl := by
    rw [h.pages, P.used_of_live_eq_nil (h.pages_live.trans hnone), h.pages_base]
  refine ⟨fun f => ?_, ?_, fun p hp => ?_⟩
  · rw [Bool.eq_iff_iff, ← Phys.mem_used, ← Phys.mem_used, hused]
  · have hmem := Phys.usedMem_of_balance (n := 0) h.balance (by rw [hused, Nat.add_zero])
    simpa using hmem
  · have hK : KernelHalf (frameOf p.addr).pdi := by rwa [frameOf_addr]
    have hiff := Finset.ext_iff.mp hpages p
    rw [Memory.mem_kernelPages, Memory.mem_kernelPages, and_congr_right_iff] at hiff
    rw [h.kernel.tables.pageIspresent hK, h₀.tables.pageIspresent hK, frameOf_addr,
      Bool.eq_iff_iff]
    exact hiff hp

end HeapInv

/-- After any run of allocations whose searches succeed and of releases of live
regions: live regions share neither page nor frame, every page of a live region
is present and leads where it led when the region was allocated, and when no
region is live the used frames, `used_mem` and the present kernel pages are
those of the start. -/
theorem runs_noAlias (h : KernelReady s₀ krnl) (ops : List HeapCall)
    (hrun : run (HeapClient.step krnl) ⟨s₀, []⟩ ops = some s) :
    s.live.Pairwise (fun r r' => Disjoint r.pages r'.pages ∧ Disjoint r.frames r'.frames) ∧
      (∀ r ∈ s.live, ∀ k < r.count,
        s.mem.pageIspresent krnl (r.vaddr + k * PAGE_SIZE) = true ∧
          s.mem.virt2phys krnl (r.vaddr + k * PAGE_SIZE) = (r.paddr + k * PAGE_SIZE) % 2 ^ 32) ∧
      (s.live = [] →
        (∀ f, s.mem.phys.isUsed f = s₀.phys.isUsed f) ∧
          s.mem.phys.usedMem = s₀.phys.usedMem ∧
          ∀ p : Frame, KernelHalf p.pdi →
            s.mem.pageIspresent krnl p.addr = s₀.pageIspresent krnl p.addr) := by
  obtain ⟨P, L, hinv⟩ := run_heapInv h hrun
  refine ⟨?_, fun r hr k hk => hinv.translates hr hk, hinv.restored h⟩
  exact List.Pairwise.and (hinv.pages_live ▸ P.pairwise) (hinv.frames_live ▸ L.pairwise)

/-! ## Two regions -/

/-- Two allocations, and a release of the first. -/
def heapCalls : List HeapCall :=
  [.memAlloc 2 true, .memAlloc 1 false, .memFree ⟨8192, 1081344, 2⟩]

/-- The second region stays where it is. -/
theorem runs_noAlias_booted :
    ∃ s, run (HeapClient.step 1) ⟨booted, []⟩ heapCalls = some s ∧
      s.live = [⟨16384, 1089536, 1⟩] ∧
      s.mem.virt2phys 1 16384 = 1089536 := by
  have hlive : (run (HeapClient.step 1) ⟨booted, []⟩ heapCalls).map HeapClient.live =
      some [⟨16384, 1089536, 1⟩] := by decide +kernel
  obtain ⟨s, hs, hls⟩ := Option.map_eq_some_iff.mp hlive
  have hreg := (runs_noAlias booted_ready heapCalls hs).2.1
  rw [hls] at hreg
  exact ⟨s, hs, hls, (hreg _ (List.mem_singleton_self _) 0 Nat.one_pos).2⟩

end StardustOS.Mem
