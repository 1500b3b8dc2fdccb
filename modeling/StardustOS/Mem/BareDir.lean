import StardustOS.Mem.AddressSpace
import StardustOS.Mem.RealRam

/-!
# A directory without user pages

`mem_alloc_pgdir` gives out a directory whose user half is empty, in a frame of
its own.  As long as it stays so, `mem_free_pgdir` gives that frame back and no
other (`BareDir.used_memFreePgdir`).

When it finds no page, `mem_alloc_pgdir` returns NULL, and `mem_free_pgdir` takes
NULL for a directory: it frees frame 0 (`SpaceReady.zero_notMem_memFreePgdir`).
-/

namespace StardustOS.Mem

open Lib

/-- What `mem_init` leaves, as far as directories are concerned: the kernel tables
are in place, page 0 leads to frame 0, which is used, and the kernel has no user
pages. -/
structure SpaceReady (L : Layout) (s : Memory) : Prop where
  tables : s.KernelTables L.krnlPgdir
  page_zero : IdentPage s L.krnlPgdir 0
  zero_used : (0 : Frame) ∈ s.phys.used
  krnl_ne : L.krnlPgdir ≠ 0
  no_user : ∀ k, ¬ KernelHalf k → (s.ram L.krnlPgdir k).present = false

/-- A directory as `mem_alloc_pgdir` makes it. -/
structure BareDir (L : Layout) (dir : Frame) (s : Memory) : Prop where
  ident : IdentPage s L.krnlPgdir dir
  kernel : ∀ k, KernelHalf k → s.ram dir k = ⟨true, true, false, L.table k.val⟩
  user : ∀ k, ¬ KernelHalf k → (s.ram dir k).present = false

variable {L : Layout} {s : Memory} {dir : Frame}

/-- The frame of a directory without user pages is given back. -/
theorem BareDir.used_memFreePgdir (hb : BareDir L dir s) (h : s.KernelTables L.krnlPgdir) :
    (s.memFreePgdir L dir).phys.used = s.phys.used.erase dir := by
  rw [Memory.memFreePgdir, freeTables_none _ fun k hk => hb.user k (Nat.not_lt.mpr hk)]
  exact (hb.ident.memFree h).1

namespace SpaceReady

variable (h : SpaceReady L s)

include h

/-- A failed allocation changes nothing: page 0 is never free. -/
theorem memAllocPgdir_failed (h0 : (s.memAllocPgdir L).1 = 0) : (s.memAllocPgdir L).2 = s := by
  obtain ⟨a, s₁, hx⟩ : ∃ a s₁, s.memAllocident L.krnlPgdir 1 true false = (a, s₁) := ⟨_, _, rfl⟩
  have heq := memAllocPgdir_eq hx
  split at heq
  · rename_i ha
    obtain hfail | ⟨i, -, hdis, hok, -⟩ := Memory.memAllocident_kernelRun h.tables 1 true
    · rw [heq]
      exact congrArg Prod.snd (hx.symm.trans hfail)
    · -- then frame 0 would have been unused
      rw [hx] at hok
      obtain rfl : i = 0 := (Nat.mul_eq_zero.mp (hok.symm.trans ha)).resolve_right (by decide)
      rw [runFrames_one, Finset.disjoint_singleton_right] at hdis
      exact absurd h.zero_used hdis
  · rename_i ha
    rw [heq] at h0
    exact absurd h0 ha

theorem memAllocPgdir_bare (hret : (s.memAllocPgdir L).1 ≠ 0) :
    ∃ f : Frame, f ∉ s.phys.used ∧ (s.memAllocPgdir L).1 = f.addr ∧
      SpaceReady L (s.memAllocPgdir L).2 ∧ BareDir L f (s.memAllocPgdir L).2 ∧
        (s.memAllocPgdir L).2.phys.used = insert f s.phys.used := by
  obtain ⟨f, hf, hfu, haddr, hu, hrow⟩ := memAllocPgdir_spec h.tables hret
  obtain ⟨hk, hav⟩ := h.tables.mark hfu
  have hused : (s.memAllocPgdir L).2.phys.used = insert f s.phys.used := by
    rw [hu.phys]
    exact s.phys.used_physSetused_frame f
  have hne : (0 : Frame) ≠ f := fun heq => hfu (heq ▸ h.zero_used)
  have hzero : (s.memAllocPgdir L).2.pte L.krnlPgdir 0 = s.pte L.krnlPgdir 0 := by
    rw [hu.pte 0 h.page_zero.kernel, Function.update_of_ne hne]
  refine ⟨f, hfu, haddr, ⟨hu.kernelTables hk hav, ?_, ?_, h.krnl_ne, ?_⟩, ⟨?_, ?_, ?_⟩, hused⟩
  · exact ⟨h.page_zero.kernel, hzero ▸ h.page_zero.present, hzero ▸ h.page_zero.frame⟩
  · rw [hused]
    exact Finset.mem_insert_of_mem h.zero_used
  · rw [(hu.rows hk hav).1]
    exact h.no_user
  · refine ⟨hf, ?_, ?_⟩
    all_goals rw [hu.pte f hf, Function.update_self]
  · intro k hk
    rw [hrow, if_pos hk]
  · intro k hk
    rw [hrow, if_neg hk]
    rfl

end SpaceReady

/-! ## NULL as a directory -/

/-- What `mem_free` of one page does to the used frames. -/
theorem used_memFree_page (s : Memory) (krnl f : Frame) :
    (s.memFree krnl f.addr 1).phys.used =
      if s.pageIspresent krnl f.addr then s.phys.used.erase (s.pte krnl f).frame
      else s.phys.used := by
  have hone : s.virtIspresent krnl f.addr 1 = s.pageIspresent krnl f.addr := by
    simp [Memory.virtIspresent, allUpto]
  rw [Memory.memFree, hone]
  split
  · rw [Memory.phys_virtUnmap, Memory.setPhys_phys, Memory.virt2phys_eq _ _ (addr_aligned f),
      frameOf_addr, Phys.used_physSetfree_frame]
  · rfl

theorem notMem_used_memFree {f p : Frame} {krnl : Frame} (h : f ∉ s.phys.used) :
    f ∉ (s.memFree krnl p.addr 1).phys.used := by
  rw [used_memFree_page]
  split
  · exact fun hf => h (Finset.mem_of_mem_erase hf)
  · exact h

section Zero

variable {krnl : Frame}

/-- Freeing page 0 frees frame 0. -/
theorem IdentPage.zero_notMem (hid : IdentPage s krnl 0) (ht : s.TablesOn krnl KernelHalf) :
    (0 : Frame) ∉ (s.memFree krnl (0 : Frame).addr 1).phys.used := by
  have hpres : s.pageIspresent krnl (0 : Frame).addr = true := by
    rw [ht.pageIspresent (by rw [frameOf_addr]; exact hid.kernel), frameOf_addr]
    exact hid.present
  rw [used_memFree_page, if_pos hpres, hid.frame]
  exact Finset.notMem_erase _ _

/-- Freeing another page keeps page 0. -/
theorem IdentPage.memFree_ne {p : Frame} (hid : IdentPage s krnl 0)
    (ht : s.TablesOn krnl KernelHalf)
    (huser : ∀ k, ¬ KernelHalf k → (s.ram krnl k).present = false) (hp : p ≠ 0) :
    IdentPage (s.memFree krnl p.addr 1) krnl 0 ∧
      (s.memFree krnl p.addr 1).TablesOn krnl KernelHalf := by
  rw [Memory.memFree]
  split
  · rename_i hpres
    have hpage : s.pageIspresent krnl p.addr = true := by
      simpa [Memory.virtIspresent, allUpto] using hpres
    have hkernel : KernelHalf p.pdi := by
      by_contra hk
      rw [Memory.pageIspresent_eq, frameOf_addr, huser _ hk] at hpage
      exact absurd hpage Bool.false_ne_true
    have hone : ∀ i < 1, frameOf (p.addr + i * PAGE_SIZE) = p := by
      intro i hi
      obtain rfl : i = 0 := by omega
      rw [Nat.zero_mul, Nat.add_zero, frameOf_addr]
    have hm := Memory.virtUnmap_hasPtes (s := s.setPhys
      (s.phys.physSetfree (s.virt2phys krnl p.addr) 1)) (ht.of_row rfl)
      (fun i hi => (hone i hi).symm ▸ hkernel)
    have hkeep := unmapPages_outside (f := s.pte krnl) (p := 0) fun i hi =>
      (hone i hi).symm ▸ Ne.symm hp
    have hzero := (hm.pte 0 hid.kernel).trans hkeep
    exact ⟨⟨hid.kernel, hzero ▸ hid.present, hzero ▸ hid.frame⟩, ht.of_row hm.row⟩
  · exact ⟨hid, ht⟩

end Zero

/-- To take down the directory NULL is to free frame 0. -/
theorem SpaceReady.zero_notMem_memFreePgdir (h : SpaceReady L s) :
    (0 : Frame) ∉ (s.memFreePgdir L 0).phys.used := by
  rw [Memory.memFreePgdir]
  have ht := h.tables.tables
  obtain hnone | ⟨k, hk, hpres, hfirst⟩ := first_table s 0
  · rw [freeTables_none _ fun k hk => hnone k (Nat.not_lt.mpr hk)]
    exact h.page_zero.zero_notMem ht
  · obtain ⟨phys, hloop, -⟩ :=
      innerLoop_spec s (s.ram 0 k).frame (n := 1024 - k.val) (by omega)
    have hk256 : 256 ≤ k.val := Nat.not_lt.mp hk
    rw [freeTables_first _ (by omega) hk256 hpres (fun j hj => hfirst j (Nat.not_lt.mpr hj)),
      hloop]
    have hid : IdentPage (s.setPhys phys) L.krnlPgdir 0 :=
      ⟨h.page_zero.kernel, h.page_zero.present, h.page_zero.frame⟩
    by_cases hpt : (s.ram 0 k).frame = 0
    · rw [hpt]
      exact notMem_used_memFree (hid.zero_notMem (ht.of_row rfl))
    · obtain ⟨hid', ht'⟩ := hid.memFree_ne (ht.of_row rfl) h.no_user hpt
      exact hid'.zero_notMem ht'

end StardustOS.Mem
