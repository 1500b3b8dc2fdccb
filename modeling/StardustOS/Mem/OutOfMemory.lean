import StardustOS.Mem.KernelSpace

/-!
# Running out of memory

`phys_alloc` reports a failure by `-NEWLAND_ENOMEM` in an unsigned result, and
`virt_alloc` by 0.  `mem_alloc` tests the first for 0 and goes on after the second,
to clear the pages from address 0 on; `mem_map` tests nothing and returns 0.

`Handled` says what a call should do that runs out of memory, and `Spared` when it
does so by chance: a `mem_alloc` when both searches fail and the pages that it
clears hold zeros, a `mem_map` never.  `spared_handled` is the one direction.  The
other one, `handled_spared`, leaves out the calls of `AtNull`, in which
`virt_alloc` takes the address 0 and all that is written to the tables may be
cleared again.
-/

namespace StardustOS.Mem

open Lib

/-- A call that may run out of memory. -/
inductive AllocCall
  | memAlloc (dir : Frame) (count : Nat) (iswrite isuser : Bool)
  | memMap (pgdir : Frame) (addr count : Nat) (iswrite isuser : Bool)

/-- A `mem_alloc` is for at least one page. -/
def AllocCall.Nonempty : AllocCall → Prop
  | .memAlloc _ count _ _ => 1 ≤ count
  | .memMap .. => True

namespace Memory

variable (s : Memory)

/-- `mem_map`, with its result. -/
def memMapResult (pgdir : Frame) (addr count : Nat) (iswrite isuser : Bool) : Int × Memory :=
  (0, s.memMap pgdir addr count iswrite isuser)

/-! ## What fails -/

/-- `phys_alloc` finds no run of free frames. -/
def PhysFails (count : Nat) : Prop := (s.phys.physAlloc count).1 = Phys.allocFailed

/-- What the search of `virt_alloc` finds. -/
def virtScan (dir : Frame) (count : Nat) (isuser : Bool) : Option Nat :=
  scanRun (fun i => !s.pageIspresent dir (i * PAGE_SIZE)) count
    ((if isuser then 1024 else 256) * 1024 - (if isuser then 256 else 0) * 1024)
    ((if isuser then 256 else 0) * 1024) 0 0

/-- `virt_alloc` finds no range of absent pages. -/
def VirtFails (dir : Frame) (count : Nat) (isuser : Bool) : Prop :=
  s.virtScan dir count isuser = none

/-- `phys_alloc` fails for the page of this number of `mem_map`: the page is not
present when the loop comes to it, and no frame is free. -/
def MapFailsAt (pgdir : Frame) (addr : Nat) (iswrite isuser : Bool) (i : Nat) : Prop :=
  let t := s.memMap pgdir addr i iswrite isuser
  t.virtIspresent pgdir (addr + i * PAGE_SIZE) 1 = false ∧ t.PhysFails 1

/-- The frame is cleared already. -/
def ZeroRow (F : Frame) : Prop := ∀ k, s.ram F k = Entry.zero

/-- The first pages that a `memset` clears. -/
def memsetPages (vaddr n : Nat) : Memory :=
  forUpto n (fun i s => s.memsetPage (vaddr + i * PAGE_SIZE)) s

/-- The pages of `memset(vaddr, 0, count * PAGE_SIZE)`. -/
def memsetCount (count : Nat) : Nat := count * PAGE_SIZE % 2 ^ 32 / PAGE_SIZE

/-- A `memset` comes to a page that is not present. -/
def MemsetFaults (vaddr count : Nat) : Prop :=
  ∃ i < memsetCount count,
    (s.memsetPages vaddr i).pageIspresent s.cr3 (vaddr + i * PAGE_SIZE) = false

/-- The `memset` at the end of a `mem_alloc` comes to a page that is not present. -/
def MemAllocFaults (dir : Frame) (count : Nat) (iswrite isuser : Bool) : Prop :=
  let (paddr, phys) := s.phys.physAlloc count
  let (vaddr, t) := (s.setPhys phys).virtAlloc dir paddr count iswrite isuser
  paddr ≠ 0 ∧ t.MemsetFaults vaddr count

/-- The pages that `memset(0, 0, count * PAGE_SIZE)` clears are there and hold zeros. -/
def ClearAtNull (count : Nat) : Prop :=
  ∀ i < memsetCount count, s.pageIspresent s.cr3 (0 + i * PAGE_SIZE) = true ∧
    s.ZeroRow (frameOf (s.virt2phys s.cr3 (0 + i * PAGE_SIZE)))

/-- The table of the page at address 0, or the directory if it has none. -/
def nullTable (dir : Frame) : Frame :=
  if (s.ram dir 0).present then (s.ram dir 0).frame else dir

/-- What a call should do that runs out of memory: `mem_alloc` faults at no page,
returns 0 and changes nothing; `mem_map` returns an error code and maps no page to a
frame made of the result of the `phys_alloc` that failed. -/
def Handled : AllocCall → Prop
  | .memAlloc dir count iswrite isuser =>
      s.PhysFails count ∨ s.VirtFails dir count isuser →
        ¬ s.MemAllocFaults dir count iswrite isuser ∧
          s.memAlloc dir count iswrite isuser = (0, s)
  | .memMap pgdir addr count iswrite isuser =>
      (∃ i < count, s.MapFailsAt pgdir addr iswrite isuser i) →
        (s.memMapResult pgdir addr count iswrite isuser).1 < 0 ∧
          ∀ i < count, s.MapFailsAt pgdir addr iswrite isuser i →
            (s.memMap pgdir addr (i + 1) iswrite isuser).pte pgdir (frameOf (addr + i * PAGE_SIZE))
              ≠ ⟨true, iswrite, isuser, frameOf Phys.allocFailed⟩

/-- The call does not run out of memory, or it is a `mem_alloc` in which neither
search finds anything and that clears nothing but zeros. -/
def Spared : AllocCall → Prop
  | .memAlloc dir count _ isuser =>
      ¬ (s.PhysFails count ∨ s.VirtFails dir count isuser) ∨
        s.PhysFails count ∧ s.VirtFails dir count isuser ∧ s.ClearAtNull count
  | .memMap pgdir addr count iswrite isuser =>
      ¬ ∃ i < count, s.MapFailsAt pgdir addr iswrite isuser i

/-- `phys_alloc` fails, `virt_alloc` takes the range from address 0 on, and the table
it goes to is empty. -/
def AtNull : AllocCall → Prop
  | .memAlloc dir count _ isuser =>
      s.PhysFails count ∧ s.virtScan dir count isuser = some 0 ∧ s.ZeroRow (s.nullTable dir)
  | .memMap .. => False

/-! ## Clearing pages -/

theorem eq_of_fields {s t : Memory} (hphys : s.phys = t.phys) (hram : ∀ F, s.ram F = t.ram F)
    (hcr3 : s.cr3 = t.cr3) : s = t := by
  cases s
  cases t
  simp only [mk.injEq] at *
  exact ⟨hphys, funext hram, hcr3⟩

/-- From `s` to `t` frames were cleared and nothing else was changed. -/
structure Cleared (s t : Memory) : Prop where
  phys : t.phys = s.phys
  cr3 : t.cr3 = s.cr3
  row : ∀ F, t.ram F = s.ram F ∨ t.ram F = fun _ => Entry.zero

theorem Cleared.refl : Cleared s s := ⟨rfl, rfl, fun _ => Or.inl rfl⟩

variable {s}

theorem Cleared.trans {t u : Memory} (h : Cleared s t) (h' : Cleared t u) : Cleared s u where
  phys := h'.phys.trans h.phys
  cr3 := h'.cr3.trans h.cr3
  row F := by
    rcases h'.row F with hrow | hrow
    · rw [hrow]
      exact h.row F
    · exact Or.inr hrow

/-- When all is as before in the end it was so all the time. -/
theorem Cleared.eq_of_eq {t : Memory} (h : Cleared s t) (h' : Cleared t s) : t = s := by
  refine eq_of_fields h.phys (fun F => ?_) h.cr3
  rcases h.row F with hrow | hrow
  · exact hrow
  · rcases h'.row F with hback | hback
    · exact hback.symm
    · exact hrow.trans hback.symm

theorem memsetPage_cleared (vaddr : Nat) : Cleared s (s.memsetPage vaddr) := by
  rw [memsetPage]
  split
  · refine ⟨rfl, rfl, fun F => ?_⟩
    by_cases hF : F = frameOf (s.virt2phys s.cr3 vaddr)
    · subst hF
      exact Or.inr (funext fun k => zeroFrame_ram_self _ _ _)
    · exact Or.inl (zeroFrame_row_of_ne _ hF)
  · exact Cleared.refl s

theorem memset_cleared (vaddr count : Nat) : Cleared s (s.memset vaddr count) :=
  forUpto_inv (P := fun _ t => Cleared s t) _ (Cleared.refl s)
    fun _ _ _ ht => ht.trans (memsetPage_cleared _)

theorem memsetPage_eq_iff (vaddr : Nat) :
    s.memsetPage vaddr = s ↔
      (s.pageIspresent s.cr3 vaddr = true → s.ZeroRow (frameOf (s.virt2phys s.cr3 vaddr))) := by
  rw [memsetPage]
  split
  · rename_i hpres
    constructor
    · intro h _ k
      have hk := s.zeroFrame_ram_self (frameOf (s.virt2phys s.cr3 vaddr)) k
      rwa [h] at hk
    · intro h
      refine eq_of_fields rfl (fun F => ?_) rfl
      by_cases hF : F = frameOf (s.virt2phys s.cr3 vaddr)
      · subst hF
        exact funext fun k => (zeroFrame_ram_self _ _ _).trans (h hpres k).symm
      · exact zeroFrame_row_of_ne _ hF
  · rename_i hpres
    exact ⟨fun _ h => absurd h hpres, fun _ => rfl⟩

/-- Clearing pages one after the other changes nothing exactly when none does. -/
theorem forUpto_eq_iff {body : Nat → Memory → Memory} (hbody : ∀ i t, Cleared t (body i t))
    (n : Nat) : forUpto n body s = s ↔ ∀ i < n, body i s = s := by
  induction n with
  | zero => exact ⟨fun _ i hi => absurd hi (Nat.not_lt_zero i), fun _ => rfl⟩
  | succ n ih =>
      rw [forUpto_succ]
      constructor
      · intro h
        have hback : Cleared (forUpto n body s) s := by
          have := hbody n (forUpto n body s)
          rwa [h] at this
        have hn : forUpto n body s = s :=
          (forUpto_inv (P := fun _ t => Cleared s t) n (Cleared.refl s)
            fun i t _ ht => ht.trans (hbody i t)).eq_of_eq hback
        intro i hi
        rcases Nat.lt_succ_iff_lt_or_eq.mp hi with hlt | rfl
        · exact ih.mp hn i hlt
        · rwa [hn] at h
      · intro h
        rw [ih.mpr fun i hi => h i (Nat.lt_succ_of_lt hi)]
        exact h n (Nat.lt_succ_self n)

theorem memsetPages_eq_iff (vaddr n : Nat) : s.memsetPages vaddr n = s ↔
    ∀ i < n, s.pageIspresent s.cr3 (vaddr + i * PAGE_SIZE) = true →
      s.ZeroRow (frameOf (s.virt2phys s.cr3 (vaddr + i * PAGE_SIZE))) := by
  rw [memsetPages, forUpto_eq_iff fun i t => memsetPage_cleared _]
  exact forall_congr' fun i => imp_congr_right fun _ => memsetPage_eq_iff _

theorem memset_eq_memsetPages (vaddr count : Nat) :
    s.memset vaddr count = s.memsetPages vaddr (memsetCount count) := rfl

/-- A `memset` from address 0 on does nothing at all exactly when there are zeros. -/
theorem memset_null_iff (count : Nat) :
    ¬ s.MemsetFaults 0 count ∧ s.memset 0 count = s ↔ s.ClearAtNull count := by
  rw [memset_eq_memsetPages, memsetPages_eq_iff]
  constructor
  · rintro ⟨hfault, hzero⟩ i hi
    have hpres : s.pageIspresent s.cr3 (0 + i * PAGE_SIZE) = true := by
      by_contra habs
      refine hfault ⟨i, hi, ?_⟩
      rw [(memsetPages_eq_iff 0 i).mpr fun j hj => hzero j (hj.trans hi)]
      exact Bool.eq_false_iff.mpr habs
    exact ⟨hpres, hzero i hi hpres⟩
  · intro h
    refine ⟨?_, fun i hi _ => (h i hi).2⟩
    rintro ⟨i, hi, habs⟩
    rw [(memsetPages_eq_iff 0 i).mpr fun j hj _ => (h j (hj.trans hi)).2, (h i hi).1] at habs
    exact absurd habs (by decide)

/-! ## Entries that stay -/

/-- From `s` to `t` used frames stay used; if there are no more, entries that are
present stay present. -/
structure Grows (s t : Memory) : Prop where
  used : s.phys.used ⊆ t.phys.used
  entry : t.phys.used ⊆ s.phys.used → ∀ F k, (s.ram F k).present = true →
    (t.ram F k).present = true

theorem Grows.refl (s : Memory) : Grows s s := ⟨Finset.Subset.refl _, fun _ _ _ h => h⟩

theorem Grows.trans {t u : Memory} (h : Grows s t) (h' : Grows t u) : Grows s u where
  used := h.used.trans h'.used
  entry hsub F k hk :=
    h'.entry (hsub.trans h.used) F k (h.entry (h'.used.trans hsub) F k hk)

/-- An entry that is present is written. -/
theorem grows_setEntry (F : Frame) (k : Fin 1024) {e : Entry} (he : e.present = true) :
    Grows s (s.setEntry F k e) := by
  refine ⟨Finset.Subset.refl _, fun _ F' k' h => ?_⟩
  by_cases hk : F' = F ∧ k' = k
  · obtain ⟨rfl, rfl⟩ := hk
    rwa [setEntry_ram_self]
  · rwa [setEntry_ram_of_ne _ _ (not_and_or.mp hk)]

/-- A table is allocated with a frame that was free. -/
theorem grows_memAllocident (dir : Frame) (w : Bool) :
    Grows s (s.memAllocident dir 1 w false).2 := by
  refine ⟨used_subset_memAllocident s dir 1 w false, ?_⟩
  rcases s.memAllocidentWith_spec (fun a s => s.virtMap dir a a 1 w false) dir 1 false with
    hfail | ⟨i, -, -, hfree, hok⟩
  · intro _ F k h
    rw [memAllocident, hfail]
    exact h
  · intro hsub
    -- the frame that was marked was not used before
    have hnew := (s.identFree_eq_true.mp (hfree 0 Nat.one_pos)).2
    refine absurd (hsub ?_) hnew
    rw [memAllocident, hok]
    refine (keeps_used {frameOf ((i + 0) * PAGE_SIZE)}).memset _ _ ?_ (Finset.mem_singleton_self _)
    refine Finset.Subset.trans ?_ (used_subset_virtMap _ _ _ _ _ _ _)
    rw [setPhys_phys, Phys.used_physSetused, runFrames_one, Nat.add_zero]
    exact Finset.subset_union_right

theorem grows_virtMapPage (dir : Frame) (vaddr paddr : Nat) (w u : Bool) :
    Grows s (s.virtMapPage (fun s => s.memAllocident dir 1 w false) dir vaddr paddr w u) := by
  rw [virtMapPage]
  split
  · exact (grows_memAllocident dir w).trans
      ((grows_setEntry _ _ rfl).trans (grows_setEntry _ _ rfl))
  · exact grows_setEntry _ _ rfl

/-- The first page of a range from address 0 leaves an entry in the table of address 0
or in the directory. -/
theorem virtMapPage_null (dir : Frame) (paddr : Nat) (w u : Bool) (alloc : Memory → Nat × Memory) :
    ((s.virtMapPage alloc dir 0 paddr w u).ram (s.nullTable dir) 0).present = true := by
  rw [virtMapPage, nullTable]
  split
  · rename_i habs
    have habs : (s.ram dir 0).present = false := habs
    rw [habs, if_neg Bool.false_ne_true]
    by_cases hpt : frameOf (alloc s).1 = dir
    · show ((setEntry _ (frameOf (alloc s).1) (ptIndex 0) _).ram dir 0).present = true
      rw [hpt]
      exact congrArg Entry.present (setEntry_ram_self _ _ _ _)
    · rw [setEntry_ram_of_ne _ _ (Or.inl (Ne.symm hpt))]
      exact congrArg Entry.present (setEntry_ram_self _ _ _ _)
  · rename_i hpres
    have hpres : (s.ram dir 0).present = true := Bool.eq_true_of_not_eq_false hpres
    rw [if_pos hpres]
    exact congrArg Entry.present (setEntry_ram_self _ _ _ _)

theorem virtMap_null (dir : Frame) (paddr : Nat) {count : Nat} (hc : 1 ≤ count) (w u : Bool) :
    s.phys.used ⊆ (s.virtMap dir 0 paddr count w u).phys.used ∧
      ((s.virtMap dir 0 paddr count w u).phys.used ⊆ s.phys.used →
        ((s.virtMap dir 0 paddr count w u).ram (s.nullTable dir) 0).present = true) := by
  obtain ⟨n, rfl⟩ := Nat.exists_eq_add_of_le' hc
  rw [virtMap_eq, virtMapWith]
  induction n with
  | zero =>
      have hgrows : Grows s (s.virtMapPage (fun s => s.memAllocident dir 1 w false) dir 0 paddr w u)
        := grows_virtMapPage dir _ _ w u
      simp only [forUpto_succ, forUpto_zero, Nat.zero_mul, Nat.add_zero]
      exact ⟨hgrows.used, fun _ => virtMapPage_null dir _ w u _⟩
  | succ n ih =>
      obtain ⟨hused, hentry⟩ := ih (Nat.succ_pos n)
      rw [forUpto_succ]
      have hgrows := grows_virtMapPage (s := forUpto (n + 1) (fun i s => s.virtMapPage
        (fun s => s.memAllocident dir 1 w false) dir (0 + i * PAGE_SIZE) (paddr + i * PAGE_SIZE)
        w u) s) dir (0 + (n + 1) * PAGE_SIZE) (paddr + (n + 1) * PAGE_SIZE) w u
      refine ⟨hused.trans hgrows.used, fun hsub => ?_⟩
      exact hgrows.entry (hsub.trans hused) _ _ (hentry (hgrows.used.trans hsub))

/-! ## `mem_alloc` -/

theorem physAlloc_of_fails {count : Nat} (h : s.PhysFails count) :
    s.phys.physAlloc count = (Phys.allocFailed, s.phys) := by
  rcases s.phys.physAlloc_spec count with hfail | ⟨i, -, hok, -⟩
  · exact hfail
  · rw [PhysFails, hok] at h
    exact absurd h (Phys.allocFailed_ne i)

theorem virtAlloc_of_fails {dir : Frame} {count : Nat} {u : Bool} (h : s.VirtFails dir count u)
    (paddr : Nat) (w : Bool) : s.virtAlloc dir paddr count w u = (0, s) := by
  rw [VirtFails, virtScan] at h
  rw [virtAlloc]
  simp only [h, ite_self]

theorem virtAlloc_of_some {dir : Frame} {count : Nat} {u : Bool} {j : Nat} (hc : 1 ≤ count)
    (h : s.virtScan dir count u = some j) (paddr : Nat) (w : Bool) :
    s.virtAlloc dir paddr count w u =
      (j * PAGE_SIZE, s.virtMap dir (j * PAGE_SIZE) paddr count w u) := by
  rw [virtScan] at h
  rw [virtAlloc, if_neg (by omega)]
  simp only [h]

/-- The failure of `phys_alloc` is not seen: its result goes to `virt_alloc`. -/
theorem memAlloc_of_physFails {count : Nat} (hc : 1 ≤ count) (h : s.PhysFails count) (dir : Frame)
    (w u : Bool) :
    s.memAlloc dir count w u =
      ((s.virtAlloc dir Phys.allocFailed count w u).1,
        (s.virtAlloc dir Phys.allocFailed count w u).2.memset
          (s.virtAlloc dir Phys.allocFailed count w u).1 count) := by
  rw [memAlloc, if_neg (by omega), physAlloc_of_fails h]
  rfl

theorem memAlloc_ne_of_physOk {count : Nat} (hc : 1 ≤ count) (h : ¬ s.PhysFails count) (dir : Frame)
    (w u : Bool) : s.memAlloc dir count w u ≠ (0, s) := by
  intro heq
  obtain ⟨i, -, hok, hdisj⟩ := s.phys.physAlloc_some h
  have hsub := s.used_physAlloc_subset dir (Nat.ne_of_gt hc) w u
  rw [heq, hok, Phys.used_physSetused] at hsub
  -- the first frame of the run
  have hrun : frameOf (i * PAGE_SIZE + 0 * PAGE_SIZE) ∈ runFrames (i * PAGE_SIZE) count :=
    mem_runFrames.mpr ⟨0, hc, rfl⟩
  exact Finset.disjoint_left.mp hdisj (hsub (Finset.mem_union_right _ hrun)) hrun

/-- Both searches fail: what is left is that pages from address 0 on are cleared. -/
theorem memAlloc_of_fails {dir : Frame} {count : Nat} {u : Bool} (hc : 1 ≤ count)
    (hphys : s.PhysFails count) (hvirt : s.VirtFails dir count u) (w : Bool) :
    s.memAlloc dir count w u = (0, s.memset 0 count) := by
  rw [memAlloc_of_physFails hc hphys, virtAlloc_of_fails hvirt]

theorem memAllocFaults_of_fails {dir : Frame} {count : Nat} {u : Bool} (hphys : s.PhysFails count)
    (hvirt : s.VirtFails dir count u) (w : Bool) :
    s.MemAllocFaults dir count w u ↔ s.MemsetFaults 0 count := by
  have hne : Phys.allocFailed ≠ 0 := by decide
  rw [MemAllocFaults, physAlloc_of_fails hphys]
  show (let (vaddr, t) := s.virtAlloc dir Phys.allocFailed count w u
    Phys.allocFailed ≠ 0 ∧ t.MemsetFaults vaddr count) ↔ _
  rw [virtAlloc_of_fails hvirt]
  exact and_iff_right hne

theorem pageIspresent_null (dir : Frame) :
    s.pageIspresent dir 0 = (s.ram (s.nullTable dir) 0).present := by
  rw [pageIspresent, nullTable, show pdIndex 0 = 0 from rfl, show ptIndex 0 = 0 from rfl]
  cases h : (s.ram dir 0).present with
  | true => rfl
  | false => simp [h]

theorem absent_of_virtScan {dir : Frame} {count : Nat} {u : Bool} (hc : 1 ≤ count)
    (h : s.virtScan dir count u = some 0) : s.pageIspresent dir 0 = false := by
  obtain ⟨-, -, hrun⟩ := scanRun_zero_some h
  simpa using hrun 0 hc

/-- `virt_alloc` finds a range for memory that is not there.  When it returns 0 for
that and all is as before in the end, the table of address 0 was empty. -/
theorem nullTable_of_memAlloc {dir : Frame} {count : Nat} {u : Bool} (hc : 1 ≤ count)
    (hphys : s.PhysFails count) {j : Nat} (hscan : s.virtScan dir count u = some j) {w : Bool}
    (h : s.memAlloc dir count w u = (0, s)) : j = 0 ∧ s.ZeroRow (s.nullTable dir) := by
  rw [memAlloc_of_physFails hc hphys, virtAlloc_of_some hc hscan] at h
  obtain ⟨hj, hs⟩ := Prod.mk.inj h
  have hj : j = 0 := by
    rcases Nat.mul_eq_zero.mp hj with hj | hpage
    · exact hj
    · exact absurd hpage (by decide)
  subst j
  rw [Nat.zero_mul] at hs
  refine ⟨rfl, ?_⟩
  have habs := absent_of_virtScan hc hscan
  obtain ⟨-, hentry⟩ := virtMap_null (s := s) dir Phys.allocFailed hc w u
  have hclear := memset_cleared (s := s.virtMap dir 0 Phys.allocFailed count w u) 0 count
  rw [hs] at hclear
  have hpres := hentry (by rw [← hclear.phys])
  rcases hclear.row (s.nullTable dir) with hrow | hrow
  · -- the entry would have been there before
    rw [← hrow] at hpres
    rw [pageIspresent_null, hpres] at habs
    exact absurd habs (by decide)
  · exact fun k => congrFun hrow k

/-! ## `mem_map` -/

theorem virtMapPage_installs (alloc : Memory → Nat × Memory) (dir : Frame) (vaddr paddr : Nat)
    (w u : Bool) : ∃ F k,
      (s.virtMapPage alloc dir vaddr paddr w u).ram F k = ⟨true, w, u, frameOf paddr⟩ := by
  rw [virtMapPage]
  split
  · exact ⟨_, _, setEntry_ram_self _ _ _ _⟩
  · exact ⟨_, _, setEntry_ram_self _ _ _ _⟩

/-- For a page that `phys_alloc` fails for, the error code is taken for an address. -/
theorem memMap_installs {pgdir : Frame} {addr i : Nat} {w u : Bool}
    (h : s.MapFailsAt pgdir addr w u i) : ∃ F k,
      (s.memMap pgdir addr (i + 1) w u).ram F k = ⟨true, w, u, frameOf Phys.allocFailed⟩ := by
  obtain ⟨habs, hphys⟩ := h
  rw [memMap, forUpto_succ, ← memMap, memMapPage, habs, physAlloc_of_fails hphys]
  simp only [Bool.not_false, ↓reduceIte, virtMap_eq, virtMapWith, forUpto_succ, forUpto_zero,
    Nat.zero_mul, Nat.add_zero]
  exact virtMapPage_installs _ _ _ _ _ _

/-! ## Calls -/

/-- The result of `mem_map` never tells of a failure. -/
theorem handled_memMap_iff (pgdir : Frame) (addr count : Nat) (w u : Bool) :
    s.Handled (.memMap pgdir addr count w u) ↔ s.Spared (.memMap pgdir addr count w u) := by
  constructor
  · intro h hfails
    exact absurd (h hfails).1 (Int.lt_irrefl 0)
  · intro h hfails
    exact absurd hfails h

theorem handled_of_spared_memAlloc {dir : Frame} {count : Nat} {w u : Bool} (hc : 1 ≤ count)
    (h : s.Spared (.memAlloc dir count w u)) : s.Handled (.memAlloc dir count w u) := by
  intro hoom
  rcases h with hok | ⟨hphys, hvirt, hclear⟩
  · exact absurd hoom hok
  · obtain ⟨hfault, hsame⟩ := (memset_null_iff count).mpr hclear
    rw [memAllocFaults_of_fails hphys hvirt, memAlloc_of_fails hc hphys hvirt, hsame]
    exact ⟨hfault, rfl⟩

theorem spared_of_handled_memAlloc {dir : Frame} {count : Nat} {w u : Bool} (hc : 1 ≤ count)
    (h : s.Handled (.memAlloc dir count w u)) :
    s.Spared (.memAlloc dir count w u) ∨ s.AtNull (.memAlloc dir count w u) := by
  by_cases hoom : s.PhysFails count ∨ s.VirtFails dir count u
  · obtain ⟨hfault, hsame⟩ := h hoom
    by_cases hphys : s.PhysFails count
    · cases hscan : s.virtScan dir count u with
      | none =>
          refine Or.inl (Or.inr ⟨hphys, hscan, ?_⟩)
          rw [memAllocFaults_of_fails hphys hscan] at hfault
          rw [memAlloc_of_fails hc hphys hscan] at hsame
          exact (memset_null_iff count).mp ⟨hfault, (Prod.mk.inj hsame).2⟩
      | some j =>
          obtain ⟨rfl, hzero⟩ := nullTable_of_memAlloc hc hphys hscan hsame
          exact Or.inr ⟨hphys, hscan, hzero⟩
    · exact absurd hsame (memAlloc_ne_of_physOk hc hphys dir w u)
  · exact Or.inl (Or.inl hoom)

/-- A call handles running out of memory when it is spared it, and otherwise, but for
the calls at address 0, does not. -/
theorem handled_of_spared (s : Memory) (c : AllocCall) (hc : c.Nonempty) :
    (s.Spared c → s.Handled c) ∧ (s.Handled c → s.Spared c ∨ s.AtNull c) := by
  cases c with
  | memAlloc dir count w u => exact ⟨handled_of_spared_memAlloc hc, spared_of_handled_memAlloc hc⟩
  | memMap pgdir addr count w u =>
      have hiff := s.handled_memMap_iff pgdir addr count w u
      exact ⟨hiff.mpr, fun h => Or.inl (hiff.mp h)⟩

/-! A machine with as many frames as the kernel uses. -/

/-- Every frame is used.  The pages of the kernel, in which its tables are, are mapped to
themselves. -/
def usedUp : Memory :=
  { booted with
    phys := { booted.phys with totalMem := 264 * 4096 }
    ram := fun F k =>
      if F = 2 ∧ k.val < 264 then ⟨true, true, false, ⟨k.val, entry_lt k⟩⟩ else booted.ram F k }

theorem usedUp_physFails : usedUp.PhysFails 1 := by
  show (usedUp.phys.physAlloc 1).1 = Phys.allocFailed
  decide +kernel

theorem usedUp_virtScan : usedUp.virtScan 1 1 false = some 264 := by decide +kernel

theorem not_handled : ¬ ∀ (s : Memory) (c : AllocCall), c.Nonempty → s.Handled c := by
  intro h
  obtain ⟨-, hsame⟩ := h usedUp (.memAlloc 1 1 true false) le_rfl (Or.inl usedUp_physFails)
  rw [memAlloc_of_physFails le_rfl usedUp_physFails,
    virtAlloc_of_some le_rfl usedUp_virtScan] at hsame
  exact absurd (Prod.mk.inj hsame).1 (by decide)

theorem handled_of_spared_usedUp :
    (usedUp.Spared (.memAlloc 1 1 true false) → usedUp.Handled (.memAlloc 1 1 true false)) ∧
      (usedUp.Handled (.memAlloc 1 1 true false) →
        usedUp.Spared (.memAlloc 1 1 true false) ∨ usedUp.AtNull (.memAlloc 1 1 true false)) :=
  handled_of_spared usedUp (.memAlloc 1 1 true false) le_rfl

end Memory

end StardustOS.Mem
