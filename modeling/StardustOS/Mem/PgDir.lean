import StardustOS.Lib.Ledger
import StardustOS.Mem.KernelSpace

/-!
# Process directories

`mem_alloc_pgdir` makes a directory that shares the kernel tables, `mem_map`
fills its user half, and `mem_free_pgdir` takes it down.

`Installs` is what `mem_map` is meant to do for one page: a table for the
page's directory entry, if it has none, and a frame for the page, both unused
before.  `UserInv` is the state of a directory filled that way.  A ledger says
who owns each frame that was not used before the directory was allocated: the
directory itself, one of its tables, or one of its pages.
-/

namespace StardustOS.Mem

open Lib

namespace Memory

/-- `mem_alloc_pgdir`. -/
def memAllocPgdir (s : Memory) (L : Layout) : Nat × Memory :=
  let (pgdir, s) := s.memAllocident L.krnlPgdir 1 true false
  if pgdir = 0 then (0, s)
  else
    let s := s.memset pgdir 1
    (pgdir, s.setKernelEntries L (frameOf pgdir))

/-- The body of the inner loop of `mem_free_pgdir`. -/
def freePage (s : Memory) (pt : Frame) (x : Fin 1024) : Memory :=
  let pg := s.ram pt x
  if pg.present then s.setPhys (s.phys.physSetfree pg.frame.addr 1) else s

/-- The outer loop of `mem_free_pgdir` from `i` on, for at most `n` turns.  The
inner loop, `for (size_t x = 0; i < 1024; i++)`, counts `i` up to 1024 and
leaves `x` at 0. -/
def freeTables (L : Layout) (dir : Frame) : Nat → Nat → Memory → Memory
  | 0, _, s => s
  | n + 1, i, s =>
      if i < 1024 then
        let pde := s.ram dir (Fin.ofNat 1024 i)
        if pde.present then
          let pt := pde.frame
          let s := forUpto (1024 - i) (fun _ s => s.freePage pt 0) s
          let s := s.memFree L.krnlPgdir pt.addr 1
          freeTables L dir n (1024 + 1) s
        else freeTables L dir n (i + 1) s
      else s

/-- `mem_free_pgdir`. -/
def memFreePgdir (s : Memory) (L : Layout) (dir : Frame) : Memory :=
  (freeTables L dir (1024 - 256) 256 s).memFree L.krnlPgdir dir.addr 1

/-! ## What `mem_map` is meant to install -/

/-- Frame `T` becomes the table of directory entry `k`: it is marked, gets its
identity page in the kernel half and is cleared. -/
def installTable (s : Memory) (dir : Frame) (k : Fin 1024) (w u : Bool) (T : Frame) : Memory :=
  let s := s.setPhys (s.phys.physSetused T.addr 1)
  let s := s.setEntry (s.ram dir T.pdi).frame T.pti ⟨true, w, false, T⟩
  (s.zeroFrame T).setEntry dir k ⟨true, w, u, T⟩

/-- Frame `F` becomes the frame of page `p`. -/
def installPage (s : Memory) (dir p : Frame) (w u : Bool) (F : Frame) : Memory :=
  let s := s.setPhys (s.phys.physSetused F.addr 1)
  s.setEntry (s.ram dir p.pdi).frame p.pti ⟨true, w, u, F⟩

/-- One user page is installed in a directory, with a new frame, and with a new
table where there was none. -/
inductive Installs (dir : Frame) : Memory → Frame → Memory → Prop where
  | inTable {s : Memory} {p F : Frame} (w u : Bool) :
      ¬ KernelHalf p.pdi → (s.ram dir p.pdi).present = true → (s.pte dir p).present = false →
      F ∉ s.phys.used → Installs dir s p (s.installPage dir p w u F)
  | newTable {s : Memory} {p T F : Frame} (w u : Bool) :
      ¬ KernelHalf p.pdi → (s.ram dir p.pdi).present = false →
      KernelHalf T.pdi → (s.pte dir T).present = false → T ∉ s.phys.used →
      F ∉ s.phys.used → F ≠ T →
      Installs dir s p ((s.installTable dir p.pdi w u T).installPage dir p w u F)

/-- User pages are installed one after another; the list has the last one
first. -/
inductive InstallsAll (dir : Frame) : Memory → List Frame → Memory → Prop where
  | nil {s : Memory} : InstallsAll dir s [] s
  | cons {s t t' : Memory} {pages : List Frame} {p : Frame} :
      InstallsAll dir s pages t → Installs dir t p t' → InstallsAll dir s (p :: pages) t'

end Memory

/-! ## Who owns which frame -/

/-- What a frame of a process is for. -/
inductive Owner where
  | dir
  | table (k : Fin 1024)
  | page (p : Frame)
deriving DecidableEq, Repr

/-- The frame of an owner. -/
def ownedCells (x : Owner × Frame) : Finset Frame := {x.2}

/-- No frame has two owners. -/
theorem owner_unique {A : Ledger ownedCells} {x y : Owner × Frame} (hx : x ∈ A.live)
    (hy : y ∈ A.live) (h : x.2 = y.2) : x = y := by
  by_contra hne
  exact Finset.disjoint_singleton.mp (A.disjoint_live hx hy hne) h

/-- The state of the directory `dir`, filled with `pages`.  `s₀` is the state
before the directory was allocated. -/
structure UserInv (s₀ : Memory) (krnl dir : Frame) (s : Memory) (pages : List Frame)
    (A : Ledger ownedCells) : Prop where
  kernel : s.KernelTables krnl
  avoids : ∀ S, Disjoint s₀.phys.used S → s.Avoids krnl S
  base : A.base = s₀.phys.used
  used : s.phys.used = A.used
  self : ∀ F, (Owner.dir, F) ∈ A.live ↔ F = dir
  dir_kernel : ∀ k, KernelHalf k → (s.ram dir k).frame = (s.ram krnl k).frame
  ident : ∀ x ∈ A.live, (∀ p, x.1 ≠ .page p) → IdentPage s krnl x.2
  table : ∀ k T, (Owner.table k, T) ∈ A.live ↔
    ¬ KernelHalf k ∧ (s.ram dir k).present = true ∧ (s.ram dir k).frame = T
  page : ∀ p F, (Owner.page p, F) ∈ A.live ↔
    ¬ KernelHalf p.pdi ∧ (s.ram dir p.pdi).present = true ∧ (s.pte dir p).present = true ∧
      (s.pte dir p).frame = F
  pages : ∀ p, p ∈ pages ↔ ∃ F, (Owner.page p, F) ∈ A.live

namespace UserInv

variable {s₀ s : Memory} {krnl dir : Frame} {pages : List Frame} {A : Ledger ownedCells}

theorem owned (h : UserInv s₀ krnl dir s pages A) : (Owner.dir, dir) ∈ A.live :=
  (h.self dir).mpr rfl

/-- A frame with an owner was not used before the directory was allocated. -/
theorem notMem_base (h : UserInv s₀ krnl dir s pages A) {x : Owner × Frame} (hx : x ∈ A.live) :
    x.2 ∉ s₀.phys.used := by
  rw [← h.base]
  exact Finset.disjoint_singleton_right.mp (A.base_disjoint x hx)

/-- A frame with an owner is used. -/
theorem mem_used (h : UserInv s₀ krnl dir s pages A) {x : Owner × Frame} (hx : x ∈ A.live) :
    x.2 ∈ s.phys.used := by
  rw [h.used]
  exact A.cells_subset_used hx (Finset.mem_singleton_self _)

/-- The frames of a process are neither the kernel's directories nor its
tables. -/
theorem avoids_owned (h : UserInv s₀ krnl dir s pages A) {x : Owner × Frame} (hx : x ∈ A.live) :
    s.Avoids krnl {x.2} :=
  h.avoids _ (Finset.disjoint_singleton_right.mpr (h.notMem_base hx))

/-- A frame for a new table and the directory are none of them either. -/
theorem avoids_table (h : UserInv s₀ krnl dir s pages A) {T : Frame} (hT : T ∉ s.phys.used) :
    s.Avoids krnl {T, dir} :=
  (h.kernel.avoids (Finset.disjoint_singleton_right.mpr hT)).insert (h.avoids_owned h.owned)

theorem ne_of_notMem (h : UserInv s₀ krnl dir s pages A) {x : Owner × Frame} (hx : x ∈ A.live)
    {F : Frame} (hF : F ∉ s.phys.used) : x.2 ≠ F :=
  fun heq => hF (heq ▸ h.mem_used hx)

end UserInv

/-! ## Installing a table -/

section InstallTable

variable {s₀ s : Memory} {krnl dir : Frame} {pages : List Frame} {A : Ledger ownedCells}
  {k : Fin 1024} {w u : Bool} {T : Frame}

theorem used_installTable :
    (s.installTable dir k w u T).phys.used = insert T s.phys.used :=
  s.phys.used_physSetused_frame T

variable (h : UserInv s₀ krnl dir s pages A)

include h

/-- In the kernel half a new table adds its identity page. -/
theorem UserInv.kernelUpdate_installTable (hT : KernelHalf T.pdi) (hTu : T ∉ s.phys.used) :
    Memory.KernelUpdate {T, dir} (s.setPhys (s.phys.physSetused T.addr 1)) krnl
      (s.installTable dir k w u T) (Function.update (s.pte krnl) T ⟨true, w, false, T⟩) := by
  set s₁ := s.setPhys (s.phys.physSetused T.addr 1)
  have htab : s₁.TablesOn krnl KernelHalf := h.kernel.tables.of_row rfl
  have hm := (Memory.HasPtes.refl s₁ krnl KernelHalf).setEntry htab hT ⟨true, w, false, T⟩
  have hav : s₁.Avoids krnl {T, dir} := (h.avoids_table hTu).setPhys _
  have hrow : (s₁.ram dir T.pdi).frame = (s₁.ram krnl T.pdi).frame := h.dir_kernel _ hT
  rw [← hrow] at hm
  refine hm.kernelUpdate hav ⟨rfl, rfl, ?_⟩
  intro F hF
  rw [Finset.mem_insert, Finset.mem_singleton, not_or] at hF
  exact (Memory.setEntry_row_of_ne _ _ _ hF.2).trans (Memory.zeroFrame_row_of_ne _ hF.1)

/-- The directory itself changes in one entry. -/
theorem UserInv.row_installTable (hT : KernelHalf T.pdi) (hTu : T ∉ s.phys.used) :
    (s.installTable dir k w u T).ram dir = Function.update (s.ram dir) k ⟨true, w, u, T⟩ := by
  have hne : dir ≠ T := h.ne_of_notMem h.owned hTu
  have htab : dir ≠ (s.ram dir T.pdi).frame := by
    rw [h.dir_kernel _ hT]
    exact fun heq => (h.avoids_owned h.owned).tables _ hT (Finset.mem_singleton.mpr heq.symm)
  simp [Memory.installTable, Memory.setEntry, Memory.zeroFrame, Memory.setPhys, hne, htab]

/-- The new table is empty. -/
theorem UserInv.empty_installTable (hTu : T ∉ s.phys.used) (i : Fin 1024) :
    (s.installTable dir k w u T).ram T i = Entry.zero := by
  have hne : T ≠ dir := (h.ne_of_notMem h.owned hTu).symm
  exact (congrFun (Memory.setEntry_row_of_ne _ _ _ hne) i).trans (Memory.zeroFrame_ram_self _ _ _)

/-- The tables that are there stay as they are. -/
theorem UserInv.table_installTable (hT : KernelHalf T.pdi) (hTu : T ∉ s.phys.used) {j : Fin 1024}
    {T' : Frame} (hT' : (Owner.table j, T') ∈ A.live) :
    (s.installTable dir k w u T).ram T' = s.ram T' := by
  refine (h.kernelUpdate_installTable hT hTu).other T' ?_ fun i hi heq => ?_
  · rw [Finset.mem_insert, Finset.mem_singleton, not_or]
    refine ⟨h.ne_of_notMem hT' hTu, ?_⟩
    intro heq
    exact absurd (owner_unique hT' h.owned heq) fun h => nomatch h
  · exact (h.avoids_owned hT').tables i hi (Finset.mem_singleton.mpr heq.symm)

/-- A new table has an owner of its own. -/
theorem UserInv.installTable (hk : ¬ KernelHalf k) (habs : (s.ram dir k).present = false)
    (hT : KernelHalf T.pdi) (hTu : T ∉ s.phys.used)
    (hfree : Disjoint A.used (ownedCells (Owner.table k, T))) :
    UserInv s₀ krnl dir (s.installTable dir k w u T) pages (A.alloc (Owner.table k, T) hfree) := by
  have hu := h.kernelUpdate_installTable (k := k) (w := w) (u := u) hT hTu
  have hk₁ := h.kernel.setused T.addr 1
  have hav : (s.setPhys (s.phys.physSetused T.addr 1)).Avoids krnl {T, dir} :=
    (h.avoids_table hTu).setPhys _
  have hrow := h.row_installTable (k := k) (w := w) (u := u) hT hTu
  have hkrow := (hu.rows hk₁ hav).1
  constructor
  · exact hu.kernelTables hk₁ hav
  · exact fun S hS => hu.avoids hk₁ hav ((h.avoids S hS).setPhys _)
  · exact h.base
  · rw [Ledger.used_alloc, used_installTable, h.used, Finset.insert_eq, Finset.union_comm]
    rfl
  · intro G
    rw [Ledger.live_alloc, List.mem_cons, h.self G]
    simp
  · intro j hj
    have hjk : j ≠ k := fun heq => hk (heq ▸ hj)
    rw [hrow, hkrow, Function.update_of_ne hjk]
    exact h.dir_kernel j hj
  · intro x hx hxp
    obtain rfl | hx := List.mem_cons.mp hx
    · refine ⟨hT, ?_, ?_⟩
      all_goals rw [hu.pte _ hT, Function.update_self]
    · have hid := h.ident x hx hxp
      have hpte := hu.pte _ hid.kernel
      rw [Function.update_of_ne (h.ne_of_notMem hx hTu)] at hpte
      exact ⟨hid.kernel, hpte ▸ hid.present, hpte ▸ hid.frame⟩
  · intro j T'
    rw [Ledger.live_alloc, List.mem_cons, hrow, h.table j T']
    by_cases hjk : j = k
    · subst hjk
      simp [hk, habs, eq_comm]
    · simp [hjk]
  · intro p F
    rw [Ledger.live_alloc, List.mem_cons, h.page p F, hrow]
    by_cases hpk : p.pdi = k
    · subst hpk
      simp [habs, Memory.pte, hrow, h.empty_installTable hTu, Entry.zero]
    · rw [Function.update_of_ne hpk]
      have hpte : ¬ KernelHalf p.pdi → (s.ram dir p.pdi).present = true →
          (s.installTable dir k w u T).pte dir p = s.pte dir p := by
        intro hp hpres
        have hrow' := h.table_installTable (k := k) (w := w) (u := u) hT hTu
          ((h.table p.pdi _).mpr ⟨hp, hpres, rfl⟩)
        rw [Memory.pte, Memory.pte, hrow, Function.update_of_ne hpk, hrow']
      simp only [reduceCtorEq, Prod.mk.injEq, false_and, false_or]
      constructor
      · rintro ⟨hp, hpres, hq⟩
        exact ⟨hp, hpres, (hpte hp hpres).symm ▸ hq⟩
      · rintro ⟨hp, hpres, hq⟩
        exact ⟨hp, hpres, hpte hp hpres ▸ hq⟩
  · intro p
    rw [h.pages p]
    simp

end InstallTable

/-! ## Installing a page -/

section InstallPage

variable {s₀ s : Memory} {krnl dir : Frame} {pages : List Frame} {A : Ledger ownedCells}
  {p : Frame} {w u : Bool} {F : Frame}

theorem used_installPage :
    (s.installPage dir p w u F).phys.used = insert F s.phys.used :=
  s.phys.used_physSetused_frame F

variable (h : UserInv s₀ krnl dir s pages A)

include h

/-- The table of a page has an owner. -/
theorem UserInv.table_owned (hp : ¬ KernelHalf p.pdi) (hpde : (s.ram dir p.pdi).present = true) :
    (Owner.table p.pdi, (s.ram dir p.pdi).frame) ∈ A.live :=
  (h.table _ _).mpr ⟨hp, hpde, rfl⟩

/-- A new page changes nothing but its table. -/
theorem UserInv.kernelUpdate_installPage (hp : ¬ KernelHalf p.pdi)
    (hpde : (s.ram dir p.pdi).present = true) :
    Memory.KernelUpdate {(s.ram dir p.pdi).frame} (s.setPhys (s.phys.physSetused F.addr 1)) krnl
      (s.installPage dir p w u F) (s.pte krnl) := by
  have hav := h.avoids_owned (h.table_owned hp hpde)
  refine (Memory.HasPtes.refl _ krnl KernelHalf).kernelUpdate (hav.setPhys _) ⟨rfl, rfl, ?_⟩
  intro F' hF'
  exact Memory.setEntry_row_of_ne _ _ _ (Finset.notMem_singleton.mp hF')

/-- The directory stays as it is. -/
theorem UserInv.row_installPage (hp : ¬ KernelHalf p.pdi)
    (hpde : (s.ram dir p.pdi).present = true) :
    (s.installPage dir p w u F).ram dir = s.ram dir := by
  refine Memory.setEntry_row_of_ne _ _ _ ?_
  intro heq
  exact absurd (owner_unique h.owned (h.table_owned hp hpde) heq) fun h => nomatch h

/-- The new page has its entry, and the other pages keep theirs. -/
theorem UserInv.pte_installPage (hp : ¬ KernelHalf p.pdi)
    (hpde : (s.ram dir p.pdi).present = true) {q : Frame} (hq : ¬ KernelHalf q.pdi)
    (hqde : (s.ram dir q.pdi).present = true) :
    (s.installPage dir p w u F).pte dir q =
      if q = p then ⟨true, w, u, F⟩ else s.pte dir q := by
  rw [Memory.pte, h.row_installPage hp hpde]
  by_cases hqp : q = p
  · subst hqp
    rw [if_pos rfl]
    exact Memory.setEntry_ram_self _ _ _ _
  · rw [if_neg hqp]
    refine Memory.setEntry_ram_of_ne _ _ ?_
    -- pages of one table have different indices
    by_contra hsame
    push Not at hsame
    have htab := owner_unique (h.table_owned hq hqde) (h.table_owned hp hpde) hsame.1
    simp only [Prod.mk.injEq, Owner.table.injEq] at htab
    exact hqp (Frame.eq_of_index htab.1 hsame.2)

/-- A new page has an owner of its own. -/
theorem UserInv.installPage (hp : ¬ KernelHalf p.pdi) (hpde : (s.ram dir p.pdi).present = true)
    (habs : (s.pte dir p).present = false)
    (hfree : Disjoint A.used (ownedCells (Owner.page p, F))) :
    UserInv s₀ krnl dir (s.installPage dir p w u F) (p :: pages)
      (A.alloc (Owner.page p, F) hfree) := by
  have hu := h.kernelUpdate_installPage (w := w) (u := u) (F := F) hp hpde
  have hk₁ := h.kernel.setused F.addr 1
  have hav := (h.avoids_owned (h.table_owned hp hpde)).setPhys (s.phys.physSetused F.addr 1)
  have hrow := h.row_installPage (w := w) (u := u) (F := F) hp hpde
  have hkrow := (hu.rows hk₁ hav).1
  constructor
  · exact hu.kernelTables hk₁ hav
  · exact fun S hS => hu.avoids hk₁ hav ((h.avoids S hS).setPhys _)
  · exact h.base
  · rw [Ledger.used_alloc, used_installPage, h.used, Finset.insert_eq, Finset.union_comm]
    rfl
  · intro G
    rw [Ledger.live_alloc, List.mem_cons, h.self G]
    simp
  · intro j hj
    rw [hrow, hkrow]
    exact h.dir_kernel j hj
  · intro x hx hxp
    obtain rfl | hx := List.mem_cons.mp hx
    · exact absurd rfl (hxp p)
    · have hid := h.ident x hx hxp
      have hpte := hu.pte _ hid.kernel
      exact ⟨hid.kernel, hpte ▸ hid.present, hpte ▸ hid.frame⟩
  · intro j T
    rw [Ledger.live_alloc, List.mem_cons, hrow, h.table j T]
    simp
  · intro q G
    rw [Ledger.live_alloc, List.mem_cons, h.page q G, hrow]
    by_cases hq : ¬ KernelHalf q.pdi ∧ (s.ram dir q.pdi).present = true
    · rw [h.pte_installPage hp hpde hq.1 hq.2]
      by_cases hqp : q = p
      · subst hqp
        simp [hq, habs, eq_comm]
      · simp [hqp]
    · have hne : q ≠ p := fun heq => hq (heq ▸ ⟨hp, hpde⟩)
      simp only [Prod.mk.injEq, Owner.page.injEq, hne, false_and, false_or]
      exact iff_of_false (fun h => hq ⟨h.1, h.2.1⟩) fun h => hq ⟨h.1, h.2.1⟩
  · intro q
    rw [List.mem_cons, h.pages q]
    by_cases hqp : q = p
    · subst hqp
      exact iff_of_true (Or.inl rfl) ⟨F, List.mem_cons_self⟩
    · simp [hqp]

end InstallPage

/-! ## Filling a directory -/

/-- Every table has a page. -/
def TablesHavePages (A : Ledger ownedCells) (pages : List Frame) : Prop :=
  ∀ k T, (Owner.table k, T) ∈ A.live → ∃ p ∈ pages, p.pdi = k

section Fill

variable {s₀ s s' : Memory} {krnl dir : Frame} {pages : List Frame} {A : Ledger ownedCells}

/-- An unused frame has no owner. -/
theorem UserInv.disjoint_owner (h : UserInv s₀ krnl dir s pages A) {F : Frame}
    (hF : F ∉ s.phys.used) (o : Owner) : Disjoint A.used (ownedCells (o, F)) := by
  rw [← h.used]
  exact Finset.disjoint_singleton_right.mpr hF

theorem Memory.Installs.userInv {p : Frame} (hi : Installs dir s p s')
    (h : UserInv s₀ krnl dir s pages A) (htp : TablesHavePages A pages) :
    ∃ A', UserInv s₀ krnl dir s' (p :: pages) A' ∧ TablesHavePages A' (p :: pages) := by
  cases hi with
  | inTable w u hp hpde habs hF =>
      refine ⟨_, h.installPage hp hpde habs (h.disjoint_owner hF _), ?_⟩
      intro k T hT
      obtain hT | hT := List.mem_cons.mp hT
      · exact nomatch hT
      · obtain ⟨q, hq, hk⟩ := htp k T hT
        exact ⟨q, List.mem_cons_of_mem _ hq, hk⟩
  | @newTable T F w u hp hpde hT _ hTu hF hne =>
      have ht := h.installTable (w := w) (u := u) hp hpde hT hTu (h.disjoint_owner hTu _)
      have hrow := h.row_installTable (k := p.pdi) (w := w) (u := u) hT hTu
      have hpde' : ((s.installTable dir p.pdi w u T).ram dir p.pdi).present = true := by
        rw [hrow, Function.update_self]
      have habs' : ((s.installTable dir p.pdi w u T).pte dir p).present = false := by
        rw [Memory.pte, hrow, Function.update_self, h.empty_installTable hTu]
        rfl
      have hF' : F ∉ (s.installTable dir p.pdi w u T).phys.used := by
        rw [used_installTable, Finset.mem_insert, not_or]
        exact ⟨hne, hF⟩
      refine ⟨_, ht.installPage hp hpde' habs' (ht.disjoint_owner hF' _), ?_⟩
      intro k T' hT'
      obtain hT' | hT' := List.mem_cons.mp hT'
      · exact nomatch hT'
      obtain hT' | hT' := List.mem_cons.mp hT'
      · simp only [Prod.mk.injEq, Owner.table.injEq] at hT'
        exact ⟨p, List.mem_cons_self, hT'.1.symm⟩
      · obtain ⟨q, hq, hk⟩ := htp k T' hT'
        exact ⟨q, List.mem_cons_of_mem _ hq, hk⟩

/-- However many pages are installed, each frame has one owner. -/
theorem Memory.InstallsAll.userInv (hi : InstallsAll dir s pages s')
    (h : UserInv s₀ krnl dir s [] A) (htp : TablesHavePages A []) :
    ∃ A', UserInv s₀ krnl dir s' pages A' ∧ TablesHavePages A' pages := by
  induction hi with
  | nil => exact ⟨A, h, htp⟩
  | cons _ hp ih =>
      obtain ⟨A', h', htp'⟩ := ih
      exact hp.userInv h' htp'

end Fill

end StardustOS.Mem
