import StardustOS.Dev.BootModules
import StardustOS.Mem.RealRam

/-!
# The memory map as the boot loader lays it out

`mem_loadmmap` walks through records of different sizes: each begins with its
size, and the next one lies that size and the four bytes of the size further on.
The walk ends at `mmap_addr + mmap_length`, a sum of 32 bits.

`Laid` is the layout, as a list of entries.  On it the walk is the loop over the
list (`loadRecords_laid`), so what is marked can be said of the entries
(`mem_loadEntries`).  The loop over a reserved entry takes the length for the end,
and `memLoadmmap_iff` says for which maps that is right.
-/

namespace StardustOS.Mem

open Lib
open Dev (word)

/-! ## The source -/

/-- The fields of `multiboot_info_t` that `mem_loadmmap` reads. -/
structure MultibootInfo extends Dev.MultibootInfo where
  mmapAddr : UInt32
  mmapLength : UInt32

section

variable (mem : UInt32 → UInt8)

/-- The eight bytes at an address. -/
def quad (a : UInt32) : UInt64 :=
  (word mem a).toUInt64 ||| (word mem (a + 4)).toUInt64 <<< 32

/-- `*mmap`, which is packed, without its size. -/
def entryAt (mmap : UInt32) : MmapEntry where
  addr := (quad mem (mmap + 4)).toNat
  len := (quad mem (mmap + 12)).toNat
  type := (word mem (mmap + 20)).toNat

/-- `(uint32_t)mmap + mmap->size + sizeof(mmap->size)`. -/
def nextEntry (mmap : UInt32) : UInt32 := mmap + word mem mmap + 4

/-- The information as the kernel reads it, on the map of the entries. -/
def MultibootInfo.bootInfo (mbi : MultibootInfo) (mmap : List MmapEntry) (kernelEnd : Nat) :
    BootInfo where
  mmap := mmap
  modsCount := mbi.modsCount.toNat
  modsAddr := mbi.modsAddr.toNat
  modEnd mod := (Dev.moduleAt mem (.ofNat mod)).modEnd.toNat
  kernelEnd := kernelEnd

namespace Phys

/-- The loop of `mem_loadmmap` over the records, from `mmap` on.  `none` says that
the fuel is used up, or that the loop over an entry does not end. -/
def loadRecords (limit : UInt32) : Nat → UInt32 → Phys → Option Phys
  | 0, _, _ => none
  | fuel + 1, mmap, s =>
      if mmap < limit then
        (loadEntries [entryAt mem mmap] s).bind (loadRecords limit fuel (nextEntry mem mmap))
      else some s

/-- `mem_loadmmap`, on the bytes of the map. -/
def loadmmap (s : Phys) (mbi : MultibootInfo) (kernelEnd fuel : Nat) : Option Phys :=
  (loadRecords mem (mbi.mmapAddr + mbi.mmapLength) fuel mbi.mmapAddr
      { s with totalMem := 0 }).map fun s =>
    { s with usedMem := UInt32.ofNat (mbi.bootInfo mem [] kernelEnd).usedMem }

end Phys

/-! ## The layout -/

/-- The records from `mmap` up to `stop`, each of at least 20 bytes behind its
size. -/
inductive Laid (stop : Nat) : Nat → List MmapEntry → Prop where
  | done : Laid stop stop []
  | record {mmap : Nat} {es : List MmapEntry} (size : 20 ≤ (word mem (.ofNat mmap)).toNat)
      (room : mmap + (word mem (.ofNat mmap)).toNat + 4 ≤ stop)
      (rest : Laid stop (mmap + (word mem (.ofNat mmap)).toNat + 4) es) :
      Laid stop mmap (entryAt mem (.ofNat mmap) :: es)

end

/-- The entry is not available. -/
def MmapEntry.Reserved (e : MmapEntry) : Prop := e.type ≠ MULTIBOOT_MEMORY_AVAILABLE

instance {e : MmapEntry} : Decidable e.Reserved := inferInstanceAs (Decidable (_ ≠ _))

/-- The loop over the entry marks the frame: it holds the address a number of
pages above the start of the entry, and that address is below the length. -/
def MmapEntry.Strides (e : MmapEntry) (f : Frame) : Prop :=
  ∃ i, e.addr + i * PAGE_SIZE < e.len ∧ frameOf (e.addr + i * PAGE_SIZE) = f

/-- The map is loaded, and exactly the frames that meet a reserved entry are
marked. -/
def ReservedMarked (es : List MmapEntry) (load : Nat → Option Phys) : Prop :=
  ∃ fuel t, load fuel = some t ∧
    ∀ f, f ∈ t.used ↔ ∃ e ∈ es, e.Reserved ∧ e.Intersects f

/-- The loops over the reserved entries that are walked end, and between them they
come to the frames that meet a reserved entry of the map and to no others. -/
structure StridesRight (walked es : List MmapEntry) : Prop where
  ends : ∀ e ∈ walked, e.Reserved → e.Ends
  frames : ∀ f, (∃ e ∈ walked, e.Reserved ∧ e.Strides f) ↔ ∃ e ∈ es, e.Reserved ∧ e.Intersects f

/-! ## The loop over the entries -/

namespace Phys

theorem loadEntries_cons (e : MmapEntry) (es : List MmapEntry) (s : Phys) :
    loadEntries (e :: es) s = (loadEntries [e] s).bind (loadEntries es) := by
  rw [loadEntries, loadEntries]
  split
  · rfl
  · cases s.markEntry e with
    | none => rfl
    | some t => rfl

theorem mem_strides {e : MmapEntry} {f : Frame} :
    f ∈ runFrames e.addr e.strides ↔ e.Strides f := by
  rw [mem_runFrames, MmapEntry.Strides]
  refine exists_congr fun i => and_congr_left fun _ => ?_
  rw [MmapEntry.strides, PAGE_SIZE]
  omega

/-- The loop marks the frames it comes to, in every reserved entry. -/
theorem mem_loadEntries {es : List MmapEntry} {s t : Phys} (h : loadEntries es s = some t)
    (f : Frame) : f ∈ t.used ↔ f ∈ s.used ∨ ∃ e ∈ es, e.Reserved ∧ e.Strides f := by
  induction es generalizing s with
  | nil =>
      cases h
      simp
  | cons e es ih =>
      rw [List.exists_mem_cons_iff]
      rw [loadEntries] at h
      split at h
      · rename_i he
        rw [ih h]
        have hskip : ¬ (e.Reserved ∧ e.Strides f) := fun hres => hres.1 he
        rw [or_iff_right hskip]
        rfl
      · rename_i he
        obtain ⟨s', hs', hrest⟩ := Option.bind_eq_some_iff.mp h
        rw [ih hrest, markEntry_eq hs', Finset.mem_union, mem_strides, or_assoc,
          and_iff_right (show e.Reserved from he)]

/-- It ends when it ends in every reserved entry. -/
theorem loadEntries_ends {es : List MmapEntry} {s t : Phys} (h : loadEntries es s = some t) :
    ∀ e ∈ es, e.Reserved → e.Ends := by
  induction es generalizing s with
  | nil => simp
  | cons e es ih =>
      intro e' he' hres
      rw [loadEntries] at h
      split at h
      · rename_i hav
        rcases List.mem_cons.mp he' with rfl | he'
        · exact absurd hav hres
        · exact ih h e' he' hres
      · obtain ⟨s', hs', hrest⟩ := Option.bind_eq_some_iff.mp h
        rcases List.mem_cons.mp he' with rfl | he'
        · rw [markEntry] at hs'
          split at hs'
          · assumption
          · cases hs'
        · exact ih hrest e' he' hres

/-! ## The walk -/

variable {mem : UInt32 → UInt8}

theorem nextEntry_ofNat (mmap : Nat) :
    nextEntry mem (.ofNat mmap) = .ofNat (mmap + (word mem (.ofNat mmap)).toNat + 4) := by
  rw [nextEntry, UInt32.ofNat_add, UInt32.ofNat_add, UInt32.ofNat_toNat]
  rfl

theorem ofNat_lt {m n : Nat} (h : m < n) (hn : n < 2 ^ 32) : UInt32.ofNat m < UInt32.ofNat n := by
  rw [UInt32.lt_iff_toNat_lt, UInt32.toNat_ofNat_of_lt' (h.trans hn), UInt32.toNat_ofNat_of_lt' hn]
  exact h

/-- What the walk makes of the layout is what the loop makes of the entries. -/
theorem loadEntries_of_walk {stop : Nat} (hstop : stop < 2 ^ 32) {mmap : Nat}
    {es : List MmapEntry} (h : Laid mem stop mmap es) {fuel : Nat} {s t : Phys}
    (hwalk : loadRecords mem (.ofNat stop) fuel (.ofNat mmap) s = some t) :
    loadEntries es s = some t := by
  induction h generalizing fuel s with
  | done =>
      cases fuel with
      | zero => cases hwalk
      | succ fuel =>
          rw [loadRecords, if_neg (UInt32.lt_irrefl _)] at hwalk
          exact hwalk
  | @record mmap es size room rest ih =>
      cases fuel with
      | zero => cases hwalk
      | succ fuel =>
          rw [loadRecords, if_pos (ofNat_lt (by omega) hstop), nextEntry_ofNat] at hwalk
          obtain ⟨s', hs', hrest⟩ := Option.bind_eq_some_iff.mp hwalk
          rw [loadEntries_cons, hs', Option.bind_some]
          exact ih hrest

/-- The walk needs one turn for each record, and one to see the end. -/
theorem loadRecords_laid {stop : Nat} (hstop : stop < 2 ^ 32) {mmap : Nat}
    {es : List MmapEntry} (h : Laid mem stop mmap es) (s : Phys) :
    loadRecords mem (.ofNat stop) (es.length + 1) (.ofNat mmap) s = loadEntries es s := by
  induction h generalizing s with
  | done => rw [loadRecords, if_neg (UInt32.lt_irrefl _), loadEntries]
  | @record mmap es size room rest ih =>
      rw [List.length_cons, loadRecords, if_pos (ofNat_lt (by omega) hstop), nextEntry_ofNat,
        funext ih]
      exact (loadEntries_cons _ es s).symm

/-- A walk whose end is `2 ^ 32`, and so 0, has no turn. -/
theorem loadRecords_zero (fuel : Nat) (mmap : UInt32) (s : Phys) :
    loadRecords mem 0 (fuel + 1) mmap s = some s := by
  rw [loadRecords, if_neg (UInt32.not_lt_zero)]

/-- What the loop over the entries that are walked makes of a map. -/
theorem loadEntries_reservedMarked {s : Phys} (hs : s.used = ∅) (walked es : List MmapEntry)
    {load : Nat → Option Phys} (hload : ∀ fuel t, load fuel = some t →
      ∃ t', loadEntries walked s = some t' ∧ t'.used = t.used)
    (hturns : ∀ t', loadEntries walked s = some t' → ∃ fuel t, load fuel = some t) :
    ReservedMarked es load ↔ StridesRight walked es := by
  constructor
  · rintro ⟨fuel, t, ht, hused⟩
    obtain ⟨t', ht', hsame⟩ := hload fuel t ht
    refine ⟨loadEntries_ends ht', fun f => ?_⟩
    rw [← hused, ← hsame, mem_loadEntries ht', hs]
    simp
  · intro h
    obtain ⟨t', ht'⟩ := loadEntries_isSome walked s h.ends
    obtain ⟨fuel, t, ht⟩ := hturns t' ht'
    refine ⟨fuel, t, ht, fun f => ?_⟩
    obtain ⟨t'', ht'', hsame⟩ := hload fuel t ht
    rw [← h.frames, ← hsame, mem_loadEntries ht'', hs]
    simp

/-- `mem_loadmmap` is the walk, and keeps the bitmap it leaves. -/
theorem loadmmap_eq_some {s t : Phys} {mbi : MultibootInfo} {kernelEnd fuel : Nat} :
    s.loadmmap mem mbi kernelEnd fuel = some t ↔
      ∃ t', loadRecords mem (mbi.mmapAddr + mbi.mmapLength) fuel mbi.mmapAddr
          { s with totalMem := 0 } = some t' ∧
        t = { t' with usedMem := UInt32.ofNat (mbi.bootInfo mem [] kernelEnd).usedMem } := by
  rw [loadmmap, Option.map_eq_some_iff]
  exact exists_congr fun t' => and_congr_right fun _ => eq_comm

end Phys

/-- The entries that the walk comes to.  A map that ends at `2 ^ 32` is not
walked. -/
def MultibootInfo.walked (mbi : MultibootInfo) (es : List MmapEntry) : List MmapEntry :=
  if mbi.mmapAddr.toNat + mbi.mmapLength.toNat < 2 ^ 32 then es else []

/-- From an empty bitmap `mem_loadmmap` marks the frames that meet a reserved entry
exactly for the maps of `StridesRight`. -/
theorem memLoadmmap_iff (mem : UInt32 → UInt8) (mbi : MultibootInfo) (kernelEnd : Nat) {s : Phys}
    (hs : s.used = ∅) {es : List MmapEntry}
    (hmap : mbi.mmapAddr.toNat + mbi.mmapLength.toNat ≤ 2 ^ 32)
    (hlaid : Laid mem (mbi.mmapAddr.toNat + mbi.mmapLength.toNat) mbi.mmapAddr.toNat es) :
    ReservedMarked es (s.loadmmap mem mbi kernelEnd) ↔ StridesRight (mbi.walked es) es := by
  have hlimit : mbi.mmapAddr + mbi.mmapLength =
      UInt32.ofNat (mbi.mmapAddr.toNat + mbi.mmapLength.toNat) := by
    rw [UInt32.ofNat_add, UInt32.ofNat_toNat, UInt32.ofNat_toNat]
  have hstart : UInt32.ofNat mbi.mmapAddr.toNat = mbi.mmapAddr := UInt32.ofNat_toNat
  refine Phys.loadEntries_reservedMarked (s := { s with totalMem := 0 }) hs (mbi.walked es) es ?_ ?_
  · intro fuel t ht
    obtain ⟨t', ht', rfl⟩ := Phys.loadmmap_eq_some.mp ht
    refine ⟨t', ?_, rfl⟩
    rw [MultibootInfo.walked]
    split
    · rename_i hlt
      refine Phys.loadEntries_of_walk hlt hlaid
        (show Phys.loadRecords mem _ fuel _ { s with totalMem := 0 } = some t' from ?_)
      rw [← hlimit, hstart]
      exact ht'
    · have htop : mbi.mmapAddr.toNat + mbi.mmapLength.toNat = 2 ^ 32 := by omega
      rw [hlimit, htop] at ht'
      cases fuel with
      | zero => cases ht'
      | succ fuel => exact ht'
  · intro t' ht'
    rw [MultibootInfo.walked] at ht'
    split at ht'
    · rename_i hlt
      refine ⟨es.length + 1, _, Phys.loadmmap_eq_some.mpr ⟨t', ?_, rfl⟩⟩
      rw [← ht', ← Phys.loadRecords_laid hlt hlaid, hlimit, hstart]
    · have htop : mbi.mmapAddr.toNat + mbi.mmapLength.toNat = 2 ^ 32 := by omega
      refine ⟨1, _, Phys.loadmmap_eq_some.mpr ⟨t', ?_, rfl⟩⟩
      rw [← ht', hlimit, htop]
      exact Phys.loadRecords_zero 0 _ _

/-! ## One entry -/

/-- A reserved entry of whole pages, alone in its map, is marked rightly when it
starts at 0. -/
theorem stridesRight_single {e : MmapEntry} (hres : e.Reserved) (haligned : e.addr % PAGE_SIZE = 0)
    (hlen : 0 < e.len) (hend : e.addr + e.len ≤ 2 ^ 32) : StridesRight [e] [e] ↔ e.addr = 0 := by
  simp only [PAGE_SIZE] at haligned
  constructor
  · intro h
    by_contra hpos
    -- the last frame of the entry
    have hlast : e.Intersects (frameOf (e.addr + e.len - 1)) := by
      refine ⟨hlen, ?_, ?_⟩
      · simp only [Frame.addr, frameOf, PAGE_SIZE]
        omega
      · simp only [Frame.addr, frameOf, PAGE_SIZE]
        omega
    obtain ⟨e', he', -, i, hi, hf⟩ := (h.frames _).mpr ⟨e, List.mem_singleton_self e, hres, hlast⟩
    obtain rfl := List.mem_singleton.mp he'
    have hval := congrArg Fin.val hf
    simp only [frameOf, PAGE_SIZE] at hval hi
    omega
  · intro hzero
    refine ⟨fun e' he' _ => ?_, fun f => ?_⟩
    · obtain rfl := List.mem_singleton.mp he'
      intro _
      rw [MmapEntry.strides, PAGE_SIZE]
      omega
    · simp only [List.mem_singleton, exists_eq_left, hres, true_and, MmapEntry.Strides,
        MmapEntry.Intersects, hzero, Nat.zero_add]
      have hlt := f.isLt
      constructor
      · rintro ⟨i, hi, hf⟩
        rw [hzero, Nat.zero_add] at hend
        have hval : f.val = i := by
          rw [← hf, frameOf_mul]
          rw [PAGE_SIZE] at hi
          omega
        exact ⟨hlen, Nat.succ_pos _, by rwa [Frame.addr, hval]⟩
      · rintro ⟨-, -, hf⟩
        refine ⟨f.val, hf, ?_⟩
        ext
        exact frameOf_mul hlt

/-! ## A map of one record -/

open Memory (blank used_clear)

/-- The bytes of a map with one record, at `0x1000`. -/
def oneRecord (bytes : List UInt8) (a : UInt32) : UInt8 := bytes.getD (a - 0x1000).toNat 0

/-- It is there alone, without modules. -/
def oneRecordInfo : MultibootInfo := ⟨⟨0, 0⟩, 0x1000, 24⟩

/-- A record of 20 bytes is the whole map. -/
theorem laid_oneRecord {bytes : List UInt8} (h : word (oneRecord bytes) 0x1000 = 20) :
    Laid (oneRecord bytes) (oneRecordInfo.mmapAddr.toNat + oneRecordInfo.mmapLength.toNat)
      oneRecordInfo.mmapAddr.toNat [entryAt (oneRecord bytes) 0x1000] := by
  have hsize : (word (oneRecord bytes) (.ofNat 0x1000)).toNat = 20 := congrArg UInt32.toNat h
  refine @Laid.record _ _ 0x1000 _ (by rw [hsize]) (by rw [hsize]; decide) ?_
  rw [hsize]
  exact .done

/-- The first page is reserved. -/
def lowRecord : List UInt8 :=
  [20, 0, 0, 0, 0, 0, 0, 0, 0, 0, 0, 0, 0, 0x10, 0, 0, 0, 0, 0, 0, 2, 0, 0, 0]

theorem memLoadmmap_iff_low :
    ReservedMarked [entryAt (oneRecord lowRecord) 0x1000]
      (blank.phys.loadmmap (oneRecord lowRecord) oneRecordInfo 0x100000) := by
  have hused : blank.phys.used = ∅ := used_clear 0 0
  refine (memLoadmmap_iff _ _ _ hused (by decide) (laid_oneRecord (by decide))).mpr ?_
  exact (stridesRight_single (by decide) (by decide) (by decide) (by decide)).mpr (by decide)

/-- The 64 KiB below 1 MiB are reserved. -/
def biosRecord : List UInt8 :=
  [20, 0, 0, 0, 0, 0, 0x0f, 0, 0, 0, 0, 0, 0, 0, 1, 0, 0, 0, 0, 0, 2, 0, 0, 0]

/-- Their length is below their base, and nothing is marked. -/
theorem memLoadmmap_wrong :
    entryAt (oneRecord biosRecord) 0x1000 = ⟨0xf0000, 0x10000, 2⟩ ∧
      (∃ t, blank.phys.loadmmap (oneRecord biosRecord) oneRecordInfo 0x100000 2 = some t ∧
        t.used = ∅) ∧
      ¬ ReservedMarked [entryAt (oneRecord biosRecord) 0x1000]
        (blank.phys.loadmmap (oneRecord biosRecord) oneRecordInfo 0x100000) := by
  have hentry : entryAt (oneRecord biosRecord) 0x1000 = ⟨0xf0000, 0x10000, 2⟩ := by decide
  -- the loop over the entry ends before it starts
  have hskip : ∀ s, Phys.loadEntries [⟨0xf0000, 0x10000, 2⟩] s = some s := by
    intro s
    rw [Phys.loadEntries, if_neg (by decide), Phys.markEntry, if_pos (by decide)]
    rfl
  have hlaid : Laid (oneRecord biosRecord) 0x1018 0x1000 [⟨0xf0000, 0x10000, 2⟩] :=
    hentry ▸ laid_oneRecord (by decide)
  have hwalk : Phys.loadRecords (oneRecord biosRecord) 0x1018 2 0x1000
      { blank.phys with totalMem := 0 } = some { blank.phys with totalMem := 0 } :=
    (Phys.loadRecords_laid (by decide) hlaid _).trans (hskip _)
  refine ⟨hentry, ⟨_, Phys.loadmmap_eq_some.mpr ⟨_, hwalk, rfl⟩, ?_⟩, ?_⟩
  · exact used_clear _ _
  · rw [hentry]
    rintro ⟨fuel, t, ht, hused⟩
    obtain ⟨t', ht', rfl⟩ := Phys.loadmmap_eq_some.mp ht
    have hload := Phys.loadEntries_of_walk (by decide) hlaid ht'
    rw [hskip] at hload
    obtain rfl := Option.some.inj hload
    have hmeets : MmapEntry.Intersects ⟨0xf0000, 0x10000, 2⟩ (frameOf (0xf0 * PAGE_SIZE)) := by
      rw [MmapEntry.Intersects, Frame.addr, frameOf_mul (by decide)]
      decide
    have hbios := (hused _).mpr ⟨_, List.mem_singleton_self _, by decide, hmeets⟩
    exact absurd (show frameOf (0xf0 * PAGE_SIZE) ∈ ∅ from used_clear _ _ ▸ hbios)
      (Finset.notMem_empty _)

end StardustOS.Mem
