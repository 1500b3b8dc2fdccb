import StardustOS.Lib.Image
import StardustOS.Process.EntryPoint

/-!
# The segments of a program

`proc_exec` maps pages for a segment, clears `memsz` bytes and reads `filesz`
bytes of the file.  It takes both sizes from the program header as they are, so a
segment with more bytes in the file than in memory is written beyond its end, and
of two segments that overlap the later one stays.

The pages are counted from `memsz` alone.  Where they do not reach the end of the
segment, the bytes are cleared on pages that are not there: the CPU takes the same
fault again and again, and `proc_exec` does not return.
-/

namespace StardustOS.Process

open Lib Libfile

/-! ## What is to be loaded -/

/-- The `n` bytes of a file from an offset on. -/
def slice (file : Nat → UInt8) (offset n : Nat) : List UInt8 :=
  (List.range n).map fun j => file (offset + j)

/-- The header of a file. -/
def fileHeader (file : Nat → UInt8) : ElfHeader := .ofBytes (slice file 0 headerSize)

/-- The program header at an index. -/
def fileProgram (file : Nat → UInt8) (i : Nat) : ElfProgram :=
  let hdr := fileHeader file
  .ofBytes (slice file (hdr.phoff + UInt32.ofNat (hdr.phentsize.toNat * i)).toNat programSize)

/-- The segments from `0x100000` on. -/
def segments (file : Nat → UInt8) : List ElfProgram :=
  ((List.range (fileHeader file).phnum.toNat).map (fileProgram file)).filter (0x100000 ≤ ·.vaddr)

/-- The address is in `[vaddr, vaddr + memsz)`. -/
def Holds (p : ElfProgram) (x : UInt32) : Prop := InBlock p.vaddr p.memsz.toNat x

/-- The byte that a segment is to have at an address. -/
def wanted (file : Nat → UInt8) (p : ElfProgram) (x : UInt32) : UInt8 :=
  if InBlock p.vaddr p.filesz.toNat x then file (p.offset.toNat + (x - p.vaddr).toNat) else 0

instance {p : ElfProgram} {x : UInt32} : Decidable (Holds p x) :=
  inferInstanceAs (Decidable (InBlock p.vaddr p.memsz.toNat x))

/-- No segment has more bytes in the file than in memory, and two segments want
the same bytes where they overlap. -/
structure Fit (file : Nat → UInt8) : Prop where
  size : ∀ p ∈ segments file, p.filesz ≤ p.memsz
  overlap : ∀ p ∈ segments file, ∀ q ∈ segments file, ∀ x, Holds p x → Holds q x →
    wanted file p x = wanted file q x

section Loaded

variable {κ : Type*} (K : Kernel κ) (L : Loader κ) (dir : UInt32) (view : κ → Option Image)

/-- `view` is what the directory `dir` shows, less what the kernel does to its own
memory, or `none` once a fault is taken again and again.  `mem_map` maps pages in
it, `memcpy` writes while it is loaded, and `fs_node_read` gives the bytes of the
file. -/
structure Shows (file : Nat → Nat → UInt8) : Prop where
  memMap : ∀ vaddr n k, Option.Rel (Image.Mapped vaddr n) (view k) (view (L.memMap dir vaddr n k))
  memcpy : ∀ vaddr bytes k, view (K.memcpy vaddr bytes k) = (view k).bind (Image.write vaddr bytes)
  read : ∀ node offset size k, 0 ≤ (L.fsNodeRead node offset size k).1.1 →
    (L.fsNodeRead node offset size k).1.2 = slice (file node) offset.toNat size
  readView : ∀ node offset size k, view (L.fsNodeRead node offset size k).2 = view k

/-- `proc_exec` loads the segment into a process with the directory, which shows
`img` before and `img'` after. -/
def LoadedFrom (node : Nat) (p : ElfProgram) (img img' : Image) : Prop :=
  ∃ (c a : Nat) (P : Proc) (s s' : Procs κ) (r : Int),
    s.processes.get? a = some P ∧ P.regs.cr3 = dir ∧
      s.loadSegment K L c a node p = some (r, s') ∧ 0 ≤ r ∧
        view s.kernel = some img ∧ view s'.kernel = some img'

/-- Whenever the segment is loaded, only `[vaddr, vaddr + memsz)` is written. -/
def WritesWithin (node : Nat) (p : ElfProgram) : Prop :=
  ∀ img img', LoadedFrom K L dir view node p img img' →
    ∃ writes, img'.writes = writes ++ img.writes ∧
      ∀ b ∈ writes, ∀ x, InBlock b.1 b.2 x → Holds p x

/-- Each segment of the file is on pages that are present and has its bytes there,
and was written nowhere else. -/
structure FullyLoaded (node : Nat) (file : Nat → UInt8) (img : Image) : Prop where
  present : ∀ p ∈ segments file, ∀ x, Holds p x → img.present x = true
  byte : ∀ p ∈ segments file, ∀ x, Holds p x → img.byte x = wanted file p x
  within : ∀ p ∈ segments file, WritesWithin K L dir view node p

end Loaded

/-! ## Loading a segment -/

theorem length_slice (file : Nat → UInt8) (offset n : Nat) : (slice file offset n).length = n := by
  rw [slice, List.length_map, List.length_range]

theorem getElem?_slice {file : Nat → UInt8} {offset n j : Nat} (h : j < n) :
    (slice file offset n)[j]? = some (file (offset + j)) := by
  rw [slice, List.getElem?_map, List.getElem?_range h, Option.map_some]

/-- The pages are mapped, the bytes cleared and read. -/
def Loads (file : Nat → UInt8) (p : ElfProgram) (img img' : Image) : Prop :=
  ∃ mapped cleared, Image.Mapped p.vaddr (pageCount p.memsz) img mapped ∧
    mapped.write p.vaddr (List.replicate p.memsz.toNat 0) = some cleared ∧
      cleared.write p.vaddr (slice file p.offset.toNat p.filesz.toNat) = some img'

/-- The address is written when the segment is loaded. -/
def Touches (p : ElfProgram) (x : UInt32) : Prop := Holds p x ∨ InBlock p.vaddr p.filesz.toNat x

namespace Loads

variable {file : Nat → UInt8} {p : ElfProgram} {img img' : Image} {x : UInt32}

theorem keeps (h : Loads file p img img') : Image.Keeps (Touches p) img img' := by
  obtain ⟨mapped, cleared, hm, hc, hr⟩ := h
  have hclear := Image.write_keeps hc
  have hread := Image.write_keeps hr
  rw [List.length_replicate] at hclear
  rw [length_slice] at hread
  exact ((hm.keeps _).trans (hclear.mono fun _ => Or.inl)).trans (hread.mono fun _ => Or.inr)

theorem present (h : Loads file p img img') (hx : Touches p x) : img'.present x = true := by
  obtain ⟨mapped, cleared, hm, hc, hr⟩ := h
  cases hx with
  | inl hmem =>
      have hcleared := Image.write_present hc (by rwa [List.length_replicate])
      exact (Image.write_keeps hr).present x hcleared
  | inr hfile => exact Image.write_present hr (by rwa [length_slice])

theorem byte (h : Loads file p img img') (hx : Touches p x) : img'.byte x = wanted file p x := by
  obtain ⟨mapped, cleared, hm, hc, hr⟩ := h
  rw [wanted]
  split
  · rename_i hfile
    exact Image.write_byte hr (getElem?_slice hfile)
  · rename_i hfile
    have hmem : (x - p.vaddr).toNat < p.memsz.toNat := hx.resolve_right hfile
    have hzero : cleared.byte x = 0 :=
      Image.write_byte hc (List.getElem?_replicate_of_lt hmem)
    have hpresent := Image.write_present hc (by rwa [List.length_replicate])
    rw [← hzero]
    exact (Image.write_keeps hr).byte x hpresent (by rwa [length_slice])

theorem writes (h : Loads file p img img') :
    img'.writes = [(p.vaddr, p.filesz.toNat), (p.vaddr, p.memsz.toNat)] ++ img.writes := by
  obtain ⟨mapped, cleared, hm, hc, hr⟩ := h
  rw [Image.write_writes hr, Image.write_writes hc, hm.writes, length_slice,
    List.length_replicate]
  rfl

end Loads

/-! ## The pages of a segment -/

/-- The pages that are counted reach over the segment exactly if its offset in its
first page and the rest of its size fit into one page. -/
theorem onPages_segment_iff {p : ElfProgram} (h0 : 0 < p.memsz.toNat) :
    (∀ x, Holds p x → OnPages p.vaddr (pageCount p.memsz) x) ↔
      p.memsz.toNat < 0xFFFFF000 ∧
        p.vaddr.toNat % 0x1000 + p.memsz.toNat % 0x1000 ≤ 0x1000 := by
  rw [pageCount_eq]
  split
  · rename_i hlt
    have hiff := @onPages_iff p.vaddr p.memsz.toNat
      (p.memsz.toNat / 0x1000 + 1) (by omega) h0 (by omega)
    refine hiff.trans ⟨fun h => ⟨hlt, ?_⟩, fun h => ?_⟩
    · omega
    · have := h.2
      omega
  · rename_i hge
    constructor
    · intro h
      obtain ⟨i, hi, -⟩ := h p.vaddr (by rwa [Holds, InBlock, sub_self])
      cases hi
    · exact fun h => absurd h.1 hge

/-- A segment is loaded only onto pages that were there before or are mapped for
it. -/
theorem Loads.onPages {file : Nat → UInt8} {p : ElfProgram} {img img' : Image}
    (h : Loads file p img img') {x : UInt32} (hx : Holds p x) :
    img.present x = true ∨ OnPages p.vaddr (pageCount p.memsz) x := by
  obtain ⟨mapped, cleared, hm, hc, -⟩ := h
  have hcleared := Image.write_present hc (by rwa [List.length_replicate])
  rw [Image.present_of_write hc] at hcleared
  exact (hm.present x).mp hcleared

/-- So a segment that has no pages yet is loaded only if enough are counted. -/
theorem Loads.fresh {file : Nat → UInt8} {p : ElfProgram} {img img' : Image}
    (h : Loads file p img img') (h0 : 0 < p.memsz.toNat)
    (hfresh : ∀ x, Holds p x → img.present x = false) :
    p.memsz.toNat < 0xFFFFF000 ∧ p.vaddr.toNat % 0x1000 + p.memsz.toNat % 0x1000 ≤ 0x1000 := by
  refine (onPages_segment_iff h0).mp fun x hx => ?_
  exact (h.onPages hx).resolve_left (by simp [hfresh x hx])

/-! ## Several segments -/

/-- The segments are loaded one after the other, each as `R` says. -/
inductive LoadsAll (R : ElfProgram → Image → Image → Prop) :
    List ElfProgram → Image → Image → Prop where
  | nil {img : Image} : LoadsAll R [] img img
  | cons {p : ElfProgram} {ps : List ElfProgram} {img mid img' : Image}
      (first : R p img mid) (rest : LoadsAll R ps mid img') : LoadsAll R (p :: ps) img img'

namespace LoadsAll

variable {R : ElfProgram → Image → Image → Prop} {file : Nat → UInt8} {ps : List ElfProgram}
  {img img' : Image} {x : UInt32}

theorem mono {R' : ElfProgram → Image → Image → Prop} (h : LoadsAll R ps img img')
    (hR : ∀ p img img', R p img img' → R' p img img') : LoadsAll R' ps img img' := by
  induction h with
  | nil => exact .nil
  | cons first rest ih => exact .cons (hR _ _ _ first) ih

/-- Each of the segments was loaded from some image. -/
theorem of_mem (h : LoadsAll R ps img img') {p : ElfProgram} (hp : p ∈ ps) :
    ∃ before after, R p before after := by
  induction h with
  | nil => cases hp
  | cons first rest ih =>
      cases hp with
      | head => exact ⟨_, _, first⟩
      | tail _ hp => exact ih hp

theorem keeps (h : LoadsAll (Loads file) ps img img') :
    Image.Keeps (fun x => ∃ p ∈ ps, Touches p x) img img' := by
  induction h with
  | nil => exact .refl _ _
  | @cons q qs img mid img' first rest ih =>
      have hfirst : Image.Keeps (fun x => ∃ p ∈ q :: qs, Touches p x) img mid :=
        first.keeps.mono fun x hx => ⟨q, List.mem_cons_self, hx⟩
      have hrest : Image.Keeps (fun x => ∃ p ∈ q :: qs, Touches p x) mid img' :=
        ih.mono fun x ⟨p, hp, hx⟩ => ⟨p, List.mem_cons_of_mem _ hp, hx⟩
      exact hfirst.trans hrest

theorem present (h : LoadsAll (Loads file) ps img img') {p : ElfProgram} (hp : p ∈ ps)
    (hx : Touches p x) : img'.present x = true := by
  induction h with
  | nil => cases hp
  | cons first rest ih =>
      cases hp with
      | head => exact rest.keeps.present x (first.present hx)
      | tail _ hp => exact ih hp

/-- The last segment that was loaded over an address has its byte there. -/
theorem byte (h : LoadsAll (Loads file) ps img img') (hx : ∃ p ∈ ps, Touches p x) :
    ∃ p ∈ ps, Touches p x ∧ img'.byte x = wanted file p x := by
  induction h with
  | nil => exact absurd hx (by simp)
  | @cons q qs img mid img' first rest ih =>
      by_cases hlater : ∃ p ∈ qs, Touches p x
      · obtain ⟨p, hp, hpx, hbyte⟩ := ih hlater
        exact ⟨p, List.mem_cons_of_mem _ hp, hpx, hbyte⟩
      · have hq : Touches q x := by
          obtain ⟨p, hp, hpx⟩ := hx
          cases hp with
          | head => exact hpx
          | tail _ hp => exact absurd ⟨p, hp, hpx⟩ hlater
        refine ⟨q, List.mem_cons_self, hq, ?_⟩
        rw [rest.keeps.byte x (first.present hq) hlater, first.byte hq]

end LoadsAll

/-! ## `proc_exec` -/

section Exec

variable {κ : Type*} {K : Kernel κ} {L : Loader κ} {dir : UInt32} {view : κ → Option Image}
  {file : Nat → Nat → UInt8}

/-- A write that is shown was made to what was shown before. -/
theorem Shows.written (hshows : Shows K L dir view file) {vaddr : UInt32} {bytes : List UInt8}
    {k : κ} {img' : Image} (h : view (K.memcpy vaddr bytes k) = some img') :
    ∃ img, view k = some img ∧ img.write vaddr bytes = some img' := by
  rw [hshows.memcpy] at h
  exact Option.bind_eq_some_iff.mp h

/-- A read that succeeds gives the bytes of the file and changes nothing that is
shown. -/
theorem Shows.given (hshows : Shows K L dir view file) {node size : Nat} {offset : UInt32}
    {k k' : κ} {r : Int} {bytes : List UInt8}
    (h : L.fsNodeRead node offset size k = ((r, bytes), k')) :
    (0 ≤ r → bytes = slice (file node) offset.toNat size) ∧ view k' = view k := by
  have hread := hshows.read node offset size k
  have hview := hshows.readView node offset size k
  rw [h] at hread hview
  exact ⟨hread, hview⟩

theorem Shows.mapped (hshows : Shows K L dir view file) {vaddr : UInt32} {n : Nat} {k : κ}
    {img' : Image} (h : view (L.memMap dir vaddr n k) = some img') :
    ∃ img, view k = some img ∧ Image.Mapped vaddr n img img' := by
  have hrel := hshows.memMap vaddr n k
  rw [h] at hrel
  cases hk : view k with
  | none =>
      rw [hk] at hrel
      cases hrel
  | some img =>
      rw [hk] at hrel
      cases hrel with
      | some hmapped => exact ⟨img, rfl, hmapped⟩

namespace Procs

variable {s s' : Procs κ} {a node : Nat}

theorem procSwitchPgdir_kernel {p : Nat} {pgdir old : UInt32}
    (h : s.procSwitchPgdir p pgdir = some (old, s')) : s'.kernel = s.kernel := by
  obtain ⟨P, -, hs'⟩ := Option.map_eq_some_iff.mp h
  rw [← (Prod.mk.inj hs').2]

/-- What `loadSegment` does to the memory of the directory. -/
theorem loadSegment_loads (hshows : Shows K L dir view file) {c : Nat} {P : Proc}
    {p : ElfProgram} {r : Int} (h : s.loadSegment K L c a node p = some (r, s'))
    (hP : s.processes.get? a = some P) (hdir : P.regs.cr3 = dir) (hr : 0 ≤ r) {img' : Image}
    (hview : view s'.kernel = some img') :
    ∃ img, view s.kernel = some img ∧ Loads (file node) p img img' := by
  obtain ⟨Q, old, t, bytes, kernel, hQ, hto, hread, hend⟩ := loadSegment_cases h
  obtain rfl := Option.some.inj (hP.symm.trans hQ)
  subst hdir
  obtain ⟨hneg, -⟩ | ⟨-, old', hback⟩ := hend
  · exact absurd hr (Int.not_le.mpr hneg)
  · -- the state of the memory before the read, the clearing and the mapping
    rw [procSwitchPgdir_kernel hback] at hview
    obtain ⟨cleared, hcleared, hfile⟩ := hshows.written hview
    obtain ⟨hbytes, hsame⟩ := hshows.given hread
    rw [hsame] at hcleared
    obtain ⟨mapped, hmapped, hclear⟩ := hshows.written hcleared
    obtain ⟨img, himg, hmap⟩ := hshows.mapped hmapped
    rw [hbytes hr] at hfile
    exact ⟨img, procSwitchPgdir_kernel hto ▸ himg, mapped, cleared, hmap, hclear, hfile⟩

theorem loadSegment_loadedFrom (hshows : Shows K L dir view file) {c : Nat} {P : Proc}
    {p : ElfProgram} {r : Int} (h : s.loadSegment K L c a node p = some (r, s'))
    (hP : s.processes.get? a = some P) (hdir : P.regs.cr3 = dir) (hr : 0 ≤ r) {img' : Image}
    (hview : view s'.kernel = some img') :
    ∃ img, view s.kernel = some img ∧ LoadedFrom K L dir view node p img img' := by
  obtain ⟨img, himg, -⟩ := loadSegment_loads hshows h hP hdir hr hview
  exact ⟨img, himg, c, a, P, s, s', r, hP, hdir, h, hr, himg, hview⟩

theorem loadedFrom_loads (hshows : Shows K L dir view file) {p : ElfProgram} {img img' : Image}
    (h : LoadedFrom K L dir view node p img img') : Loads (file node) p img img' := by
  obtain ⟨c, a, P, s, s', r, hP, hdir, hload, hr, himg, himg'⟩ := h
  obtain ⟨img₀, himg₀, hloads⟩ := loadSegment_loads hshows hload hP hdir hr himg'
  obtain rfl := Option.some.inj (himg.symm.trans himg₀)
  exact hloads

/-- What the loop over the program headers does to it. -/
theorem loadSegments_loads (hshows : Shows K L dir view file) {curr : Option Nat}
    (hcurr : some a ≠ curr) {hdr : ElfHeader} (hhdr : hdr = fileHeader (file node))
    {pid : UInt32} {regs : ProcRegs} {fpu : List UInt8} (hregs : regs.cr3 = dir) (is : List Nat)
    {r : Int}
    (h : loadSegments K L curr a node hdr is s = some (r, s'))
    (hx : HasContext a (pid, regs, fpu) s.processes) (hr : 0 ≤ r) {img' : Image}
    (hview : view s'.kernel = some img') :
    ∃ img, view s.kernel = some img ∧
      LoadsAll (LoadedFrom K L dir view node)
        ((is.map (fileProgram (file node))).filter (0x100000 ≤ ·.vaddr)) img img' := by
  induction is generalizing s with
  | nil =>
      obtain ⟨-, rfl⟩ := Prod.mk.inj (Option.some.inj h)
      exact ⟨img', hview, .nil⟩
  | cons i is ih =>
      obtain ⟨r₀, bytes, kernel, hread, hturn⟩ := loadSegments_cons h
      obtain ⟨hbytes, hsame⟩ := hshows.given hread
      -- a header that was read is that of the file
      have hprog : 0 ≤ r₀ → ElfProgram.ofBytes bytes = fileProgram (file node) i := by
        intro hr₀
        rw [hbytes hr₀, hhdr, fileProgram]
      obtain ⟨hneg, rfl, -⟩ | ⟨hr₀, hlow, hrest⟩ |
        ⟨hr₀, hhigh, c, r₁, t, rfl, hload, hend⟩ := hturn
      · exact absurd hr (Int.not_le.mpr hneg)
      · rw [hprog hr₀] at hlow
        have hskip : ¬ 0x100000 ≤ (fileProgram (file node) i).vaddr := UInt32.not_le.mpr hlow
        obtain ⟨img, himg, hall⟩ := ih hrest hx
        refine ⟨img, hsame ▸ himg, ?_⟩
        rwa [List.map_cons, List.filter_cons_of_neg (by simpa using hskip)]
      · rw [hprog hr₀] at hhigh hload
        obtain ⟨hneg, rfl, -⟩ | ⟨hr₁, hrest⟩ := hend
        · exact absurd hr (Int.not_le.mpr hneg)
        · have hca : a ≠ c := fun hac => hcurr (congrArg some hac)
          have hxt := (loadSegment_spares hload).context a _ hca hx
          obtain ⟨mid, hmid, hall⟩ := ih hrest hxt
          obtain ⟨P, hP, hPx⟩ := hx
          have hdir : P.regs.cr3 = dir := (congrArg (fun x => x.2.1.cr3) hPx).trans hregs
          obtain ⟨img, himg, hfirst⟩ := loadSegment_loadedFrom hshows hload
            (SList.get?_eq_some.mpr hP) hdir hr₁ hmid
          refine ⟨img, hsame ▸ himg, ?_⟩
          rw [List.map_cons, List.filter_cons_of_pos (by simpa using hhigh)]
          exact .cons hfirst hall

/-- The file whose header was read. -/
theorem execHeader_file (hshows : Shows K L dir view file) {path : List UInt8} {kernel kernel' : κ}
    {hdr : ElfHeader} (h : execHeader L path kernel = (.ok (node, hdr), kernel')) :
    node = (L.fsResolve path kernel).1.2 ∧ hdr = fileHeader (file node) := by
  rw [execHeader] at h
  dsimp only at h
  split at h
  · cases h
  · split at h
    · cases h
    · rename_i hread
      split at h
      · obtain ⟨rfl, rfl⟩ := Prod.mk.inj (Except.ok.inj (Prod.mk.inj h).1)
        rw [hshows.read _ _ _ _ (Int.not_lt.mp hread)]
        exact ⟨rfl, rfl⟩
      · cases h

/-! ## When a program is fully loaded -/

theorem writesWithin_of_le (hshows : Shows K L dir view file) {p : ElfProgram}
    (hsize : p.filesz ≤ p.memsz) : WritesWithin K L dir view node p := by
  intro img img' hload
  refine ⟨_, (loadedFrom_loads hshows hload).writes, ?_⟩
  intro b hb x hx
  rcases List.mem_cons.mp hb with rfl | hb
  · exact Nat.lt_of_lt_of_le hx (UInt32.le_iff_toNat_le.mp hsize)
  · obtain rfl := List.mem_singleton.mp hb
    exact hx

/-- A segment with more bytes in the file than in memory is written beyond its
end. -/
theorem le_of_writesWithin (hshows : Shows K L dir view file) {p : ElfProgram} {img img' : Image}
    (hload : LoadedFrom K L dir view node p img img') (h : WritesWithin K L dir view node p) :
    p.filesz ≤ p.memsz := by
  rw [← UInt32.not_lt]
  intro hlt
  obtain ⟨writes, hwrites, hin⟩ := h img img' hload
  rw [(loadedFrom_loads hshows hload).writes, List.append_cancel_right_eq] at hwrites
  have hbeyond : InBlock p.vaddr p.filesz.toNat (p.vaddr + p.memsz) := by
    rw [InBlock, add_sub_cancel_left]
    exact UInt32.lt_iff_toNat_lt.mp hlt
  have hmem : (p.vaddr, p.filesz.toNat) ∈ writes := by
    rw [← hwrites]
    exact List.mem_cons_self
  have hholds := hin (p.vaddr, p.filesz.toNat) hmem (p.vaddr + p.memsz) hbeyond
  rw [Holds, InBlock, add_sub_cancel_left] at hholds
  exact Nat.lt_irrefl _ hholds

/-- What is in memory when `proc_exec` returns a pid: the segments of the file,
loaded one after the other. -/
theorem procExec_loadsAll {path : List UInt8} {argv : Option (List (List UInt8))} {pid : UInt32}
    (h : s.procExec K L path argv = some (.created a pid, s')) {P : Proc}
    (hP : s'.processes.get? a = some P) (hshows : Shows K L P.regs.cr3 view file) {img : Image}
    (hview : view s'.kernel = some img) :
    ∃ img₀, LoadsAll (LoadedFrom K L P.regs.cr3 view (L.fsResolve path s.kernel).1.2)
      (segments (file (L.fsResolve path s.kernel).1.2)) img₀ img := by
  obtain ⟨r, hres, -⟩ | ⟨node, hdr, kernel, b, t, u, v, r, hran, -, hend⟩ := procExec_cases h
  · cases hres
  · obtain ⟨hres, -⟩ | ⟨hr, ⟨id, hres⟩, rfl⟩ := hend
    · cases hres
    · obtain ⟨rfl, -⟩ := ExecResult.created.inj hres
      obtain ⟨rfl, rfl⟩ := execHeader_file hshows hran.header
      obtain ⟨Q, hQ, hctx⟩ := hran.context_load
      obtain rfl := SList.unique (SList.get?_eq_some.mp hP) hQ
      have hregs := congrArg (fun x => x.2.1.cr3) hctx
      obtain ⟨img₀, -, hall⟩ := loadSegments_loads hshows hran.ne_curr rfl hregs.symm _ hran.load
        hran.context hr hview
      exact ⟨img₀, hall⟩

/-- No segment of a fully loaded program is too long in the file. -/
theorem FullyLoaded.size (hshows : Shows K L dir view file) {img₀ img : Image}
    (hall : LoadsAll (LoadedFrom K L dir view node) (segments (file node)) img₀ img)
    (h : FullyLoaded K L dir view node (file node) img) :
    ∀ p ∈ segments (file node), p.filesz ≤ p.memsz := by
  intro p hp
  obtain ⟨before, after, hfrom⟩ := hall.of_mem hp
  exact le_of_writesWithin hshows hfrom (h.within p hp)

/-- The program that `proc_exec` has loaded when it returns a pid is fully loaded
exactly if its segments fit. -/
theorem fullyLoaded_iff {path : List UInt8} {argv : Option (List (List UInt8))} {pid : UInt32}
    (h : s.procExec K L path argv = some (.created a pid, s')) {P : Proc}
    (hP : s'.processes.get? a = some P) (hshows : Shows K L P.regs.cr3 view file) {img : Image}
    (hview : view s'.kernel = some img) :
    FullyLoaded K L P.regs.cr3 view (L.fsResolve path s.kernel).1.2
        (file (L.fsResolve path s.kernel).1.2) img ↔
      Fit (file (L.fsResolve path s.kernel).1.2) := by
  obtain ⟨img₀, hall⟩ := procExec_loadsAll h hP hshows hview
  have hloads := hall.mono fun p img img' => loadedFrom_loads hshows
  constructor
  · intro hfull
    refine ⟨FullyLoaded.size hshows hall hfull, ?_⟩
    intro p hp q hq x hpx hqx
    exact (hfull.byte p hp x hpx).symm.trans (hfull.byte q hq x hqx)
  · intro hfit
    constructor
    · intro p hp x hpx
      exact hloads.present hp (Or.inl hpx)
    · intro p hp x hpx
      -- the segment that was written last at the address wants the same byte
      obtain ⟨q, hq, hqx, hbyte⟩ := hloads.byte ⟨p, hp, Or.inl hpx⟩
      have hqholds : Holds q x := by
        refine hqx.elim id fun hfile => ?_
        exact Nat.lt_of_lt_of_le hfile (UInt32.le_iff_toNat_le.mp (hfit.size q hq))
      rw [hbyte]
      exact hfit.overlap q hq p hp x hqholds hpx
    · intro p hp
      exact writesWithin_of_le hshows (hfit.size p hp)

/-! ## Programs with one segment -/

/-- A heap that only grows, one directory, and its memory. -/
def imageKernel : Kernel (Nat × Option Image) where
  kmalloc k := (some k.1, k.1 + 0x15000, k.2)
  kfree _ k := k
  memAllocPgdir k := (0x5000, k)
  memFreePgdir _ k := k
  krnlPgdir := 0x1000
  fsNodeClose _ k := k
  ttyName _ := none
  memcpy vaddr bytes k := (k.1, k.2.bind (Image.write vaddr bytes))

/-- Every path is that of one file, with zeros behind it. -/
def imageLoader (bytes : List UInt8) : Loader (Nat × Option Image) where
  fsResolve _ k := ((0, 0), k)
  fsNodeRead _ offset size k := ((size, slice (bytes.getD · 0) offset.toNat size), k)
  memMap _ vaddr n k := (k.1, k.2.map (Image.map vaddr n))
  inUse vaddr _ _ := vaddr < 0x40000000

theorem imageLoader_shows (bytes : List UInt8) (dir : UInt32) :
    Shows imageKernel (imageLoader bytes) dir Prod.snd (fun _ => (bytes.getD · 0)) where
  memMap vaddr n k := by
    cases hk : k.2 with
    | none => simp only [imageLoader, hk, Option.map_none]; exact .none
    | some img =>
        simp only [imageLoader, hk, Option.map_some]
        exact .some (img.map_mapped vaddr n)
  memcpy _ _ _ := rfl
  read _ _ _ _ _ := rfl
  readView _ _ _ _ := rfl

theorem imageLoader_node (bytes path : List UInt8) (k : Nat × Option Image) :
    ((imageLoader bytes).fsResolve path k).1.2 = 0 := rfl

/-- A machine with one process and the memory of the kernel. -/
def imageBoot : Procs (Nat × Option Image) :=
  let s := boot {} [] (0x100000, some ⟨fun x => x < 0x40000000, fun _ => 0, []⟩)
  (s.step imageKernel (.procCreate none [97] 0)).getD s

/-- `filesz` is the four bytes that the file has, and `memsz` is two. -/
def longFile : List UInt8 := (elfFile 1).set 72 2

/-- What `proc_exec` does with a file of one segment. -/
theorem imageBoot_exec (bytes : List UInt8) (h : ((imageBoot.procExec imageKernel
    (imageLoader bytes) [98] none).map fun r => (r.1, (r.2.processes.get? 0x115000).isSome,
      r.2.kernel.2.isSome)) = some (.created 0x115000 2, true, true)) :
    ∃ s' P img, imageBoot.procExec imageKernel (imageLoader bytes) [98] none =
        some (.created 0x115000 2, s') ∧
      s'.processes.get? 0x115000 = some P ∧ s'.kernel.2 = some img := by
  obtain ⟨⟨res, s'⟩, hexec, heq⟩ := Option.map_eq_some_iff.mp h
  simp only [Prod.mk.injEq] at heq
  obtain ⟨rfl, hget, hkernel⟩ := heq
  obtain ⟨P, hP⟩ := Option.isSome_iff_exists.mp hget
  obtain ⟨img, himg⟩ := Option.isSome_iff_exists.mp hkernel
  exact ⟨s', P, img, hexec, hP, himg⟩

theorem fullyLoaded_iff_four :
    ∃ s' P img, imageBoot.procExec imageKernel (imageLoader (elfFile 1)) [98] none =
        some (.created 0x115000 2, s') ∧
      s'.processes.get? 0x115000 = some P ∧ s'.kernel.2 = some img ∧
        FullyLoaded imageKernel (imageLoader (elfFile 1)) P.regs.cr3 Prod.snd 0
          ((elfFile 1).getD · 0) img := by
  obtain ⟨s', P, img, hexec, hP, himg⟩ := imageBoot_exec (elfFile 1) (by decide +kernel)
  have hsegments : segments ((elfFile 1).getD · 0) = [⟨84, 0x40000000, 4, 4⟩] := by decide +kernel
  have hiff := fullyLoaded_iff hexec hP (imageLoader_shows (elfFile 1) _) himg
  rw [imageLoader_node] at hiff
  refine ⟨s', P, img, hexec, hP, himg, hiff.mpr ⟨?_, ?_⟩⟩
  · intro p hp
    obtain rfl := List.mem_singleton.mp (hsegments ▸ hp)
    decide
  · intro p hp q hq x _ _
    obtain rfl := List.mem_singleton.mp (hsegments ▸ hp)
    obtain rfl := List.mem_singleton.mp (hsegments ▸ hq)
    rfl

/-- Two bytes are written behind the segment. -/
theorem fullyLoaded_wrong :
    ∃ s' P img, imageBoot.procExec imageKernel (imageLoader longFile) [98] none =
        some (.created 0x115000 2, s') ∧
      s'.processes.get? 0x115000 = some P ∧ s'.kernel.2 = some img ∧
        ¬ FullyLoaded imageKernel (imageLoader longFile) P.regs.cr3 Prod.snd 0
          (longFile.getD · 0) img := by
  obtain ⟨s', P, img, hexec, hP, himg⟩ := imageBoot_exec longFile (by decide +kernel)
  refine ⟨s', P, img, hexec, hP, himg, ?_⟩
  intro hfull
  have hshows := imageLoader_shows longFile P.regs.cr3
  obtain ⟨img₀, hall⟩ := procExec_loadsAll hexec hP hshows himg
  rw [imageLoader_node] at hall
  have hsize := FullyLoaded.size hshows hall hfull ⟨84, 0x40000000, 4, 2⟩ (by decide +kernel)
  exact absurd hsize (by decide)

end Procs

end Exec

end StardustOS.Process
