import StardustOS.Fs.Initrd
import StardustOS.Sys.Offsets

/-!
# Reading the initial ramdisk

`initrd_read` extracts the whole entry to the heap, copies `size` bytes from
`offset` on out of the extracted buffer, and returns the size of the entry.  It
clamps neither the offset nor the size.

A byte of the source of the copy is named by its distance from the start of the
extracted buffer.  The distance is a pointer difference, so it may wrap.

A read is right exactly when it asks for the whole entry from its start
(`initrdRead_ok_iff`), so of the reads of a descriptor the first one alone can be
right, unless the entry is empty (`reads_iff`).
-/

namespace StardustOS.Fs

open Lib Sys
open Process (OPEN_MAX)

variable {σ N : Type*}

/-- `mz_zip_reader_extract_to_heap`: the content of the entries, which fits in
memory, and for a call whether it returns a buffer, with what lies around the
buffer. -/
structure Extractor (σ N : Type*) where
  content : N → List UInt8
  fits : ∀ node, (content node).length < 2 ^ 32
  extract : N → σ → Option (UInt32 → UInt8) × σ

/-- What a read does: its result, the bytes of the source it reads, and the bytes
it stores from the start of `buff` on. -/
structure NodeRead where
  ret : Except ErrorCode Nat
  source : List UInt32
  stored : List UInt8

/-- The byte at a distance from the start of the extracted buffer. -/
def bufferByte (content : List UInt8) (around : UInt32 → UInt8) (i : UInt32) : UInt8 :=
  content[i.toNat]?.getD (around i)

/-- The bytes that `memcpy` reads. -/
def copied (offset size : UInt32) : List UInt32 :=
  (List.range size.toNat).map fun i => offset + .ofNat i

/-- `initrd_read`, on the entry with the given content. -/
def initrdRead (content : List UInt8) (buffer : Option (UInt32 → UInt8)) (offset size : UInt32) :
    NodeRead :=
  match buffer with
  | none => ⟨.error (errno EINVAL EINVAL_range), [], []⟩
  | some around =>
      { ret := .ok content.length
        source := copied offset size
        stored := (copied offset size).map (bufferByte content around) }

/-- `6 << FS_NODE_FILE`. -/
def initrdFileMode : UInt32 := (6 : UInt32) <<< 1

/-- The files of a mounted archive. -/
def Extractor.nodes (Z : Extractor σ N)
    (fsResolve : Option (List UInt8) → σ → Except ErrorCode N × σ) : Nodes σ N where
  mode _ _ := initrdFileMode
  size node _ := .ofNat (Z.content node).length
  opts _ _ := {
    openFd := none
    closeFd := none
    read := some fun node offset size w =>
      let (buffer, w) := Z.extract node w
      let r := initrdRead (Z.content node) buffer offset size
      (r.ret, r.stored, w)
    write := none }
  fsResolve := fsResolve

/-! ## What a read is to do -/

/-- The number of bytes there are to read. -/
def readCount (content : List UInt8) (offset size : UInt32) : Nat :=
  if offset.toNat ≤ content.length then min size.toNat (content.length - offset.toNat) else 0

/-- A read returns the bytes that there are, and touches no others. -/
structure NodeRead.Ok (r : NodeRead) (content : List UInt8) (offset size : UInt32) : Prop where
  ret : r.ret = .ok (readCount content offset size)
  stored : r.stored = (content.drop offset.toNat).take (readCount content offset size)
  source : ∀ i ∈ r.source, i.toNat < content.length

/-- What reads of these sizes return, one after the other. -/
def chunks : List UInt8 → List UInt32 → List (Except ErrorCode Nat × List UInt8)
  | _, [] => []
  | rest, size :: sizes =>
      (.ok (rest.take size.toNat).length, rest.take size.toNat) ::
        chunks (rest.drop size.toNat) sizes

/-- The read is of the whole entry. -/
def WholeRead (content : List UInt8) (offset size : UInt32) : Prop :=
  size.toNat = content.length ∧ (offset = 0 ∨ content = [])

instance {content : List UInt8} {offset size : UInt32} :
    Decidable (WholeRead content offset size) :=
  inferInstanceAs (Decidable (_ ∧ (_ ∨ _)))

/-! ## One read -/

section Read

variable {content : List UInt8} {offset size : UInt32} {around : UInt32 → UInt8}

theorem length_copied (offset size : UInt32) : (copied offset size).length = size.toNat := by
  simp [copied]

theorem mem_copied {i : UInt32} :
    i ∈ copied offset size ↔ ∃ k < size.toNat, offset + .ofNat k = i := by
  simp [copied]

/-- The bytes there are to read. -/
theorem length_wanted (content : List UInt8) (offset size : UInt32) :
    ((content.drop offset.toNat).take size.toNat).length = readCount content offset size := by
  rw [List.length_take, List.length_drop, readCount]
  split
  · rfl
  · omega

theorem take_readCount (content : List UInt8) (offset size : UInt32) :
    (content.drop offset.toNat).take (readCount content offset size) =
      (content.drop offset.toNat).take size.toNat := by
  rw [← length_wanted]
  exact (List.prefix_iff_eq_take.mp (List.take_prefix _ _)).symm

/-- A read of a whole entry copies it. -/
theorem stored_whole (h : WholeRead content offset size) (around : UInt32 → UInt8) :
    (copied offset size).map (bufferByte content around) = content := by
  obtain ⟨hsize, rfl | rfl⟩ := h
  · refine List.ext_getElem (by rw [List.length_map, length_copied, hsize]) ?_
    intro k _ hk
    have hmod : (UInt32.ofNat k).toNat = k :=
      UInt32.toNat_ofNat_of_lt' (by rw [← hsize] at hk; exact hk.trans size.toNat_lt)
    simp [copied, bufferByte, hmod, hk]
  · rw [copied, hsize]
    rfl

/-- A copy of another length than that of the entry is not what is returned. -/
theorem wholeRead_of_length (hlen : content.length = readCount content offset size)
    (hsize : size.toNat = readCount content offset size) : WholeRead content offset size := by
  refine ⟨hsize.trans hlen.symm, ?_⟩
  rw [readCount] at hlen
  rcases Nat.eq_zero_or_pos content.length with hnil | hpos
  · exact Or.inr (List.length_eq_zero_iff.mp hnil)
  · refine Or.inl (UInt32.toNat_inj.mp ?_)
    rw [UInt32.toNat_zero]
    split at hlen
    · omega
    · omega

theorem WholeRead.readCount_eq (h : WholeRead content offset size) :
    readCount content offset size = content.length := by
  obtain ⟨hsize, rfl | rfl⟩ := h
  · rw [readCount, UInt32.toNat_zero, if_pos (Nat.zero_le _), hsize, Nat.sub_zero, Nat.min_self]
  · rw [readCount, hsize, List.length_nil, Nat.zero_min, ite_self]

/-- A read is right exactly when there is a buffer and the whole entry is asked
for. -/
theorem initrdRead_ok_iff (content : List UInt8) (buffer : Option (UInt32 → UInt8))
    (offset size : UInt32) :
    (initrdRead content buffer offset size).Ok content offset size ↔
      buffer.isSome ∧ WholeRead content offset size := by
  cases buffer with
  | none =>
      constructor
      · intro h
        cases h.ret
      · intro h
        cases h.1
  | some around =>
      constructor
      · intro h
        have hstored := congrArg List.length h.stored
        rw [take_readCount, length_wanted] at hstored
        simp only [initrdRead, List.length_map, length_copied] at hstored
        exact ⟨rfl, wholeRead_of_length (Except.ok.inj h.ret) hstored⟩
      · intro ⟨_, h⟩
        refine ⟨?_, ?_, ?_⟩
        · rw [h.readCount_eq]
          rfl
        · rw [h.readCount_eq]
          refine (stored_whole h around).trans ?_
          obtain ⟨-, rfl | rfl⟩ := h
          · simp
          · simp
        · intro i hi
          obtain ⟨k, hk, rfl⟩ := mem_copied.mp hi
          obtain ⟨hsize, rfl | rfl⟩ := h
          · rw [UInt32.zero_add, UInt32.toNat_ofNat_of_lt' (hk.trans size.toNat_lt), ← hsize]
            exact hk
          · exact absurd hk (by rw [hsize]; exact Nat.not_lt_zero _)

end Read

/-! ## Reads of a descriptor -/

section Reads

variable (Z : Extractor σ N) (fsResolve : Option (List UInt8) → σ → Except ErrorCode N × σ)
  (depth : Nat) (i : Fin OPEN_MAX)

/-- The calls `nl_read(i, buff, size)` for the sizes in turn, with what they
return and store. -/
def reads : List UInt32 → Files σ N → Option (List (Except ErrorCode Nat × List UInt8))
  | [], _ => some []
  | size :: sizes, s =>
      (s.nlRead (Z.nodes fsResolve) (depth + 1) i size).bind fun (r, bytes, s) =>
        (reads sizes s).map ((r, bytes) :: ·)

/-- The descriptor is open on the node. -/
def OpenOn (s : Files σ N) (node : N) : Prop :=
  ∃ p, s.curr = some p ∧ (p.fd i).node = some node

/-- A call of `nl_read` whose extraction succeeds and which reads the whole
entry. -/
def ReadsWhole (node : N) (s : Files σ N) : FileCall → Prop
  | .nlRead _ size =>
      (Z.extract node s.world).1.isSome ∧ WholeRead (Z.content node) (s.offset i) size
  | _ => True

variable {Z fsResolve depth i} {s : Files σ N} {node : N}

/-- A file of the archive is no link and no directory. -/
theorem fsNodeRead_file (offset size : UInt32) (w : σ) :
    (Z.nodes fsResolve).fsNodeRead (depth + 1) node offset size w =
      some ((initrdRead (Z.content node) (Z.extract node w).1 offset size).ret,
        (initrdRead (Z.content node) (Z.extract node w).1 offset size).stored,
        (Z.extract node w).2) := by
  have hlink : nodeTypeGet initrdFileMode ≠ FS_NODE_LINK := by decide
  have hdir : nodeTypeGet initrdFileMode ≠ FS_NODE_DIR := by decide
  simp only [Nodes.fsNodeRead, Nodes.fsNodeIo, Extractor.nodes, Option.map_some, hlink, hdir,
    ↓reduceIte]

variable (Z fsResolve depth) in
/-- What `nl_read` does. -/
theorem nlRead_file (hopen : OpenOn i s node) (size : UInt32) :
    ∃ s', s.nlRead (Z.nodes fsResolve) (depth + 1) i size =
        some ((initrdRead (Z.content node) (Z.extract node s.world).1 (s.offset i) size).ret,
          (initrdRead (Z.content node) (Z.extract node s.world).1 (s.offset i) size).stored, s') ∧
      s.step (Z.nodes fsResolve) (depth + 1) (.nlRead i size) = some s' ∧ OpenOn i s' node ∧
      s'.offset i = s.offset i +
        sizeT (initrdRead (Z.content node) (Z.extract node s.world).1 (s.offset i) size).ret := by
  obtain ⟨p, hcurr, hnode⟩ := hopen
  have hoffset : s.offset i = (p.fd i).offset := by rw [Files.offset, hcurr, Option.map_some,
    Option.getD_some]
  have hread : s.nlRead (Z.nodes fsResolve) (depth + 1) i size =
      some ((initrdRead (Z.content node) (Z.extract node s.world).1 (s.offset i) size).ret,
        (initrdRead (Z.content node) (Z.extract node s.world).1 (s.offset i) size).stored,
        ⟨some (Files.moved p i
          (initrdRead (Z.content node) (Z.extract node s.world).1 (s.offset i) size).ret),
          (Z.extract node s.world).2⟩) := by
    simp only [Files.nlRead, Files.nlIo, Files.onFd_open hcurr hnode, fsNodeRead_file,
      Option.map_some, UInt32.not_lt_zero, ↓reduceIte, hoffset, Files.moved]
  refine ⟨_, hread, ?_, ⟨_, rfl, ?_⟩, ?_⟩
  · rw [Files.step, Files.call, hread]
    rfl
  · simp [Files.moved, ProcFiles.setFd, hnode]
  · rw [Files.moved_offset, hoffset]

/-- One call returns and stores what there is exactly when it is of the whole
entry. -/
theorem nlRead_right_iff (content : List UInt8) (buffer : Option (UInt32 → UInt8))
    (offset size : UInt32) :
    ((initrdRead content buffer offset size).ret, (initrdRead content buffer offset size).stored) =
        (.ok ((content.drop offset.toNat).take size.toNat).length,
          (content.drop offset.toNat).take size.toNat) ↔
      buffer.isSome ∧ WholeRead content offset size := by
  rw [← initrdRead_ok_iff]
  constructor
  · intro h
    obtain ⟨hret, hstored⟩ := Prod.mk.inj h
    rw [length_wanted] at hret
    refine ((initrdRead_ok_iff content buffer offset size).mpr ?_)
    cases buffer with
    | none => cases hret
    | some around =>
        have hlen := congrArg List.length hstored
        rw [length_wanted] at hlen
        simp only [initrdRead, List.length_map, length_copied] at hlen
        exact ⟨rfl, wholeRead_of_length (Except.ok.inj hret) hlen⟩
  · intro h
    rw [h.ret, h.stored, take_readCount, length_wanted]

/-- After a read of the whole entry nothing is left. -/
theorem WholeRead.rest {content : List UInt8} {offset size : UInt32}
    (h : WholeRead content offset size) (hfits : content.length < 2 ^ 32) :
    (content.drop offset.toNat).drop size.toNat =
      content.drop (offset + .ofNat content.length).toNat := by
  obtain ⟨hsize, rfl | rfl⟩ := h
  · rw [UInt32.zero_add, UInt32.toNat_ofNat_of_lt' hfits, hsize, UInt32.toNat_zero, List.drop_zero]
  · simp

variable (Z fsResolve depth) in
/-- The reads of a descriptor return the rest of the file from its offset on,
each byte once, exactly when each of them is of the whole entry. -/
theorem reads_rest_iff (hopen : OpenOn i s node) (sizes : List UInt32) :
    reads Z fsResolve depth i sizes s =
        some (chunks ((Z.content node).drop (s.offset i).toNat) sizes) ↔
      Meets (Files.step (Z.nodes fsResolve) (depth + 1)) (ReadsWhole Z i node) s
        (sizes.map fun size => .nlRead i size) := by
  induction sizes generalizing s with
  | nil => exact iff_of_true rfl trivial
  | cons size sizes ih =>
      obtain ⟨s', hread, hstep, hopen', hoffset⟩ :=
        nlRead_file Z fsResolve depth hopen size
      have hone := nlRead_right_iff (Z.content node) (Z.extract node s.world).1 (s.offset i) size
      rw [reads, hread, Option.bind_some, List.map_cons, Meets, hstep, chunks]
      simp only [Option.some.injEq, forall_eq', ReadsWhole]
      rw [← hone, ← ih hopen', Option.map_eq_some_iff]
      -- the chunks that are left, once this one is right
      have hrest : ((initrdRead (Z.content node) (Z.extract node s.world).1 (s.offset i) size).ret,
            (initrdRead (Z.content node) (Z.extract node s.world).1 (s.offset i) size).stored) =
          (.ok (((Z.content node).drop (s.offset i).toNat).take size.toNat).length,
            ((Z.content node).drop (s.offset i).toNat).take size.toNat) →
          ((Z.content node).drop (s.offset i).toNat).drop size.toNat =
            (Z.content node).drop (s'.offset i).toNat := by
        intro h
        obtain ⟨hbuffer, hwhole⟩ := hone.mp h
        obtain ⟨around, haround⟩ := Option.isSome_iff_exists.mp hbuffer
        rw [hwhole.rest (Z.fits node), hoffset, haround]
        rfl
      constructor
      · rintro ⟨rest, hreads, heq⟩
        obtain ⟨hhead, rfl⟩ := List.cons.inj heq
        exact ⟨hhead, hrest hhead ▸ hreads⟩
      · intro ⟨hhead, hreads⟩
        rw [hhead, hrest hhead]
        exact ⟨_, hreads, rfl⟩

end Reads

/-- A file of the archive is read as it should be, in one read and by the reads of
a descriptor, exactly in the reads of the whole entry whose extraction succeeds. -/
theorem initrdRead_iff (Z : Extractor σ N)
    (fsResolve : Option (List UInt8) → σ → Except ErrorCode N × σ) (node : N) :
    (∀ offset size w,
      (initrdRead (Z.content node) (Z.extract node w).1 offset size).Ok (Z.content node)
          offset size ↔
        (Z.extract node w).1.isSome ∧ WholeRead (Z.content node) offset size) ∧
    ∀ (depth : Nat) (i : Fin OPEN_MAX) (s : Files σ N) (sizes : List UInt32),
      OpenOn i s node → s.offset i = 0 →
        (reads Z fsResolve depth i sizes s = some (chunks (Z.content node) sizes) ↔
          Meets (Files.step (Z.nodes fsResolve) (depth + 1)) (ReadsWhole Z i node) s
            (sizes.map fun size => .nlRead i size)) := by
  refine ⟨fun offset size w => initrdRead_ok_iff _ _ offset size, ?_⟩
  intro depth i s sizes hopen hstart
  have hrest := reads_rest_iff Z fsResolve depth hopen sizes
  rwa [hstart, UInt32.toNat_zero, List.drop_zero] at hrest

/-! ## A file of two bytes -/

/-- The archive of the file `hi`, between zeros. -/
def hiArchive : Extractor Unit Unit where
  content _ := [104, 105]
  fits _ := by decide
  extract _ w := (some fun _ => 0, w)

/-- Descriptor 3 is open on it. -/
def hiOpen : Files Unit Unit where
  curr := some {
    id := 1
    uid := 0
    gid := 0
    fd := fun i => ⟨if i = 3 then some () else none, 0, 0, 1, 0, 0⟩ }
  world := ()

/-- One read of two bytes. -/
theorem initrdRead_iff_whole :
    reads hiArchive (fun _ w => (.ok (), w)) 0 3 [2] hiOpen =
      some [(.ok 2, [104, 105])] := by
  refine ((initrdRead_iff hiArchive _ ()).2 0 3 hiOpen [2] ⟨_, rfl, rfl⟩ rfl).mpr ?_
  exact ⟨⟨rfl, by decide, Or.inl rfl⟩, fun _ _ => trivial⟩

/-- A read of one byte returns 2, a read of four bytes copies two from behind the
buffer, and the third of three reads copies from there alone. -/
theorem initrdRead_wrong :
    ¬ (initrdRead [104, 105] (some fun _ => 0) 0 1).Ok [104, 105] 0 1 ∧
      ¬ (initrdRead [104, 105] (some fun _ => 0) 0 4).Ok [104, 105] 0 4 ∧
      reads hiArchive (fun _ w => (.ok (), w)) 0 3 [1, 1, 1] hiOpen =
        some [(.ok 2, [104]), (.ok 2, [0]), (.ok 2, [0])] := by
  refine ⟨?_, ?_, by decide⟩
  · intro h
    cases h.ret
  · intro h
    exact absurd (h.source 2 (by decide)) (by decide)

end StardustOS.Fs
