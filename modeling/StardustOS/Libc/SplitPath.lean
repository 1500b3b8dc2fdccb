import Mathlib.Data.List.DropRight
import StardustOS.Libc.Compare
import StardustOS.Libc.Libgen

/-!
# The parts of a path

`basename` gives the last part of a path that is free of slashes, and `dirname` what is
before it.  Each path with another character than a slash is `d`, such a part `b` and
slashes (`exists_split`), and both functions are computed for that form.

`dirnameIn` and `basenameIn` are the functions on an array in which only so many bytes
may be read and written as the list holds; an access behind it is undefined.  The string
and its NUL are enough (`dirnameIn_eq`, `basenameIn_eq`).
-/

namespace StardustOS.Libc

/-! ## Accesses -/

/-- `strlen`, of what may be read. -/
def strlenIn : List UInt8 → Option Nat
  | [] => none
  | c :: s => if c = 0 then some 0 else (strlenIn s).map (· + 1)

/-- The loop over the trailing slashes, as in `trimSlashes`. -/
def trimSlashesIn : Nat → List UInt8 → Option (Option Nat × List UInt8)
  | 0, buf => buf[0]?.map fun c => if c = slash then (none, buf) else (some 0, buf)
  | k + 1, buf =>
      buf[k + 1]?.bind fun c =>
        if c = slash then trimSlashesIn k (buf.set (k + 1) 0) else some (some (k + 1), buf)

/-- The loop back to the last slash, as in `lastSlash`. -/
def lastSlashIn (buf : List UInt8) : Nat → Option (Option Nat)
  | 0 => buf[0]?.map fun c => if c = slash then some 0 else none
  | k + 1 =>
      buf[k + 1]?.bind fun c => if c = slash then some (some (k + 1)) else lastSlashIn buf k

/-- `dirname`.  What is written was read before. -/
def dirnameIn (buf : List UInt8) : Option (CPtr × List UInt8) :=
  buf[0]?.bind fun c =>
    if c = 0 then some (.lit [dot], buf)
    else
      (strlenIn buf).bind fun len =>
        (trimSlashesIn (len - 1) buf).bind fun
          | (none, buf) => some (.ptr 0, buf)
          | (some k, buf) =>
              (lastSlashIn buf k).map fun
                | none => (.lit [dot], buf)
                | some 0 => (.lit [slash], buf)
                | some (j + 1) => (.ptr 0, buf.set (j + 1) 0)

/-- `basename`. -/
def basenameIn (buf : List UInt8) : Option (CPtr × List UInt8) :=
  buf[0]?.bind fun c =>
    if c = 0 then some (.lit [dot], buf)
    else
      (strlenIn buf).bind fun len =>
        (trimSlashesIn (len - 1) buf).bind fun
          | (none, buf) => some (.ptr 0, buf)
          | (some k, buf) =>
              (lastSlashIn buf k).map fun
                | none => (.ptr 0, buf)
                | some j => (.ptr (j + 1), buf)

theorem getElem?_byteAt {buf : List UInt8} {i : Nat} (hi : i < buf.length) :
    buf[i]? = some (byteAt buf i) := by
  rw [byteAt, List.getElem?_eq_getElem hi, List.getD_eq_getElem _ _ hi]

theorem strlenIn_eq {buf : List UInt8} (h : 0 ∈ buf) : strlenIn buf = some (strlen buf 0) := by
  induction buf with
  | nil => exact absurd h List.not_mem_nil
  | cons c s ih =>
      rw [strlenIn, strlen, cstr, List.drop_zero, List.takeWhile_cons]
      by_cases hc : c = 0
      · simp [hc]
      · have hs : 0 ∈ s := (List.mem_cons.mp h).resolve_left (Ne.symm hc)
        rw [if_neg hc, ih hs]
        simp [hc, strlen, cstr]

theorem strlen_lt {buf : List UInt8} (h : 0 ∈ buf) : strlen buf 0 < buf.length := by
  induction buf with
  | nil => exact absurd h List.not_mem_nil
  | cons c s ih =>
      rw [strlen, cstr, List.drop_zero, List.takeWhile_cons, List.length_cons]
      by_cases hc : c = 0
      · simp [hc]
      · have hs := ih ((List.mem_cons.mp h).resolve_left (Ne.symm hc))
        simp only [strlen, cstr, List.drop_zero] at hs
        simpa [hc] using hs

theorem trimSlashesIn_eq {k : Nat} {buf : List UInt8} (hk : k < buf.length) :
    trimSlashesIn k buf = some (trimSlashes 0 k buf) := by
  induction k generalizing buf with
  | zero =>
      rw [trimSlashesIn, trimSlashes, getElem?_byteAt hk, Option.map_some]
  | succ k ih =>
      rw [trimSlashesIn, trimSlashes, getElem?_byteAt hk, Option.bind_some, Nat.zero_add]
      split
      · exact ih (by rw [List.length_set]; omega)
      · rfl

theorem lastSlashIn_eq {k : Nat} {buf : List UInt8} (hk : k < buf.length) :
    lastSlashIn buf k = some (lastSlash buf 0 k) := by
  induction k with
  | zero => rw [lastSlashIn, lastSlash, getElem?_byteAt hk, Option.map_some]
  | succ k ih =>
      rw [lastSlashIn, lastSlash, getElem?_byteAt hk, Option.bind_some, Nat.zero_add]
      split
      · rfl
      · exact ih (by omega)

/-- Where the loop over the trailing slashes ends, the other one may begin. -/
theorem lastSlashIn_trim {k n : Nat} {buf buf' : List UInt8} (hn : n < buf.length)
    (h : trimSlashes 0 n buf = (some k, buf')) :
    lastSlashIn buf' k = some (lastSlash buf' 0 k) := by
  have hle := @trimSlashes_le 0 k n buf (by rw [h])
  have hlen : buf'.length = buf.length := by
    have htrim := @trimSlashes_length 0 n buf
    rwa [h] at htrim
  exact lastSlashIn_eq (by omega)

/-- `dirname` gets by with the string and its NUL. -/
theorem dirnameIn_eq {buf : List UInt8} (h : 0 ∈ buf) : dirnameIn buf = some (dirname buf 0) := by
  have hlen := strlen_lt h
  rw [dirnameIn, dirname, getElem?_byteAt (by omega), Option.bind_some]
  split
  · rfl
  · rw [strlenIn_eq h, Option.bind_some, trimSlashesIn_eq (by omega), Option.bind_some]
    cases htrim : trimSlashes 0 (strlen buf 0 - 1) buf with
    | mk k buf' =>
      cases k with
      | none => rfl
      | some k =>
          simp only [lastSlashIn_trim (by omega) htrim, Option.map_some]
          rcases lastSlash buf' 0 k with _ | _ | j
          · rfl
          · rfl
          · simp only [Nat.zero_add]

/-- So does `basename`. -/
theorem basenameIn_eq {buf : List UInt8} (h : 0 ∈ buf) :
    basenameIn buf = some (basename buf 0) := by
  have hlen := strlen_lt h
  rw [basenameIn, basename, getElem?_byteAt (by omega), Option.bind_some]
  split
  · rfl
  · rw [strlenIn_eq h, Option.bind_some, trimSlashesIn_eq (by omega), Option.bind_some]
    cases htrim : trimSlashes 0 (strlen buf 0 - 1) buf with
    | mk k buf' =>
      cases k with
      | none => rfl
      | some k =>
          simp only [lastSlashIn_trim (by omega) htrim, Option.map_some]
          rcases lastSlash buf' 0 k with _ | j
          · rfl
          · simp only [Nat.zero_add]

/-! ## The parts -/

/-- A path without its trailing slashes. -/
def trimmed (p : List UInt8) : List UInt8 := p.rdropWhile (· = slash)

/-- Every run of slashes is one slash. -/
def collapse : List UInt8 → List UInt8
  | [] => []
  | c :: p => if c = slash ∧ p.head? = some slash then collapse p else c :: collapse p

/-- The path is `d`, the part `b` and slashes.  Before `b` the path begins, or there is a
slash. -/
structure Parts (p d b : List UInt8) (n : Nat) : Prop where
  path : p = d ++ (b ++ List.replicate n slash)
  nonempty : b ≠ []
  part : slash ∉ b
  before : d = [] ∨ ∃ e, d = e ++ [slash]

/-- The last part of a path that is free of slashes. -/
def LastPart (p b : List UInt8) : Prop := ∃ d n, Parts p d b n

/-- What is trimmed are slashes. -/
theorem exists_trailing (p : List UInt8) : ∃ n, p = trimmed p ++ List.replicate n slash := by
  have hslashes : p.rtakeWhile (· = slash) =
      List.replicate (p.rtakeWhile (· = slash)).length slash :=
    List.eq_replicate_iff.mpr ⟨rfl, fun c hc => by simpa using List.mem_rtakeWhile_imp hc⟩
  have hp : trimmed p ++ p.rtakeWhile (· = slash) = p := List.rdropWhile_append_rtakeWhile
  rw [hslashes] at hp
  exact ⟨_, hp.symm⟩

/-- What does not end in a slash has a last part. -/
theorem exists_lastPart {q : List UInt8} (hne : q ≠ []) (hlast : q.getLast hne ≠ slash) :
    ∃ d b, q = d ++ b ∧ b ≠ [] ∧ slash ∉ b ∧ (d = [] ∨ ∃ e, d = e ++ [slash]) := by
  refine ⟨q.rdropWhile (· ≠ slash), q.rtakeWhile (· ≠ slash),
    List.rdropWhile_append_rtakeWhile.symm, ?_, ?_, ?_⟩
  · rw [ne_eq, List.rtakeWhile_eq_nil_iff]
    exact fun hnil => hnil hne (by simpa using hlast)
  · exact fun hs => by simpa using List.mem_rtakeWhile_imp hs
  · by_cases hd : q.rdropWhile (· ≠ slash) = []
    · exact Or.inl hd
    · have hslash : (q.rdropWhile (· ≠ slash)).getLast hd = slash := by
        simpa using List.rdropWhile_last_not (fun c => decide (c ≠ slash)) q hd
      have hsnoc := List.dropLast_append_getLast hd
      rw [hslash] at hsnoc
      exact Or.inr ⟨_, hsnoc.symm⟩

theorem exists_split {p : List UInt8} (h : ∃ c ∈ p, c ≠ slash) : ∃ d b n, Parts p d b n := by
  have hne : trimmed p ≠ [] := by
    intro hnil
    obtain ⟨c, hc, hcs⟩ := h
    exact hcs (by simpa using List.rdropWhile_eq_nil_iff.mp hnil c hc)
  have hlast : (trimmed p).getLast hne ≠ slash := by
    simpa [trimmed] using List.rdropWhile_last_not (fun c => decide (c = slash)) p hne
  obtain ⟨n, hp⟩ := exists_trailing p
  obtain ⟨d, b, hq, hb, hs, hd⟩ := exists_lastPart hne hlast
  rw [hq, List.append_assoc] at hp
  exact ⟨d, b, n, hp, hb, hs, hd⟩

/-! ## The loops -/

/-- A slash at the end is written over. -/
theorem trimSlashes_step {u : List UInt8} {k : Nat} (hk : u.length = k + 1) (z : List UInt8) :
    trimSlashes 0 (k + 1) (u ++ slash :: z) = trimSlashes 0 k (u ++ 0 :: z) := by
  have hbyte : byteAt (u ++ slash :: z) (0 + (k + 1)) = slash := by
    rw [Nat.zero_add, ← hk, ← Nat.add_zero u.length, byteAt_append]
    rfl
  rw [trimSlashes, if_pos hbyte, Nat.zero_add, ← hk, List.set_append_right _ _ le_rfl,
    Nat.sub_self, List.set_cons_zero]

/-- The trailing slashes are written over. -/
theorem trimSlashes_trailing {w : List UInt8} {c : UInt8} (hc : c ≠ slash) (n m : Nat) :
    trimSlashes 0 (w.length + n) (w ++ c :: (List.replicate n slash ++ List.replicate m 0)) =
      (some w.length, w ++ c :: List.replicate (n + m) 0) := by
  induction n generalizing m with
  | zero =>
      have hbyte : byteAt (w ++ c :: List.replicate m 0) (0 + w.length) ≠ slash := by
        rw [Nat.zero_add, ← Nat.add_zero w.length, byteAt_append]
        exact hc
      rw [Nat.zero_add, Nat.add_zero, List.replicate_zero, List.nil_append]
      exact trimSlashes_of_ne hbyte
  | succ n ih =>
      have hlist : w ++ c :: (List.replicate (n + 1) slash ++ List.replicate m 0) =
          (w ++ c :: List.replicate n slash) ++ slash :: List.replicate m 0 := by
        simp [List.replicate_succ', List.append_assoc]
      have hlen : (w ++ c :: List.replicate n slash).length = w.length + n + 1 := by
        rw [List.length_append, List.length_cons, List.length_replicate, Nat.add_assoc]
      have hzeros : (w ++ c :: List.replicate n slash) ++ 0 :: List.replicate m 0 =
          w ++ c :: (List.replicate n slash ++ List.replicate (m + 1) 0) := by
        simp [List.replicate_succ, List.append_assoc]
      rw [hlist, ← Nat.add_assoc, trimSlashes_step hlen, hzeros, ih, Nat.add_assoc,
        Nat.add_comm m]

/-- Of slashes only the first one is left. -/
theorem trimSlashes_slashes (n m : Nat) :
    trimSlashes 0 n (List.replicate (n + 1) slash ++ List.replicate m 0) =
      (none, slash :: List.replicate (n + m) 0) := by
  induction n generalizing m with
  | zero => simp [trimSlashes, byteAt]
  | succ n ih =>
      have hlist : List.replicate (n + 1 + 1) slash ++ List.replicate m 0 =
          List.replicate (n + 1) slash ++ slash :: List.replicate m 0 := by
        rw [List.replicate_succ', List.append_assoc]
        rfl
      rw [hlist, trimSlashes_step List.length_replicate, ← List.replicate_succ, ih, Nat.add_assoc,
        Nat.add_comm m]

section Split

variable {p d b : List UInt8} {n : Nat}

theorem strlen_string (h0 : 0 ∉ p) : strlen (p ++ [0]) 0 = p.length := by
  have h := @cstr_append p [] [] h0
  rw [List.nil_append, List.length_nil] at h
  rw [strlen, h]

theorem first_ne_zero (h0 : 0 ∉ p) (hne : p ≠ []) : byteAt (p ++ [0]) 0 ≠ 0 := by
  obtain ⟨c, q, rfl⟩ := List.exists_cons_of_ne_nil hne
  exact fun hc : c = 0 => h0 (hc ▸ List.mem_cons_self)

/-- The part ends with a character that is no slash. -/
theorem Parts.last (h : Parts p d b n) : ∃ w c, b = w ++ [c] ∧ c ≠ slash := by
  refine ⟨_, _, (List.dropLast_append_getLast h.nonempty).symm, ?_⟩
  exact fun hc => h.part (hc ▸ List.getLast_mem h.nonempty)

/-- What is left of a path. -/
theorem Parts.trim (h : Parts p d b n) :
    trimSlashes 0 (p.length - 1) (p ++ [0]) =
      (some (d.length + b.length - 1), d ++ (b ++ List.replicate (n + 1) 0)) := by
  obtain ⟨w, c, rfl, hc⟩ := h.last
  have htrim := trimSlashes_trailing (w := d ++ w) hc n 1
  have hk : (d ++ w).length + n = p.length - 1 := by
    rw [h.path]
    simp only [List.length_append, List.length_replicate, List.length_singleton]
    omega
  have hlen : (d ++ w).length = d.length + (w ++ [c]).length - 1 := by
    simp only [List.length_append, List.length_singleton]
    omega
  have hlist : p ++ [0] = (d ++ w) ++ c :: (List.replicate n slash ++ List.replicate 1 0) := by
    rw [h.path]
    simp [List.append_assoc]
  rw [← hlist, hk, hlen] at htrim
  rw [htrim]
  simp [List.append_assoc]

/-- The last slash of what is left. -/
theorem Parts.lastSlash_eq (h : Parts p d b n) (z : List UInt8) :
    lastSlash (d ++ (b ++ z)) 0 (d.length + b.length - 1) =
      if d = [] then none else some (d.length - 1) := by
  have hb := List.length_pos_iff.mpr h.nonempty
  have hafter : ∀ i, d.length ≤ i → i ≤ d.length + b.length - 1 →
      byteAt (d ++ (b ++ z)) (0 + i) ≠ slash := by
    intro i hlo hhi hs
    obtain ⟨j, rfl⟩ := Nat.exists_eq_add_of_le hlo
    have hj : j < b.length := by omega
    rw [Nat.zero_add, byteAt_append, byteAt_append_left hj] at hs
    exact h.part (hs ▸ List.getElem_mem hj)
  obtain rfl | ⟨e, rfl⟩ := h.before
  · rw [if_pos rfl]
    exact lastSlash_eq_none fun i hi => hafter i (Nat.zero_le i) hi
  · have hlen : (e ++ [slash]).length - 1 = e.length := by simp
    have hlast : byteAt ((e ++ [slash]) ++ (b ++ z)) (0 + e.length) = slash := by
      rw [Nat.zero_add, List.append_assoc, ← Nat.add_zero e.length, byteAt_append]
      rfl
    rw [if_neg (by simp), hlen]
    refine lastSlash_eq_some ?_ hlast fun i hlo hhi => hafter i ?_ hhi
    · rw [List.length_append, List.length_singleton]
      omega
    · rw [List.length_append, List.length_singleton]
      omega

theorem Parts.ne_nil (h : Parts p d b n) : p ≠ [] := by
  rw [h.path]
  simp [h.nonempty]

theorem Parts.dirname_eq (h : Parts p d b n) (h0 : 0 ∉ p) :
    dirname (p ++ [0]) 0 =
      if d = [] then (.lit [dot], b ++ List.replicate (n + 1) 0)
      else if d = [slash] then (.lit [slash], slash :: (b ++ List.replicate (n + 1) 0))
      else (.ptr 0, d.dropLast ++ 0 :: (b ++ List.replicate (n + 1) 0)) := by
  rw [dirname, if_neg (first_ne_zero h0 h.ne_nil), strlen_string h0, h.trim]
  simp only [h.lastSlash_eq]
  obtain rfl | ⟨e, rfl⟩ := h.before
  · rfl
  · cases e with
    | nil => rfl
    | cons c e =>
        rw [List.dropLast_concat]
        simp [List.set_append_right]

theorem Parts.basename_eq (h : Parts p d b n) (h0 : 0 ∉ p) :
    basename (p ++ [0]) 0 = (.ptr d.length, d ++ (b ++ List.replicate (n + 1) 0)) := by
  rw [basename, if_neg (first_ne_zero h0 h.ne_nil), strlen_string h0, h.trim]
  simp only [h.lastSlash_eq]
  obtain rfl | ⟨e, rfl⟩ := h.before
  · rfl
  · simp

end Split

/-! ## What the functions return -/

/-- A string of slashes only is left as one slash. -/
theorem slashes_eq {p : List UInt8} (hne : p ≠ []) (h : ∀ c ∈ p, c = slash) :
    dirname (p ++ [0]) 0 = (.ptr 0, slash :: List.replicate p.length 0) ∧
      basename (p ++ [0]) 0 = (.ptr 0, slash :: List.replicate p.length 0) := by
  have hp := List.eq_replicate_iff.mpr ⟨rfl, h⟩
  obtain ⟨n, hn⟩ := Nat.exists_eq_succ_of_ne_zero (List.length_pos_iff.mpr hne).ne'
  have h0 : 0 ∉ p := fun h0 => absurd (h 0 h0) (by decide)
  have htrim := trimSlashes_slashes n 1
  rw [hn] at hp
  rw [← hp] at htrim
  rw [dirname, basename, if_neg (first_ne_zero h0 hne), if_neg (first_ne_zero h0 hne),
    strlen_string h0, hn, Nat.succ_sub_one]
  simp only [List.replicate_one] at htrim
  rw [htrim]
  exact ⟨rfl, rfl⟩

theorem Parts.trimmed_eq {p d b : List UInt8} {n : Nat} (h : Parts p d b n) :
    trimmed p = d ++ b := by
  obtain ⟨w, c, rfl, hc⟩ := h.last
  have hslashes : ∀ n, ((d ++ w ++ [c]) ++ List.replicate n slash).rdropWhile (· = slash) =
      d ++ w ++ [c] := by
    intro n
    induction n with
    | zero =>
        rw [List.replicate_zero, List.append_nil]
        exact List.rdropWhile_concat_neg _ _ _ (by simpa using hc)
    | succ n ih =>
        rw [List.replicate_succ', ← List.append_assoc]
        exact (List.rdropWhile_concat_pos _ _ _ (by simp)).trans ih
  have hn := hslashes n
  rw [trimmed, h.path]
  simpa [List.append_assoc] using hn

/-- The strings that `dirname` and `basename` give for a path are `.` or the rest, and the
last part. -/
theorem Parts.strings {p d b : List UInt8} {n : Nat} (h : Parts p d b n) (h0 : 0 ∉ p) :
    (dirname (p ++ [0]) 0).1.str (dirname (p ++ [0]) 0).2 =
        (if d = [] then [dot] else if d = [slash] then [slash] else d.dropLast) ∧
      (basename (p ++ [0]) 0).1.str (basename (p ++ [0]) 0).2 = b := by
  have hd0 : 0 ∉ d := fun hd => h0 (h.path ▸ List.mem_append_left _ hd)
  have hb0 : 0 ∉ b := fun hb => h0 (h.path ▸ List.mem_append_right _ (List.mem_append_left _ hb))
  rw [h.dirname_eq h0, h.basename_eq h0]
  constructor
  · split
    · rfl
    · split
      · rfl
      · exact cstr_append [] fun hd => hd0 (List.dropLast_subset d hd)
  · exact cstr_append d hb0

/-- A path is its directory, a slash and its name, up to slashes. -/
theorem Parts.join {p d b : List UInt8} {n : Nat} (h : Parts p d b n) (hd : d ≠ []) :
    collapse (trimmed ((if d = [slash] then [slash] else d.dropLast) ++ slash :: b)) =
      collapse (trimmed p) := by
  obtain ⟨e, rfl⟩ := h.before.resolve_left hd
  rw [h.trimmed_eq]
  have hparts : ∀ e', Parts (e' ++ slash :: b) (e' ++ [slash]) b 0 := fun e' =>
    ⟨by simp, h.nonempty, h.part, Or.inr ⟨e', rfl⟩⟩
  rw [(hparts _).trimmed_eq]
  cases e with
  | nil =>
      -- the directory is the slash in front
      simp [collapse]
  | cons c e =>
      rw [if_neg (by simp), List.dropLast_concat, List.append_cons]

/-- `basename` and `dirname` split a path, and neither reads or writes outside the string
and its NUL. -/
theorem splitPath (p : CStr) (hne : p.1 ≠ []) :
    ∃ dir bufD base bufB, dirnameIn p.bytes = some (dir, bufD) ∧
      basenameIn p.bytes = some (base, bufB) ∧
      ((∀ c ∈ p.1, c = slash) → dir.str bufD = [slash] ∧ base.str bufB = [slash]) ∧
      ((∃ c ∈ p.1, c ≠ slash) → LastPart p.1 (base.str bufB) ∧
        (slash ∉ trimmed p.1 → dir.str bufD = [dot]) ∧
        (slash ∈ trimmed p.1 →
          collapse (trimmed (dir.str bufD ++ slash :: base.str bufB)) =
            collapse (trimmed p.1))) := by
  have hnul : 0 ∈ p.bytes := List.mem_append_right _ List.mem_cons_self
  refine ⟨(dirname p.bytes 0).1, (dirname p.bytes 0).2, (basename p.bytes 0).1,
    (basename p.bytes 0).2, dirnameIn_eq hnul, basenameIn_eq hnul, fun hall => ?_,
    fun hsome => ?_⟩
  · obtain ⟨hdir, hbase⟩ := slashes_eq hne hall
    obtain ⟨n, hn⟩ := Nat.exists_eq_succ_of_ne_zero (List.length_pos_iff.mpr hne).ne'
    rw [CStr.bytes, hdir, hbase, hn, List.replicate_succ]
    exact ⟨cstr_append (s := [slash]) [] (by decide), cstr_append (s := [slash]) [] (by decide)⟩
  · obtain ⟨d, b, n, hparts⟩ := exists_split hsome
    obtain ⟨hdir, hbase⟩ := hparts.strings p.2
    rw [CStr.bytes, hdir, hbase, hparts.trimmed_eq]
    refine ⟨⟨d, n, hparts⟩, fun hs => ?_, fun hs => ?_⟩
    · obtain rfl | ⟨e, rfl⟩ := hparts.before
      · rfl
      · exact absurd (by simp) hs
    · have hd : d ≠ [] := by
        rintro rfl
        exact hparts.part hs
      rw [if_neg hd, ← hparts.trimmed_eq]
      exact hparts.join hd

/-- `//usr//lib/` is split into `//usr/` and `lib`. -/
theorem splitPath_lib :
    let p : CStr := ⟨[47, 47, 117, 115, 114, 47, 47, 108, 105, 98, 47], by decide⟩
    ∃ dir bufD base bufB, dirnameIn p.bytes = some (dir, bufD) ∧
      basenameIn p.bytes = some (base, bufB) ∧
      ((∀ c ∈ p.1, c = slash) → dir.str bufD = [slash] ∧ base.str bufB = [slash]) ∧
      ((∃ c ∈ p.1, c ≠ slash) → LastPart p.1 (base.str bufB) ∧
        (slash ∉ trimmed p.1 → dir.str bufD = [dot]) ∧
        (slash ∈ trimmed p.1 →
          collapse (trimmed (dir.str bufD ++ slash :: base.str bufB)) =
            collapse (trimmed p.1))) :=
  splitPath _ (by decide)

end StardustOS.Libc
