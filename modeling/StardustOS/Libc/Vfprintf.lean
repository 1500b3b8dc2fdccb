import StardustOS.Errno
import StardustOS.Libc.Rendering

/-!
# `vfprintf`

`vfprintf` takes the result of `vsnprintf`, for a buffer of one byte, for the length of the
text, allocates as much, formats again and writes as much.

That result is one less than the length (`vsnprintf_ret`), so the last character is not
written (`vfprintf_passes`), and of an empty text the negative result is returned.
-/

namespace StardustOS.Libc

/-- `FILE`, less the fields that `vfprintf` does not use. -/
structure File where
  /-- NULL, or the result of a call. -/
  write : Option (List UInt8 → Int)
  offset : Nat

/-- What a call of `vfprintf` leaves: the bytes that it passed to `write`, the offset of the
stream, `errno` if it was set, and its result. -/
structure Written where
  passed : Option (List UInt8)
  offset : Nat
  errno : Option Int
  ret : Int

/-- `vfprintf`, with the memory from `tmp` on, and that of the block if `malloc` has one. -/
def vfprintf (stream : Option File) (format : List UInt8) (ap : List Arg) (tmp : Nat → UInt8)
    (block : Option (Nat → UInt8)) : Option Written :=
  match stream with
  | none => some ⟨none, 0, some EINVAL, -1⟩
  | some file =>
      match file.write with
      | none => some ⟨none, file.offset, some ENOSYS, -1⟩
      | some write => do
          let r := (← vsnprintf32 tmp 1 format ap).ret
          if r < 0 then some ⟨none, file.offset, none, r⟩
          else
            match block with
            | none => some ⟨none, file.offset, none, r⟩
            | some mem =>
                let str := (← vsnprintf32 mem r.toNat format ap).mem
                let buff := (List.range r.toNat).map str
                let r := write buff
                some ⟨some buff, if r > 0 then file.offset + r.toNat else file.offset, none, r⟩

/-! ## What is written -/

variable {format : List UInt8} {ap : List Arg} {s : List UInt8}

/-- The result is one less than the length of the text, for every size. -/
theorem vsnprintf_ret {size : Nat} {mem : Nat → UInt8} {p : Printed}
    (hs : rendering format ap = some s) (h : vsnprintf32 mem size format ap = some p) :
    p.ret = (s.length : Int) - 1 := by
  have hint : s.length < 2147483648 := by
    by_contra hint
    rw [vsnprintf32_none hs hint] at h
    cases h
  obtain ⟨o, ap', -, hret⟩ := vsnprintf32_some hs hint size mem
  rw [hret] at h
  cases h
  rfl

/-- An empty text is not written. -/
theorem vfprintf_empty (hs : rendering format ap = some []) (file : File)
    (hwrite : file.write.isSome) (tmp : Nat → UInt8) (block : Option (Nat → UInt8)) :
    vfprintf (some file) format ap tmp block = some ⟨none, file.offset, none, -1⟩ := by
  obtain ⟨write, hw⟩ := Option.isSome_iff_exists.mp hwrite
  obtain ⟨o, ap', -, hret⟩ := vsnprintf32_some hs (by decide) 1 tmp
  simp [vfprintf, hw, hret]

/-- What is written is the text without its last character. -/
theorem vfprintf_passes (hs : rendering format ap = some s) (hne : s ≠ [])
    (hint : s.length < 2147483648) (file : File) (hwrite : file.write.isSome)
    (tmp mem : Nat → UInt8) :
    ∃ w, vfprintf (some file) format ap tmp (some mem) = some w ∧ w.passed = some s.dropLast := by
  have hlength : 0 < s.length := List.length_pos_of_ne_nil hne
  obtain ⟨write, hwrite⟩ := Option.isSome_iff_exists.mp hwrite
  obtain ⟨o, ap', -, hprobe⟩ := vsnprintf32_some hs hint 1 tmp
  obtain ⟨o', ap'', hshows, hret⟩ := vsnprintf32_some hs hint (s.length - 1) mem
  have hr : ¬ (s.length : Int) - 1 < 0 := by omega
  have hnat : ((s.length : Int) - 1).toNat = s.length - 1 := by omega
  have hbuff : (List.range (s.length - 1)).map (setByte o'.mem s.length 0) = s.dropLast := by
    refine List.ext_getElem (by simp) ?_
    intro j hj _
    rw [List.length_map, List.length_range] at hj
    rw [List.getElem_map, List.getElem_range, List.getElem_dropLast]
    rw [show setByte o'.mem s.length 0 j = o'.mem j from if_neg (by omega),
      hshows.text j (by omega) (by omega), List.getD_eq_getElem]
  simp only [vfprintf, hwrite, hprobe, Option.bind_eq_bind, Option.bind_some, hr, if_false, hnat,
    hret, hbuff]
  exact ⟨_, rfl, rfl⟩

end StardustOS.Libc
