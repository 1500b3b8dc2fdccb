import StardustOS.Libc.Vfprintf
import StardustOS.Log.Klog

/-!
# Measured and printed lengths

`vfprintf` and `printk` rely on the result of `vsnprintf`.  It should be the length of the
text, but is one less.  So `vfprintf` writes no text in full, and `printk`, which returns
when the result is negative, drops a message that is empty (`lengths_never`).
-/

namespace StardustOS.Log

open Libc

/-- For every size the result is the length of the text, and where the text fits it is
stored with a NUL behind it. -/
def Measures (format : List UInt8) (ap : List Arg) : Prop :=
  ∀ size, 1 ≤ size → ∀ mem, ∃ s p, rendering format ap = some s ∧
    vsnprintf32 mem size format ap = some p ∧ p.ret = s.length ∧
    (s.length < size → (∀ j < s.length, p.mem j = s.getD j 0) ∧ p.mem s.length = 0)

/-- When there is memory, `vfprintf` passes the text to the stream. -/
def Passes (format : List UInt8) (ap : List Arg) : Prop :=
  ∀ file : File, file.write.isSome → ∀ tmp mem, ∃ s w, rendering format ap = some s ∧
    vfprintf (some file) format ap tmp (some mem) = some w ∧ w.passed = some s

/-- `printk` hands the message to the terminal. -/
def Prints (format : List UInt8) (ap : List Arg) : Prop :=
  ∀ size k stack time, ∃ out, printk size ⟨format, ap, stack, time, true⟩ k = some out ∧
    out.2.2 ≠ []

variable {format : List UInt8} {ap : List Arg}

theorem not_measures : ¬ Measures format ap := by
  intro h
  obtain ⟨s, p, hs, hp, hret, -⟩ := h 1 le_rfl fun _ => 0
  have hless := vsnprintf_ret hs hp
  omega

theorem not_passes : ¬ Passes format ap := by
  intro h
  obtain ⟨s, w, hs, hw, hpassed⟩ := h ⟨some fun _ => 0, 0⟩ rfl (fun _ => 0) fun _ => 0
  by_cases hne : s = []
  · subst hne
    rw [vfprintf_empty hs _ rfl] at hw
    cases hw
    cases hpassed
  · have hint : s.length < 2147483648 := by
      by_contra hint
      simp [vfprintf, vsnprintf32_none hs hint] at hw
    obtain ⟨w', hw', hpassed'⟩ := vfprintf_passes hs hne hint ⟨some fun _ => 0, 0⟩ rfl
      (fun _ => 0) fun _ => 0
    obtain rfl := Option.some.inj (hw.symm.trans hw')
    have hlength := congrArg List.length (Option.some.inj (hpassed.symm.trans hpassed'))
    have hpos := List.length_pos_of_ne_nil hne
    rw [List.length_dropLast] at hlength
    omega

theorem not_prints (h : rendering format ap = some []) : ¬ Prints format ap := by
  intro hprints
  obtain ⟨out, hout, hne⟩ := hprints 1000 ⟨fun _ => 0, 0⟩ (fun _ => 0) 0
  let m : Message :=
    { format := format, ap := ap, stack := fun _ => 0, time := 0, tty := true, text := [],
      body := [], rendered := h, short := by decide, body_eq := rfl }
  have hempty : printk 1000 m.toCall ⟨fun _ => 0, 0⟩ = _ := printk_empty rfl
  obtain rfl := Option.some.inj (hout.symm.trans hempty)
  exact hne rfl

/-- Of no format is the length measured or the text written, and an empty message is not
printed. -/
theorem lengths_never (format : List UInt8) (ap : List Arg) :
    ¬ Measures format ap ∧ ¬ Passes format ap ∧
      ¬ (rendering format ap = some [] ∧ Prints format ap) :=
  ⟨not_measures, not_passes, fun h => not_prints h.1 h.2⟩

/-- Of `hi` the length is taken for 1, and only `h` is written. -/
theorem hi_cut :
    (∀ tmp mem, ∃ w, vfprintf (some ⟨some fun _ => 0, 0⟩) (asciiText "hi".toList) [] tmp
        (some mem) = some w ∧ w.passed = some (asciiText ['h'])) ∧
      ¬ Measures (asciiText "hi".toList) [] ∧ ¬ Passes (asciiText "hi".toList) [] := by
  have hs : rendering (asciiText "hi".toList) [] = some (asciiText "hi".toList) := rfl
  refine ⟨?_, not_measures, not_passes⟩
  intro tmp mem
  exact vfprintf_passes hs (by decide) (by decide) ⟨some fun _ => 0, 0⟩ rfl tmp mem

end StardustOS.Log
