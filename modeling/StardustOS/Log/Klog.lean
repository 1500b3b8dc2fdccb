import Mathlib.Data.Nat.Digits.Lemmas
import StardustOS.Libc.Rendering

/-!
# The kernel log

`printk` formats a message into a buffer of 512 bytes, and `print` adds it to `klog_buffer`
behind a header with the time since boot, and gives both to a terminal.

The memory is that from `klog_buffer` on.  `print` begins again at the start of the buffer
when a message does not fit, but it stores a second NUL the length of the header and the
text behind the start of the text, that is 15 bytes too far (`print_eq`).  So a call keeps
to the buffer exactly when the message ends more than 15 bytes before the end of it
(`logRight_iff`), and a sequence of calls when each does (`keepsLog_iff`).
-/

namespace StardustOS.Log

open Libc

/-! ## The source -/

/-- `TIME_STRLEN`. -/
def TIME_STRLEN : Nat := 12

/-- `KLOG_SOH_ASCII`. -/
def KLOG_SOH_ASCII : UInt8 := 1

/-- The memory from `klog_buffer` on, and `klog_pos`. -/
structure Klog where
  mem : Nat → UInt8
  pos : Nat

/-- `snprintf` to the memory from the index `p` on. -/
def snprintf (mem : Nat → UInt8) (p size : Nat) (format : List UInt8) (ap : List Arg) :
    Option (Nat → UInt8) :=
  (vsnprintf32 (fun j => mem (p + j)) size format ap).map fun r =>
    fun i => if i < p then mem i else r.mem (i - p)

/-- The string without its level prefix.  One that ends within the prefix is undefined. -/
def body : List UInt8 → Option (List UInt8)
  | [] => some []
  | c :: rest =>
      if c = KLOG_SOH_ASCII then
        match rest with
        | [] => none
        | _ :: rest => some rest
      else some (c :: rest)

/-- `print`, in a buffer of `size` bytes, with the time that `boottime` returns and what is
written to the terminal, if there is one. -/
def print (size : Nat) (time : UInt32) (tty : Bool) (str : List UInt8) (inmsg : Bool) (k : Klog) :
    Option (Nat × Klog × List (List UInt8)) := do
  let str ← body str
  let freesize := size - k.pos
  let len := if inmsg then str.length else str.length + (TIME_STRLEN + 3)
  let pos := if freesize < len then 0 else k.pos
  let (buff, mem) ←
    if inmsg then some (pos + 1, k.mem)
    else do
      let buff := pos
      let mem := setByte k.mem buff (ascii '[')
      let mem := store mem (buff + 1) (List.replicate TIME_STRLEN (ascii ' '))
      let mem ← snprintf mem (buff + 1) TIME_STRLEN (asciiText ['%', 'd']) [.word time]
      let buff := buff + (1 + TIME_STRLEN)
      let mem := setByte mem buff (ascii ']')
      let mem := setByte mem (buff + 1) (ascii ' ')
      some (buff + 2, mem)
  let mem := store mem buff (str ++ [0])
  let mem := setByte mem (buff + len) 0
  let buff := (List.range len).map fun i => mem (pos + i)
  let written :=
    if tty then buff :: (if mem (pos + (len - 1)) = ascii '\n' then [[ascii '\r']] else []) else []
  some (len, ⟨mem, pos + len⟩, written)

/-- A call of `printk`: its arguments, the memory where its buffer is, the time and
whether there is a terminal. -/
structure Call where
  format : List UInt8
  ap : List Arg
  stack : Nat → UInt8
  time : UInt32
  tty : Bool

/-- `printk`.  A buffer without a NUL is undefined. -/
def printk (size : Nat) (c : Call) (k : Klog) : Option (Int × Klog × List (List UInt8)) := do
  let p ← vsnprintf32 c.stack 512 c.format c.ap
  if p.ret < 0 then some (p.ret, k, [])
  else
    let buff := (List.range 512).map p.mem
    if 0 ∈ buff then
      (print size c.time c.tty (cstr buff 0) false k).map fun (len, k, written) => (len, k, written)
    else none

/-! ## Messages -/

/-- A call with a text that is shorter than 512 characters.  Behind a NUL in it, such as `%f`
gives, nothing is printed, and what is in front is not cut within the level prefix. -/
structure Message extends Call where
  text : List UInt8
  body : List UInt8
  rendered : rendering format ap = some text
  short : text.length < 512
  body_eq : Log.body (cstr text 0) = some body

/-- The header: the time in a field of twelve characters, with the NUL behind its digits. -/
def header (time : UInt32) : List UInt8 :=
  ascii '[' :: (signedText time.toInt32.toInt ++
    0 :: List.replicate (11 - (signedText time.toInt32.toInt).length) (ascii ' ')) ++
    [ascii ']', ascii ' ']

/-- A call keeps to the buffer, with the position in it too, and hands the header and the
text to the terminal.  An empty text is not printed. -/
def LogRight (size : Nat) (m : Message) (k : Klog) (out : Int × Klog × List (List UInt8)) : Prop :=
  (∀ j, size ≤ j → out.2.1.mem j = k.mem j) ∧ out.2.1.pos ≤ size ∧
    (m.text ≠ [] → m.tty = true → out.2.2.head? = some (header m.time ++ m.body))

/-- All calls do. -/
def KeepsLog (size : Nat) : List Message → Klog → Prop
  | [], _ => True
  | m :: ms, k => ∃ out, printk size m.toCall k = some out ∧ LogRight size m k out ∧
      KeepsLog size ms out.2.1

/-- Where a message of `n` bytes with its header begins. -/
def start (size n pos : Nat) : Nat := if size - pos < n then 0 else pos

namespace Message

variable (size : Nat) (m : Message)

/-- The length of the message with its header. -/
def len : Nat := m.body.length + 15

/-- The position after the call. -/
def next (pos : Nat) : Nat := if m.text = [] then pos else start size m.len pos + m.len

/-- The message is empty, or does not fit, or ends more than 15 bytes before the end. -/
def Fits (pos : Nat) : Prop := m.text = [] ∨ size < pos + m.len ∨ pos + m.len + 15 < size

end Message

/-- All messages do, each at the position that those before it lead to. -/
def Room (size : Nat) : List Message → Nat → Prop
  | [], _ => True
  | m :: ms, pos => m.Fits size pos ∧ Room size ms (m.next size pos)

/-! ## The header -/

/-- What is stored over a part of the same length takes its place. -/
theorem store_overwrite (mem : Nat → UInt8) (i : Nat) {u w : List UInt8} (v : List UInt8)
    (h : u.length = w.length) : store (store mem i (u ++ v)) i w = store mem i (w ++ v) := by
  funext j
  rw [store_apply, store_apply, store_apply]
  by_cases hij : i ≤ j
  · simp only [if_pos hij]
    by_cases hw : j - i < w.length
    · rw [List.getD_append _ _ _ _ hw, List.getD_eq_getElem _ _ hw, List.getD_eq_getElem _ _ hw]
    · rw [List.getD_eq_default _ _ (by omega), List.getD_append_right _ _ _ _ (by omega),
        List.getD_append_right _ _ _ _ (by omega), h]
  · simp only [if_neg hij]

theorem length_signedText (i : Int32) : (signedText i.toInt).length ≤ 11 := by
  have hle := i.toInt_lt
  have hge := i.le_toInt
  have hdigits : (unsignedText 10 i.toInt.natAbs).length ≤ 10 := by
    rw [unsignedText, List.length_map, numeral]
    split
    · simp
    · rw [List.length_reverse]
      refine (Nat.digits_length_le_iff (by omega) _).mpr ?_
      omega
  rw [signedText]
  split
  · rw [List.length_cons]
    omega
  · omega

/-- The time with a NUL fits into its field. -/
theorem snprintf_time (mem : Nat → UInt8) (p : Nat) (time : UInt32) :
    snprintf mem p TIME_STRLEN (asciiText ['%', 'd']) [.word time] =
      some (store mem p (signedText time.toInt32.toInt ++ [0])) := by
  have hlength := length_signedText time.toInt32
  have hs : rendering (asciiText ['%', 'd']) [.word time] =
      some (signedText time.toInt32.toInt ++ []) := rfl
  rw [List.append_nil] at hs
  obtain ⟨o, ap', hshows, hret⟩ := vsnprintf32_some hs (by omega) TIME_STRLEN fun j => mem (p + j)
  rw [snprintf, hret, Option.map_some, Option.some.injEq]
  funext j
  rw [store_apply]
  by_cases hj : p ≤ j
  · rw [if_pos hj, if_neg (by omega)]
    by_cases hlt : j - p < (signedText time.toInt32.toInt).length
    · rw [List.getD_append _ _ _ _ hlt, List.getD_eq_getElem _ _ hlt]
      have htext := hshows.text (j - p) hlt (show j - p < 12 by omega)
      rw [List.getD_eq_getElem _ _ hlt] at htext
      exact (if_neg (by omega)).trans htext
    · rw [List.getD_append_right _ _ _ _ (by omega)]
      by_cases hnul : j - p = (signedText time.toInt32.toInt).length
      · rw [hnul, Nat.sub_self]
        exact if_pos rfl
      · rw [List.getD_eq_default _ _ (by rw [List.length_singleton]; omega)]
        have hrest := hshows.rest (j - p) (by omega)
        rw [show p + (j - p) = j by omega] at hrest
        exact (if_neg hnul).trans hrest
  · rw [if_neg hj, if_pos (by omega)]

theorem length_header (time : UInt32) : (header time).length = 15 := by
  have hlength := length_signedText time.toInt32
  simp only [header, List.length_cons, List.length_append, List.length_replicate, List.length_nil]
  omega

/-- The header is stored: a bracket, twelve blanks that the time is stored over, and the
rest. -/
theorem store_header (mem : Nat → UInt8) (pos : Nat) (time : UInt32) :
    setByte (setByte (store (store (setByte mem pos (ascii '[')) (pos + 1)
      (List.replicate TIME_STRLEN (ascii ' '))) (pos + 1) (signedText time.toInt32.toInt ++ [0]))
      (pos + (1 + TIME_STRLEN)) (ascii ']')) (pos + (1 + TIME_STRLEN) + 1) (ascii ' ') =
      store mem pos (header time) := by
  have hlength := length_signedText time.toInt32
  have hblanks : List.replicate TIME_STRLEN (ascii ' ') =
      List.replicate ((signedText time.toInt32.toInt).length + 1) (ascii ' ') ++
        List.replicate (11 - (signedText time.toInt32.toInt).length) (ascii ' ') := by
    rw [List.replicate_append_replicate]
    congr 1
    show 12 = _
    omega
  have hfield : (signedText time.toInt32.toInt ++ [0] ++
      List.replicate (11 - (signedText time.toInt32.toInt).length) (ascii ' ')).length =
        TIME_STRLEN := by
    simp only [List.length_append, List.length_singleton, List.length_replicate, TIME_STRLEN]
    omega
  have hheader : header time = ascii '[' :: (signedText time.toInt32.toInt ++ [0] ++
      List.replicate (11 - (signedText time.toInt32.toInt).length) (ascii ' ') ++
        [ascii ']', ascii ' ']) := by simp [header]
  have hrest : ∀ field : List UInt8, field.length = TIME_STRLEN →
      setByte (setByte (store (setByte mem pos (ascii '[')) (pos + 1) field)
        (pos + (1 + TIME_STRLEN)) (ascii ']')) (pos + (1 + TIME_STRLEN) + 1) (ascii ' ') =
        store mem pos (ascii '[' :: (field ++ [ascii ']', ascii ' '])) := by
    intro field hlen
    rw [store, store_append, hlen]
    rfl
  rw [hblanks, store_overwrite _ _ _ (by simp), hheader]
  exact hrest _ hfield

/-! ## A call -/

section Call

variable {size : Nat} {k : Klog}

/-- The memory with a message: its header and text, and two NULs, one behind it and one 15
bytes further. -/
def stored (mem : Nat → UInt8) (pos : Nat) (time : UInt32) (b : List UInt8) : Nat → UInt8 :=
  setByte (store mem pos (header time ++ b ++ [0])) (pos + 15 + (b.length + 15)) 0

theorem stored_message (mem : Nat → UInt8) (pos : Nat) (time : UInt32) (b : List UInt8) :
    ((List.range (b.length + 15)).map fun i => stored mem pos time b (pos + i)) =
      header time ++ b := by
  have hlength : (header time ++ b).length = b.length + 15 := by
    rw [List.length_append, length_header, Nat.add_comm]
  refine List.ext_getElem (by simp [hlength]) ?_
  intro i hi hi'
  have hset : stored mem pos time b (pos + i) =
      store mem pos (header time ++ b ++ [0]) (pos + i) := if_neg (by omega)
  rw [List.getElem_map, List.getElem_range, hset, store_apply, if_pos (Nat.le_add_right pos i),
    Nat.add_sub_cancel_left, List.getD_append _ _ _ _ hi', List.getD_eq_getElem]

/-- Nothing else changes. -/
theorem stored_of_le {pos : Nat} {b : List UInt8} {j : Nat} (mem : Nat → UInt8) (time : UInt32)
    (hj : pos + 15 + (b.length + 15) < j) : stored mem pos time b j = mem j := by
  have hlength : (header time ++ b ++ [0]).length = 16 + b.length := by
    rw [List.length_append, List.length_append, length_header, List.length_singleton]
    omega
  refine (if_neg (by omega)).trans ?_
  rw [store_apply, List.getD_eq_default _ _ (by omega), ite_self]

theorem stored_self (mem : Nat → UInt8) (pos : Nat) (time : UInt32) (b : List UInt8) :
    stored mem pos time b (pos + 15 + (b.length + 15)) = 0 := if_pos rfl

/-- The message is stored, and handed to the terminal. -/
theorem print_eq (size : Nat) (k : Klog) {str b : List UInt8} (hb : body str = some b)
    (time : UInt32) (tty : Bool) : ∃ rest, print size time tty str false k =
      some (b.length + 15,
        ⟨stored k.mem (start size (b.length + 15) k.pos) time b,
          start size (b.length + 15) k.pos + (b.length + 15)⟩,
        if tty then (header time ++ b) :: rest else []) := by
  have hstart : (if size - k.pos < b.length + (TIME_STRLEN + 3) then 0 else k.pos) =
      start size (b.length + 15) k.pos := rfl
  simp only [print, hb, Option.bind_eq_bind, Option.bind_some, Bool.false_eq_true, if_false, hstart,
    snprintf_time, store_header]
  generalize start size (b.length + 15) k.pos = pos
  have hmem :
      setByte (store (store k.mem pos (header time)) (pos + (1 + TIME_STRLEN) + 2) (b ++ [0]))
        (pos + (1 + TIME_STRLEN) + 2 + (b.length + (TIME_STRLEN + 3))) 0 =
      stored k.mem pos time b := by
    rw [stored, List.append_assoc, store_append _ _ (header time), length_header]
    rfl
  have hlen : b.length + (TIME_STRLEN + 3) = b.length + 15 := rfl
  rw [hmem, hlen, stored_message]
  exact ⟨_, rfl⟩

theorem cstr_nul (s rest : List UInt8) : cstr (s ++ 0 :: rest) 0 = cstr s 0 := by
  rw [cstr, cstr, List.drop_zero, List.drop_zero]
  induction s with
  | nil => rfl
  | cons c s ih => rw [List.cons_append, List.takeWhile_cons, List.takeWhile_cons, ih]

/-- A buffer that begins with a text and a NUL holds the string of the text. -/
theorem cstr_buffer (mem : Nat → UInt8) {s : List UInt8} {n : Nat} (hn : s.length < n)
    (htext : ∀ j < s.length, mem j = s.getD j 0) (hnul : mem s.length = 0) :
    0 ∈ (List.range n).map mem ∧ cstr ((List.range n).map mem) 0 = cstr s 0 := by
  have hbuff : (List.range n).map mem =
      s ++ 0 :: (List.range (n - (s.length + 1))).map fun i => mem (s.length + 1 + i) := by
    refine List.ext_getElem (by simp; omega) ?_
    intro i hi _
    rw [List.length_map, List.length_range] at hi
    rw [List.getElem_map, List.getElem_range, List.getElem_append]
    split
    · rename_i hlt
      rw [htext i hlt, List.getD_eq_getElem _ _ hlt]
    · rename_i hge
      by_cases heq : i = s.length
      · subst heq
        simpa using hnul
      · rw [List.getElem_cons, dif_neg (by omega), List.getElem_map, List.getElem_range]
        congr 1
        omega
  rw [hbuff]
  exact ⟨List.mem_append_right _ List.mem_cons_self, cstr_nul s _⟩

/-- An empty text is not printed. -/
theorem printk_empty {m : Message} (h : m.text = []) :
    printk size m.toCall k = some (-1, k, []) := by
  have hs := m.rendered
  rw [h] at hs
  obtain ⟨o, ap', -, hret⟩ := vsnprintf32_some hs (by decide) 512 m.stack
  simp [printk, hret]

/-- Any other is printed. -/
theorem printk_eq {m : Message} (h : m.text ≠ []) : printk size m.toCall k =
    (print size m.time m.tty (cstr m.text 0) false k).map fun (len, k, written) =>
      (len, k, written) := by
  have hlength := List.length_pos_of_ne_nil h
  have hshort := m.short
  obtain ⟨o, ap', hshows, hret⟩ := vsnprintf32_some m.rendered (by omega) 512 m.stack
  obtain ⟨hnul, hcstr⟩ := cstr_buffer (setByte o.mem m.text.length 0) hshort
    (fun j hj => (if_neg (by omega)).trans (hshows.text j hj (by omega))) (if_pos rfl)
  have hr : ¬ (m.text.length : Int) - 1 < 0 := by omega
  simp only [printk, hret, Option.bind_eq_bind, Option.bind_some, hr, if_false, hnul, if_true,
    hcstr]

theorem length_body_le {s b : List UInt8} (h : body s = some b) : b.length ≤ s.length := by
  cases s with
  | nil =>
      cases h
      exact Nat.le_refl 0
  | cons c rest =>
      simp only [body] at h
      split at h
      · cases rest with
        | nil => cases h
        | cons d rest =>
            cases h
            simp only [List.length_cons]
            omega
      · cases h
        exact Nat.le_refl _

theorem Message.len_lt (m : Message) : m.len < 527 := by
  have hle : m.body.length ≤ m.text.length :=
    (length_body_le m.body_eq).trans (List.takeWhile_prefix _).length_le
  have hshort := m.short
  rw [Message.len]
  omega

/-- What a call does. -/
theorem printk_spec (size : Nat) (m : Message) (k : Klog) :
    ∃ out, printk size m.toCall k = some out ∧
    out.2.1.pos = m.next size k.pos ∧
    (m.text = [] → out.2.1.mem = k.mem) ∧
    (m.text ≠ [] → out.2.1.mem = stored k.mem (start size m.len k.pos) m.time m.body ∧
      (m.tty = true → out.2.2.head? = some (header m.time ++ m.body))) := by
  by_cases h : m.text = []
  · exact ⟨_, printk_empty h, (if_pos h).symm, fun _ => rfl, fun hne => absurd h hne⟩
  · obtain ⟨rest, hprint⟩ := print_eq size k m.body_eq m.time m.tty
    refine ⟨_, by rw [printk_eq h, hprint]; rfl, (if_neg h).symm, fun hnil => absurd hnil h, ?_⟩
    intro _
    refine ⟨rfl, ?_⟩
    intro htty
    rw [htty]
    rfl

/-- After the call the position is in the buffer. -/
theorem Message.next_le {m : Message} {pos : Nat} (hsize : 600 ≤ size) (hpos : pos ≤ size) :
    m.next size pos ≤ size := by
  have hlen := m.len_lt
  rw [Message.next, start]
  split
  · exact hpos
  · split
    · omega
    · omega

/-- A call keeps to the buffer when the message fits. -/
theorem logRight_of_fits {m : Message} (hsize : 600 ≤ size) (hpos : k.pos ≤ size)
    (hfits : m.Fits size k.pos) {out : Int × Klog × List (List UInt8)}
    (hout : printk size m.toCall k = some out) : LogRight size m k out := by
  obtain ⟨out', hout', hnext, hempty, hprinted⟩ := printk_spec size m k
  obtain rfl := Option.some.inj (hout.symm.trans hout')
  have hlen := m.len_lt
  refine ⟨?_, hnext ▸ m.next_le hsize hpos, fun hne => (hprinted hne).2⟩
  intro j hj
  by_cases h : m.text = []
  · rw [hempty h]
  · rw [(hprinted h).1]
    refine stored_of_le k.mem m.time ?_
    show start size m.len k.pos + 15 + m.len < j
    have hroom := hfits.resolve_left h
    rw [start]
    split
    · omega
    · omega

/-- In a memory without zeros past the buffer it does so only then. -/
theorem fits_of_logRight {m : Message} (hpos : k.pos ≤ size) (hones : ∀ j, size ≤ j → k.mem j ≠ 0)
    {out : Int × Klog × List (List UInt8)} (hout : printk size m.toCall k = some out)
    (hright : LogRight size m k out) : m.Fits size k.pos := by
  obtain ⟨out', hout', -, -, hprinted⟩ := printk_spec size m k
  obtain rfl := Option.some.inj (hout.symm.trans hout')
  by_contra hfits
  rw [Message.Fits, not_or, not_or] at hfits
  obtain ⟨h, hfits, hover⟩ := hfits
  have hstart : start size m.len k.pos = k.pos := if_neg (by omega)
  -- where the second NUL is stored
  have hsame := hright.1 (k.pos + 15 + m.len) (by omega)
  rw [(hprinted h).1, hstart] at hsame
  exact hones _ (by omega) (hsame.symm.trans (stored_self k.mem k.pos m.time m.body))

end Call

/-! ## A sequence of calls -/

variable {size : Nat}

theorem keepsLog_of_room (hsize : 600 ≤ size) {ms : List Message} {k : Klog} (hpos : k.pos ≤ size)
    (h : Room size ms k.pos) : KeepsLog size ms k := by
  induction ms generalizing k with
  | nil => trivial
  | cons m ms ih =>
      obtain ⟨out, hout, hnext, -⟩ := printk_spec size m k
      refine ⟨out, hout, logRight_of_fits hsize hpos h.1 hout, ih ?_ ?_⟩
      · rw [hnext]
        exact m.next_le hsize hpos
      · rw [hnext]
        exact h.2

theorem room_of_keepsLog (hsize : 600 ≤ size) {ms : List Message} {k : Klog} (hpos : k.pos ≤ size)
    (hones : ∀ j, size ≤ j → k.mem j ≠ 0) (h : KeepsLog size ms k) : Room size ms k.pos := by
  induction ms generalizing k with
  | nil => trivial
  | cons m ms ih =>
      obtain ⟨out, hout, hright, hrest⟩ := h
      obtain ⟨out', hout', hnext, -⟩ := printk_spec size m k
      obtain rfl := Option.some.inj (hout.symm.trans hout')
      refine ⟨fits_of_logRight hpos hones hout hright, ?_⟩
      have hroom := ih (by rw [hnext]; exact m.next_le hsize hpos) (by
        intro j hj
        rw [hright.1 j hj]
        exact hones j hj) hrest
      rwa [hnext] at hroom

/-- From an empty log on, whatever is in memory, all calls keep to the buffer exactly when
each message is empty, does not fit or ends more than 15 bytes before the end. -/
theorem keepsLog_iff (size : Nat) (hsize : 600 ≤ size) (ms : List Message) :
    (∀ mem, KeepsLog size ms ⟨mem, 0⟩) ↔ Room size ms 0 := by
  constructor
  · intro h
    exact room_of_keepsLog hsize (Nat.zero_le size) (fun _ _ => (by decide : (1 : UInt8) ≠ 0))
      (h fun _ => 1)
  · intro h mem
    exact keepsLog_of_room hsize (Nat.zero_le size) h

/-- The message `%s` of a string. -/
def plain (s : List UInt8) (h : s.length < 512 ∧ 0 ∉ s ∧ body s = some s) : Message where
  format := asciiText ['%', 's']
  ap := [.string (some ⟨s, h.2.1⟩)]
  stack := fun _ => 0
  time := 0
  tty := true
  text := s ++ []
  body := s
  rendered := rfl
  short := by simpa using h.1
  body_eq := by
    rw [List.append_nil, ← cstr_nul s []]
    exact (congrArg Log.body (cstr_append [] h.2.1)).trans h.2.2

theorem keepsLog_iff_one :
    (∀ mem, KeepsLog 1000 [plain [ascii 'a'] (by decide)] ⟨mem, 0⟩) ↔
      Room 1000 [plain [ascii 'a'] (by decide)] 0 :=
  keepsLog_iff 1000 (by decide) [plain [ascii 'a'] (by decide)]

/-- Messages of 485 and 475 characters: the second one ends 10 bytes before the end of a
buffer of 1000 bytes. -/
theorem not_keepsLog : ¬ ∀ ms mem, KeepsLog 1000 ms ⟨mem, 0⟩ := by
  intro h
  have hplain : ∀ n, 0 < n → n < 512 → (List.replicate n (ascii 'a')).length < 512 ∧
      0 ∉ List.replicate n (ascii 'a') ∧
      body (List.replicate n (ascii 'a')) = some (List.replicate n (ascii 'a')) := by
    intro n hpos hn
    refine ⟨by simpa using hn, ?_, ?_⟩
    · intro hmem
      exact absurd (List.eq_of_mem_replicate hmem) (by decide)
    · obtain ⟨n, rfl⟩ := Nat.exists_eq_succ_of_ne_zero hpos.ne'
      rfl
  have htext : ∀ n hpos hn, (plain _ (hplain n hpos hn)).text ≠ [] := by
    intro n hpos hn hnil
    have hlength := congrArg List.length hnil
    simp only [plain, List.append_nil, List.length_replicate, List.length_nil] at hlength
    omega
  let first := plain _ (hplain 485 (by omega) (by omega))
  let second := plain _ (hplain 475 (by omega) (by omega))
  have hfirst : first.len = 500 := congrArg (· + 15) List.length_replicate
  have hsecond : second.len = 490 := congrArg (· + 15) List.length_replicate
  have hnext : first.next 1000 0 = 500 := by
    rw [Message.next, if_neg (htext 485 (by omega) (by omega)), hfirst]
    rfl
  obtain ⟨-, hfits, -⟩ := room_of_keepsLog (by omega) (Nat.zero_le 1000)
    (fun _ _ => (by decide : (1 : UInt8) ≠ 0)) (h [first, second] fun _ => 1)
  rw [hnext, Message.Fits, hsecond] at hfits
  have hroom := hfits.resolve_left (htext 475 (by omega) (by omega))
  omega

end StardustOS.Log
