import StardustOS.Dev.Tty
import StardustOS.Lib.Run
import Mathlib.Data.List.Nodup
import Mathlib.Data.List.Perm.Subperm

/-!
# Two registries of one kind of device

A kind of device has a list of its own and a major number in the central
registry.  Both are to hold the same names (`InStep`).

`Registered` and `Unregistered` say what a registration and a removal do to the
names of a kind, whichever kind it is.  A registration takes the length of the
list as minor number, and a removal takes the position in the list for it.  So a
removal keeps the registries in step when the central device it finds there has
the name it is to remove (`Matches`).
-/

namespace StardustOS.Dev

open Lib

/-! ## Device values -/

theorem devMajor_mkdev {maj mi : Nat} (h : mi < 256) : devMajor (mkdev maj mi) = maj := by
  rw [devMajor, mkdev, Nat.shiftRight_or_distrib, Nat.shiftLeft_shiftRight,
    Nat.shiftRight_eq_div_pow, Nat.div_eq_of_lt h, Nat.or_zero]

/-- The names of the central devices of a major number. -/
def Devices.namesOf (reg : Devices) (maj : Nat) : List (List UInt8) :=
  (reg.devices.filter fun d => devMajor d.dev = maj).map Device.name

theorem Devices.mem_namesOf {reg : Devices} {maj : Nat} {x : List UInt8} :
    x ∈ reg.namesOf maj ↔ ∃ d ∈ reg.devices, devMajor d.dev = maj ∧ d.name = x := by
  simp [Devices.namesOf, and_assoc]

/-- No two central devices have the same value or the same name. -/
structure Devices.Distinct (reg : Devices) : Prop where
  devs : (reg.devices.map Device.dev).Nodup
  names : (reg.devices.map Device.name).Nodup

/-! ## What a call does to a kind -/

/-- What a registration does. -/
inductive Registered (maj : Nat) (reg : Devices) (names : List (List UInt8)) (name : List UInt8) :
    Int → Devices → List (List UInt8) → Prop where
  | refused {r : Int} (error : r < 0) : Registered maj reg names name r reg names
  | done {d : Device} {n : Nat} (dev : d.dev = mkdev maj names.length) (devName : d.name = name)
      (newName : ∀ e ∈ reg.devices, e.name ≠ name) (newDev : ∀ e ∈ reg.devices, e.dev ≠ d.dev)
      (notListed : name ∉ names) :
      Registered maj reg names name 0 ⟨d :: reg.devices, n⟩ (name :: names)

/-- What a removal does. -/
inductive Unregistered (maj : Nat) (reg : Devices) (names : List (List UInt8))
    (name : List UInt8) : Int → Devices → List (List UInt8) → Prop where
  | refused {r : Int} (error : r < 0) : Unregistered maj reg names name r reg names
  | done {d : Device} {n : Nat} (listed : name ∈ names)
      (found : reg.deviceFromdev (mkdev maj (names.idxOf name)) = some d) :
      Unregistered maj reg names name 0
        ⟨reg.devices.eraseP fun e => e.dev = mkdev maj (names.idxOf name), n⟩ (names.erase name)

/-- The central device that a removal of the name finds, if it finds one, has
this name. -/
def Matches (maj : Nat) (reg : Devices) (names : List (List UInt8)) (name : List UInt8) : Prop :=
  name ∈ names → ∀ d ∈ reg.deviceFromdev (mkdev maj (names.idxOf name)), d.name = name

instance {maj : Nat} {reg : Devices} {names : List (List UInt8)} {name : List UInt8} :
    Decidable (Matches maj reg names name) :=
  inferInstanceAs (Decidable (name ∈ names →
    ∀ d ∈ reg.deviceFromdev (mkdev maj (names.idxOf name)), d.name = name))

/-- The list of a kind and the central registry hold the same names, each
once. -/
structure InStep (maj : Nat) (reg : Devices) (names : List (List UInt8)) : Prop where
  mem_iff : ∀ x, x ∈ names ↔ x ∈ reg.namesOf maj
  nodup : names.Nodup

/-! ## There are 256 values of a major number -/

/-- The values of the central devices of a major number. -/
def Devices.devsOf (reg : Devices) (maj : Nat) : List Nat :=
  (reg.devices.filter fun d => devMajor d.dev = maj).map Device.dev

section Count

variable {maj : Nat} {reg : Devices} {names : List (List UInt8)}

theorem Devices.Distinct.nodup_devsOf (h : reg.Distinct) (maj : Nat) : (reg.devsOf maj).Nodup :=
  h.devs.sublist (List.filter_sublist.map _)

theorem Devices.devsOf_subset (reg : Devices) (maj : Nat) :
    reg.devsOf maj ⊆ List.range' (256 * maj) 256 := by
  intro v hv
  obtain ⟨d, hd, rfl⟩ := List.mem_map.mp hv
  have hmaj : d.dev >>> 8 = maj := of_decide_eq_true (List.mem_filter.mp hd).2
  rw [Nat.shiftRight_eq_div_pow] at hmaj
  rw [List.mem_range'_1]
  omega

theorem Devices.length_namesOf (reg : Devices) (maj : Nat) :
    (reg.namesOf maj).length = (reg.devsOf maj).length := by
  simp [Devices.namesOf, Devices.devsOf]

theorem InStep.length_le_devsOf (h : InStep maj reg names) :
    names.length ≤ (reg.devsOf maj).length := by
  rw [← reg.length_namesOf]
  exact (List.subperm_of_subset h.nodup fun x hx => (h.mem_iff x).mp hx).length_le

/-- No more devices of a kind are registered than there are values. -/
theorem InStep.length_le (h : InStep maj reg names) (hd : reg.Distinct) : names.length ≤ 256 := by
  have hsub := (List.subperm_of_subset (hd.nodup_devsOf maj) (reg.devsOf_subset maj)).length_le
  rw [List.length_range'] at hsub
  exact h.length_le_devsOf.trans hsub

/-- The value of a 257th block device would be that of the first minor number,
which is taken by then. -/
theorem InStep.length_lt (h : InStep DEVMAJ_BLOCK reg names) (hd : reg.Distinct)
    (hnew : ∀ e ∈ reg.devices, e.dev ≠ mkdev DEVMAJ_BLOCK names.length) : names.length < 256 := by
  by_contra hge
  have hlen : names.length = 256 := le_antisymm (h.length_le hd) (Nat.not_lt.mp hge)
  have hfree : 256 ∉ reg.devsOf DEVMAJ_BLOCK := by
    intro hmem
    obtain ⟨e, he, hdev⟩ := List.mem_map.mp hmem
    exact hnew e (List.mem_filter.mp he).1 (by rw [hdev, hlen]; rfl)
  have hall : 256 :: reg.devsOf DEVMAJ_BLOCK ⊆ List.range' 256 256 := by
    rintro v (_ | ⟨_, hv⟩)
    · simp
    · exact reg.devsOf_subset DEVMAJ_BLOCK hv
  have hsub := (List.subperm_of_subset
    (List.nodup_cons.mpr ⟨hfree, hd.nodup_devsOf DEVMAJ_BLOCK⟩) hall).length_le
  rw [List.length_cons, List.length_range'] at hsub
  have := h.length_le_devsOf
  omega

end Count

/-! ## Registration and removal -/

section Calls

variable {maj : Nat} {reg reg' : Devices} {names names' : List (List UInt8)} {name : List UInt8}
  {r : Int}

/-- The value that is looked up names one device. -/
theorem Devices.Distinct.mem_eraseP (h : reg.Distinct) {v : Nat} {e : Device} :
    (e ∈ reg.devices.eraseP fun d => d.dev = v) ↔ e ∈ reg.devices ∧ e.dev ≠ v := by
  have hdevs := h.devs
  generalize reg.devices = l at hdevs ⊢
  induction l with
  | nil => simp
  | cons d rest ih =>
      rw [List.map_cons, List.nodup_cons] at hdevs
      by_cases hd : d.dev = v
      · rw [List.eraseP_cons_of_pos (by simpa using hd)]
        constructor
        · intro he
          exact ⟨List.mem_cons_of_mem _ he, fun hv =>
            hdevs.1 (hd ▸ hv ▸ List.mem_map_of_mem he)⟩
        · rintro ⟨he, hne⟩
          rcases List.mem_cons.mp he with rfl | he
          · exact absurd hd hne
          · exact he
      · have hrest := ih hdevs.2
        rw [List.eraseP_cons_of_neg (by simpa using hd), List.mem_cons, List.mem_cons]
        constructor
        · rintro (rfl | he)
          · exact ⟨Or.inl rfl, hd⟩
          · exact ⟨Or.inr (hrest.mp he).1, (hrest.mp he).2⟩
        · rintro ⟨rfl | he, hne⟩
          · exact Or.inl rfl
          · exact Or.inr (hrest.mpr ⟨he, hne⟩)

theorem Registered.distinct (h : Registered maj reg names name r reg' names')
    (hd : reg.Distinct) : reg'.Distinct := by
  cases h with
  | refused error => exact hd
  | @done d n dev devName newName newDev notListed =>
      refine ⟨List.nodup_cons.mpr ⟨?_, hd.devs⟩, List.nodup_cons.mpr ⟨?_, hd.names⟩⟩
      · intro hmem
        obtain ⟨e, he, hev⟩ := List.mem_map.mp hmem
        exact newDev e he hev
      · intro hmem
        obtain ⟨e, he, hev⟩ := List.mem_map.mp hmem
        exact newName e he (hev.trans devName)

theorem Unregistered.distinct (h : Unregistered maj reg names name r reg' names')
    (hd : reg.Distinct) : reg'.Distinct := by
  cases h with
  | refused error => exact hd
  | done listed found =>
      exact ⟨hd.devs.sublist (List.eraseP_sublist.map _),
        hd.names.sublist (List.eraseP_sublist.map _)⟩

/-- A registration with a minor number below 256 enters the name on both
sides. -/
theorem Registered.inStep (h : Registered maj reg names name r reg' names')
    (hs : InStep maj reg names) (hlen : 0 ≤ r → names.length < 256) : InStep maj reg' names' := by
  cases h with
  | refused error => exact hs
  | @done d n dev devName newName newDev notListed =>
      have hmaj : devMajor d.dev = maj := by rw [dev, devMajor_mkdev (hlen le_rfl)]
      refine ⟨fun x => ?_, List.nodup_cons.mpr ⟨notListed, hs.nodup⟩⟩
      rw [List.mem_cons, hs.mem_iff, Devices.mem_namesOf, Devices.mem_namesOf]
      constructor
      · rintro (rfl | ⟨e, he, hx⟩)
        · exact ⟨d, List.mem_cons_self, hmaj, devName⟩
        · exact ⟨e, List.mem_cons_of_mem _ he, hx⟩
      · rintro ⟨e, he, hx⟩
        rcases List.mem_cons.mp he with rfl | he
        · exact Or.inl (hx.2.symm.trans devName)
        · exact Or.inr ⟨e, he, hx⟩

/-- A registration of a block device takes a minor number below 256. -/
theorem Registered.length_lt (h : Registered DEVMAJ_BLOCK reg names name r reg' names')
    (hs : InStep DEVMAJ_BLOCK reg names) (hd : reg.Distinct) (hr : 0 ≤ r) : names.length < 256 := by
  cases h with
  | refused error => omega
  | done dev devName newName newDev notListed => exact hs.length_lt hd (dev ▸ newDev)

/-- It enters it under no other major number. -/
theorem Registered.namesOf_ne (h : Registered maj reg names name r reg' names')
    (hlen : 0 ≤ r → names.length < 256) {maj' : Nat} (hne : maj' ≠ maj) (x : List UInt8) :
    x ∈ reg'.namesOf maj' ↔ x ∈ reg.namesOf maj' := by
  cases h with
  | refused error => rfl
  | @done d n dev devName newName newDev notListed =>
      have hmaj : devMajor d.dev = maj := by rw [dev, devMajor_mkdev (hlen le_rfl)]
      rw [Devices.mem_namesOf, Devices.mem_namesOf]
      constructor
      · rintro ⟨e, he, hx⟩
        rcases List.mem_cons.mp he with rfl | he
        · exact absurd (hx.1.symm.trans hmaj) hne
        · exact ⟨e, he, hx⟩
      · rintro ⟨e, he, hx⟩
        exact ⟨e, List.mem_cons_of_mem _ he, hx⟩

/-- A removal whose central device matches takes the name from both sides, and
no other name of any major number. -/
theorem Unregistered.removes (h : Unregistered maj reg names name r reg' names')
    (hs : InStep maj reg names) (hd : reg.Distinct) (hm : Matches maj reg names name)
    (hr : 0 ≤ r) :
    (∀ x, x ∈ names' ↔ x ∈ names ∧ x ≠ name) ∧
      ∀ maj' x, x ∈ reg'.namesOf maj' ↔ x ∈ reg.namesOf maj' ∧ ¬ (maj' = maj ∧ x = name) := by
  cases h with
  | refused error => omega
  | @done d n listed found =>
      have hname : d.name = name := hm listed d found
      have hmem : d ∈ reg.devices := List.mem_of_find?_eq_some found
      have hdev : d.dev = mkdev maj (names.idxOf name) := by simpa using List.find?_some found
      have hmaj : devMajor d.dev = maj := by
        rw [hdev, devMajor_mkdev]
        exact (List.idxOf_lt_length_of_mem listed).trans_le (hs.length_le hd)
      refine ⟨fun x => hs.nodup.mem_erase_iff.trans and_comm, ?_⟩
      intro maj' x
      simp only [Devices.mem_namesOf, hd.mem_eraseP, ← hdev]
      constructor
      · rintro ⟨e, ⟨he, hne⟩, hemaj, rfl⟩
        refine ⟨⟨e, he, hemaj, rfl⟩, ?_⟩
        rintro ⟨-, hen⟩
        exact hne (congrArg Device.dev
          (List.inj_on_of_nodup_map hd.names he hmem (hen.trans hname.symm)))
      · rintro ⟨⟨e, he, hemaj, rfl⟩, hne⟩
        refine ⟨e, ⟨he, fun hed => ?_⟩, hemaj, rfl⟩
        obtain rfl : e = d := List.inj_on_of_nodup_map hd.devs he hmem hed
        exact hne ⟨hemaj.symm.trans hmaj, hname⟩

theorem Unregistered.inStep (h : Unregistered maj reg names name r reg' names')
    (hs : InStep maj reg names) (hd : reg.Distinct) (hm : Matches maj reg names name) :
    InStep maj reg' names' := by
  cases h with
  | refused error => exact hs
  | done listed found =>
      obtain ⟨hnames, hcentral⟩ :=
        (Unregistered.done (n := 0) listed found).removes hs hd hm le_rfl
      refine ⟨fun x => ?_, hs.nodup.erase name⟩
      rw [hnames, hs.mem_iff]
      simpa [Devices.namesOf] using (hcentral maj x).symm

end Calls

end StardustOS.Dev
