import Mathlib.Data.List.FinRange
import StardustOS.Lib.DepthFirst
import StardustOS.Pci.Config

/-!
# Scanning the buses

`scan_buses` goes over the functions of bus 0, or of each bus whose number is that of a
function of 0:0, and over those of the secondary bus of each bridge that it finds.
Configuration space is a parameter, a value for each register, and so is `found_dev`.
A call that fails ends the scan.

`check_bus` calls itself for a bridge, with nothing that says which buses it has been
to.  The models take the depth of these calls as fuel, and `none` says that it was used
up.  Over the functions of a bus they are a walk (`checkBus_succ`) of the graph
whose items are the functions and whose links are the bridges.  So the scan ends and
finds each function once, whatever `found_dev` does, exactly when no bus with a function
has two ways in (`scanEnds_iff`).
-/

namespace StardustOS.Pci

open Lib

/-- The function `func` of the slot `slot`. -/
def PciDev.of (bus : UInt8) (slot : Fin 32) (func : Fin 8) : PciDev where
  bus := bus
  slot := UInt8.ofNat slot
  func := UInt8.ofNat func
  slot_lt := by
    rw [UInt8.lt_iff_toNat_lt, UInt8.toNat_ofNat']
    exact Nat.lt_of_le_of_lt (Nat.mod_le _ _) slot.isLt
  func_lt := by
    rw [UInt8.lt_iff_toNat_lt, UInt8.toNat_ofNat']
    exact Nat.lt_of_le_of_lt (Nat.mod_le _ _) func.isLt

/-! ## The source -/

/-- What `pci_read32` returns. -/
abbrev Config := PciDev → UInt8 → UInt32

namespace Config

variable (c : Config) (a : PciDev)

/-- `pcidev_getvendor`. -/
def pcidevGetvendor : UInt16 := (c a 0 &&& 0xFFFF).toUInt16

/-- `pcidev_gethdrtype`. -/
def pcidevGethdrtype : UInt8 := ((c a 12 >>> 16) &&& 0xFF).toUInt8

/-- `pcidev_get2ndbus`. -/
def pcidevGet2ndbus : UInt8 := ((c a 24 >>> 24) &&& 0xFF).toUInt8

/-- The class of a function, and its subclass. -/
def class_ : UInt8 := ((c a 8 >>> 24) &&& 0xFF).toUInt8

def subclass : UInt8 := ((c a 8 >>> 16) &&& 0xFF).toUInt8

end Config

/-- The calls of `found_dev`, oldest first, and what they change. -/
structure Scan (σ : Type) where
  calls : List PciDev
  state : σ

/-- `for (x of l) { r = body(x, s); if (r < 0) return r; }`, and `return 0`. -/
def forEach {ι σ : Type} (body : ι → σ → Option (Int × σ)) : List ι → σ → Option (Int × σ)
  | [], s => some (0, s)
  | x :: xs, s => do
      let (r, s) ← body x s
      if r < 0 then some (r, s) else forEach body xs s

section Source

variable {σ : Type} (c : Config) (found : PciDev → σ → Int × σ)

/-- A call of `found_dev`. -/
def callFound (a : PciDev) (s : Scan σ) : Int × Scan σ :=
  let (r, state) := found a s.state
  (r, ⟨s.calls ++ [a], state⟩)

/-- `check_func`, given `check_bus`. -/
def checkFunc (checkBus : UInt8 → Scan σ → Option (Int × Scan σ)) (addr : PciDev) (s : Scan σ) :
    Option (Int × Scan σ) :=
  if c.pcidevGetvendor addr = 0xFFFF then some (0, s)
  else
    let (r, s) := callFound found addr s
    if r < 0 then some (r, s)
    else if c.class_ addr = 0x06 ∧ c.subclass addr = 0x04 then do
      let (r, s) ← checkBus (c.pcidevGet2ndbus addr) s
      if r < 0 then some (r, s) else some (0, s)
    else some (0, s)

/-- `check_dev`, given `check_bus`. -/
def checkDev (checkBus : UInt8 → Scan σ → Option (Int × Scan σ)) (bus : UInt8) (dev : Fin 32)
    (s : Scan σ) : Option (Int × Scan σ) :=
  if c.pcidevGetvendor (.of bus dev 0) = 0xFFFF then some (0, s)
  else
    forEach (fun func s =>
      if c.pcidevGetvendor (.of bus dev func) ≠ 0xFFFF then
        checkFunc c found checkBus (.of bus dev func) s
      else some (0, s)) (List.finRange 8) s

/-- `check_bus`. -/
def checkBus : Nat → UInt8 → Scan σ → Option (Int × Scan σ)
  | 0, _, _ => none
  | depth + 1, bus, s => forEach (checkDev c found (checkBus depth) bus) (List.finRange 32) s

/-- `scan_buses`. -/
def scanBuses (depth : Nat) (s : Scan σ) : Option (Int × Scan σ) :=
  if c.pcidevGethdrtype (.of 0 0 0) &&& 0x80 = 0 then do
    let (r, s) ← checkBus c found depth 0 s
    if r < 0 then some (r, s) else some (0, s)
  else
    forEach (fun func s =>
      if c.pcidevGetvendor (.of 0 0 func) ≠ 0xFFFF then
        checkBus c found depth (UInt8.ofNat func) s
      else some (0, s)) (List.finRange 8) s

end Source

/-- Whatever `found_dev` does, the scan ends and calls it at most once for each function. -/
def ScanEnds (c : Config) : Prop :=
  ∀ (σ : Type) (found : PciDev → σ → Int × σ) (state : σ), ∃ depth r s,
    (∀ depth' ≥ depth, scanBuses c found depth' ⟨[], state⟩ = some (r, s)) ∧ s.calls.Nodup

/-! ## The graph of the buses -/

namespace Config

variable (c : Config)

/-- The functions of a bus that the scan comes to. -/
def funcs (bus : UInt8) : List PciDev :=
  (List.finRange 32).flatMap fun dev =>
    if c.pcidevGetvendor (.of bus dev 0) = 0xFFFF then []
    else ((List.finRange 8).map (PciDev.of bus dev)).filter fun a => c.pcidevGetvendor a ≠ 0xFFFF

/-- The buses that the scan begins with. -/
def roots : List UInt8 :=
  if c.pcidevGethdrtype (.of 0 0 0) &&& 0x80 = 0 then [0]
  else ((List.finRange 8).filter fun func => c.pcidevGetvendor (.of 0 0 func) ≠ 0xFFFF).map
    fun func : Fin 8 => UInt8.ofNat func

/-- The bus behind a bridge. -/
def behind (a : PciDev) : Option UInt8 :=
  if c.class_ a = 0x06 ∧ c.subclass a = 0x04 then some (c.pcidevGet2ndbus a) else none

end Config

theorem ofNat_fin_injective {n : Nat} (hn : n ≤ 256) :
    Function.Injective fun i : Fin n => UInt8.ofNat i := by
  intro i j h
  have hnat := congrArg UInt8.toNat h
  simp only [UInt8.toNat_ofNat'] at hnat
  have hi := i.isLt
  have hj := j.isLt
  ext
  omega

theorem PciDev.of_inj {bus bus' : UInt8} {slot slot' : Fin 32} {func func' : Fin 8} :
    PciDev.of bus slot func = .of bus' slot' func' ↔
      bus = bus' ∧ slot = slot' ∧ func = func' := by
  rw [PciDev.of, PciDev.of, PciDev.mk.injEq,
    (ofNat_fin_injective (by omega : 32 ≤ 256)).eq_iff,
    (ofNat_fin_injective (by omega : 8 ≤ 256)).eq_iff]

namespace Config

variable {c : Config}

theorem mem_funcs {bus : UInt8} {a : PciDev} : a ∈ c.funcs bus ↔
    ∃ dev func, a = .of bus dev func ∧ c.pcidevGetvendor (.of bus dev 0) ≠ 0xFFFF ∧
      c.pcidevGetvendor a ≠ 0xFFFF := by
  simp only [funcs, List.mem_flatMap, List.mem_finRange, true_and]
  constructor
  · rintro ⟨dev, hmem⟩
    split at hmem
    · cases hmem
    · rename_i hdev
      obtain ⟨hmem, hfunc⟩ := List.mem_filter.mp hmem
      obtain ⟨func, -, rfl⟩ := List.mem_map.mp hmem
      exact ⟨dev, func, rfl, hdev, of_decide_eq_true hfunc⟩
  · rintro ⟨dev, func, rfl, hdev, hfunc⟩
    refine ⟨dev, ?_⟩
    rw [if_neg hdev]
    exact List.mem_filter.mpr ⟨List.mem_map_of_mem (List.mem_finRange func), decide_eq_true hfunc⟩

theorem nodup_funcs (bus : UInt8) : (c.funcs bus).Nodup := by
  rw [funcs, List.nodup_flatMap]
  constructor
  · intro dev _
    split
    · exact .nil
    · refine (List.Nodup.map ?_ (List.nodup_finRange 8)).filter _
      intro func func' h
      exact (PciDev.of_inj.mp h).2.2
  · refine (List.nodup_finRange 32).imp ?_
    intro dev dev' hne
    have hslot : ∀ {dev : Fin 32} {a : PciDev}, a ∈ (if c.pcidevGetvendor (.of bus dev 0) = 0xFFFF
        then [] else ((List.finRange 8).map (PciDev.of bus dev)).filter
          fun a => c.pcidevGetvendor a ≠ 0xFFFF) → ∃ func, a = .of bus dev func := by
      intro dev a ha
      split at ha
      · cases ha
      · obtain ⟨func, -, rfl⟩ := List.mem_map.mp (List.mem_filter.mp ha).1
        exact ⟨func, rfl⟩
    intro a ha ha'
    obtain ⟨func, rfl⟩ := hslot ha
    obtain ⟨func', h⟩ := hslot ha'
    exact hne (PciDev.of_inj.mp h).2.1

theorem nodup_roots : c.roots.Nodup := by
  rw [roots]
  split
  · exact List.nodup_singleton 0
  · exact ((List.nodup_finRange 8).filter _).map (ofNat_fin_injective (by omega))

/-- The buses, their functions and the bridges. -/
def graph (c : Config) : LinkGraph UInt8 PciDev where
  items := c.funcs
  owner := PciDev.bus
  link := c.behind
  roots := c.roots
  owner_of_mem := by
    intro bus a ha
    obtain ⟨_, _, rfl, -⟩ := mem_funcs.mp ha
    rfl
  nodup_items := nodup_funcs
  nodup_roots := nodup_roots

/-- No bus with a function has two ways in. -/
def OneWay (c : Config) : Prop := c.graph.OneWay

end Config

/-! ## Loops -/

section Loops

variable {ι κ σ : Type} {f : ι → σ → Option (Int × σ)}

theorem forEach_append (l l' : List ι) (s : σ) : forEach f (l ++ l') s = (do
    let (r, s) ← forEach f l s
    if r < 0 then some (r, s) else forEach f l' s) := by
  induction l generalizing s with
  | nil => simp [forEach]
  | cons x l ih =>
      rw [List.cons_append, forEach, forEach]
      cases f x s with
      | none => rfl
      | some out =>
          by_cases hr : out.1 < 0
          · simp [hr]
          · simp [hr, ih]

/-- A loop of loops is one over all that they go over. -/
theorem forEach_forEach (g : κ → List ι) (l : List κ) (s : σ) :
    forEach (fun x => forEach f (g x)) l s = forEach f (l.flatMap g) s := by
  induction l generalizing s with
  | nil => rfl
  | cons x l ih =>
      rw [List.flatMap_cons, forEach_append, forEach]
      simp only [ih]

/-- What is skipped is left out. -/
theorem forEach_filter (p : ι → Prop) [DecidablePred p] (l : List ι) (s : σ) :
    forEach (fun x s => if p x then f x s else some (0, s)) l s =
      forEach f (l.filter fun x => p x) s := by
  induction l generalizing s with
  | nil => rfl
  | cons x l ih =>
      rw [forEach]
      by_cases hx : p x
      · simp only [hx, if_true, decide_true, List.filter_cons_of_pos, forEach, ih]
      · simp [hx, ih]

theorem forEach_map (g : κ → ι) (l : List κ) (s : σ) :
    forEach (fun x => f (g x)) l s = forEach f (l.map g) s := by
  induction l generalizing s with
  | nil => rfl
  | cons x l ih =>
      rw [List.map_cons, forEach, forEach]
      simp only [ih]

/-- A loop returns what it returns when its calls do. -/
theorem forEach_mono {g : ι → σ → Option (Int × σ)} {l : List ι} {s : σ} {out : Int × σ}
    (h : ∀ x s out, f x s = some out → g x s = some out) (hout : forEach f l s = some out) :
    forEach g l s = some out := by
  induction l generalizing s with
  | nil => exact hout
  | cons x l ih =>
      rw [forEach] at hout ⊢
      obtain ⟨⟨r, t⟩, hx, hout⟩ := Option.bind_eq_some_iff.mp hout
      simp only [h x s _ hx, Option.bind_eq_bind, Option.bind_some]
      by_cases hr : r < 0
      · simpa [hr] using hout
      · simp only [hr, if_false] at hout ⊢
        exact ih hout

end Loops

/-! ## The scan as a walk -/

section Walk

variable {σ : Type} {c : Config} {found : PciDev → σ → Int × σ}

theorem checkDev_eq (f : UInt8 → Scan σ → Option (Int × Scan σ)) (bus : UInt8) (dev : Fin 32)
    (s : Scan σ) : checkDev c found f bus dev s =
      forEach (checkFunc c found f)
        (if c.pcidevGetvendor (.of bus dev 0) = 0xFFFF then []
        else ((List.finRange 8).map (PciDev.of bus dev)).filter
          fun a => c.pcidevGetvendor a ≠ 0xFFFF) s := by
  rw [checkDev]
  split
  · rfl
  · rw [← forEach_filter, ← forEach_map]

/-- A bus is gone over function by function. -/
theorem checkBus_succ (depth : Nat) (bus : UInt8) (s : Scan σ) :
    checkBus c found (depth + 1) bus s =
      forEach (checkFunc c found (checkBus c found depth)) (c.funcs bus) s := by
  rw [Config.funcs, ← forEach_forEach, checkBus]
  congr 1
  funext dev s
  exact checkDev_eq _ _ _ _

/-- The buses that the scan begins with are gone over in turn. -/
theorem scanBuses_eq (depth : Nat) (s : Scan σ) :
    scanBuses c found depth s = forEach (checkBus c found depth) c.roots s := by
  rw [scanBuses, Config.roots]
  split
  · rfl
  · rw [← forEach_map, ← forEach_filter]

section CheckFunc

variable {f g : UInt8 → Scan σ → Option (Int × Scan σ)} {a : PciDev} {s : Scan σ}

theorem checkFunc_absent (h : c.pcidevGetvendor a = 0xFFFF) :
    checkFunc c found f a s = some (0, s) := if_pos h

/-- A call of `found_dev` that fails ends the scan. -/
theorem checkFunc_failed (h : c.pcidevGetvendor a ≠ 0xFFFF) (hr : (callFound found a s).1 < 0) :
    checkFunc c found f a s = some (callFound found a s) := by
  simp only [checkFunc, h, hr, if_true, if_false]

theorem checkFunc_device (h : c.pcidevGetvendor a ≠ 0xFFFF) (hr : ¬ (callFound found a s).1 < 0)
    (hlink : c.behind a = none) : checkFunc c found f a s = some (0, (callFound found a s).2) := by
  have hclass : ¬ (c.class_ a = 0x06 ∧ c.subclass a = 0x04) := by
    intro hbridge
    rw [Config.behind, if_pos hbridge] at hlink
    cases hlink
  simp only [checkFunc, h, hr, hclass, if_false]

theorem checkFunc_bridge {bus : UInt8} (h : c.pcidevGetvendor a ≠ 0xFFFF)
    (hr : ¬ (callFound found a s).1 < 0) (hlink : c.behind a = some bus) :
    checkFunc c found f a s =
      (f bus (callFound found a s).2).map fun (r, t) => (if r < 0 then r else 0, t) := by
  have hclass : c.class_ a = 0x06 ∧ c.subclass a = 0x04 := by
    by_contra hclass
    rw [Config.behind, if_neg hclass] at hlink
    cases hlink
  rw [Config.behind, if_pos hclass, Option.some.injEq] at hlink
  simp only [checkFunc, h, hr, hclass, hlink, if_false, if_true, and_self]
  cases f bus (callFound found a s).2 with
  | none => rfl
  | some out =>
      simp only [Option.bind_eq_bind, Option.bind_some, Option.map_some]
      split
      · rfl
      · rfl

theorem checkFunc_mono (h : ∀ bus t out, f bus t = some out → g bus t = some out)
    {out : Int × Scan σ} (hout : checkFunc c found f a s = some out) :
    checkFunc c found g a s = some out := by
  by_cases hpresent : c.pcidevGetvendor a = 0xFFFF
  · rwa [checkFunc_absent hpresent] at hout ⊢
  · by_cases hr : (callFound found a s).1 < 0
    · rwa [checkFunc_failed hpresent hr] at hout ⊢
    · cases hlink : c.behind a with
      | none => rwa [checkFunc_device hpresent hr hlink] at hout ⊢
      | some bus =>
          rw [checkFunc_bridge hpresent hr hlink] at hout ⊢
          obtain ⟨x, hx, rfl⟩ := Option.map_eq_some_iff.mp hout
          rw [h _ _ x hx, Option.map_some]

end CheckFunc

theorem checkBus_step {depth : Nat} {bus : UInt8} {s : Scan σ} {out : Int × Scan σ}
    (h : checkBus c found depth bus s = some out) :
    checkBus c found (depth + 1) bus s = some out := by
  induction depth generalizing bus s out with
  | zero => cases h
  | succ depth ih =>
      rw [checkBus_succ] at h ⊢
      exact forEach_mono (fun _ _ _ => checkFunc_mono fun _ _ _ => ih) h

theorem scanBuses_le {depth depth' : Nat} (hle : depth ≤ depth') {s : Scan σ} {out : Int × Scan σ}
    (h : scanBuses c found depth s = some out) : scanBuses c found depth' s = some out := by
  induction hle with
  | refl => exact h
  | step _ ih =>
      rw [scanBuses_eq] at ih ⊢
      exact forEach_mono (fun _ _ _ => checkBus_step) ih

/-- A call returns, and calls `found_dev` for what the walk takes, as far as none fails. -/
def Follows (t : List (Way UInt8 PciDev)) (s : Scan σ) (out : Option (Int × Scan σ)) : Prop :=
  ∃ r s' l, out = some (r, s') ∧ s'.calls = s.calls ++ l ∧ l <+: LinkGraph.taken t ∧
    (¬ r < 0 → l = LinkGraph.taken t)

theorem follows_forEach {ι : Type} {f : ι → Scan σ → Option (Int × Scan σ)}
    {walk : ι → Option (List (Way UInt8 PciDev))} {l : List ι}
    (h : ∀ i ∈ l, ∀ t, walk i = some t → ∀ s, Follows t s (f i s))
    {t : List (Way UInt8 PciDev)} (ht : each walk l = some t) (s : Scan σ) :
    Follows t s (forEach f l s) := by
  induction l generalizing t s with
  | nil =>
      cases ht
      exact ⟨0, s, [], rfl, by simp, List.nil_prefix, fun _ => rfl⟩
  | cons i l ih =>
      rw [each] at ht
      obtain ⟨u, hu, ht⟩ := Option.bind_eq_some_iff.mp ht
      obtain ⟨v, hv, ht⟩ := Option.bind_eq_some_iff.mp ht
      cases ht
      obtain ⟨r, s', k, hout, hcalls, hpre, hfull⟩ := h i List.mem_cons_self u hu s
      simp only [forEach, hout, Option.bind_eq_bind, Option.bind_some]
      by_cases hr : r < 0
      · rw [if_pos hr]
        refine ⟨r, s', k, rfl, hcalls, ?_, fun hr' => absurd hr hr'⟩
        rw [LinkGraph.taken, List.filterMap_append]
        exact hpre.trans (List.prefix_append _ _)
      · rw [if_neg hr]
        obtain ⟨r', s'', k', hout', hcalls', hpre', hfull'⟩ :=
          ih (fun j hj => h j (List.mem_cons_of_mem _ hj)) hv s'
        obtain rfl := hfull hr
        refine ⟨r', s'', LinkGraph.taken u ++ k', hout', ?_, ?_, ?_⟩
        · rw [hcalls', hcalls, List.append_assoc]
        · rw [LinkGraph.taken, LinkGraph.taken, List.filterMap_append]
          exact (List.prefix_append_right_inj _).mpr hpre'
        · intro hr'
          rw [hfull' hr', LinkGraph.taken, LinkGraph.taken, LinkGraph.taken, List.filterMap_append]

theorem present_of_mem {bus : UInt8} {a : PciDev} (h : a ∈ c.graph.items bus) :
    c.pcidevGetvendor a ≠ 0xFFFF := by
  obtain ⟨_, _, _, -, hpresent⟩ := Config.mem_funcs.mp h
  exact hpresent

theorem follows_checkFunc {f : UInt8 → Scan σ → Option (Int × Scan σ)}
    {walk : UInt8 → Option (List (Way UInt8 PciDev))}
    (h : ∀ bus t, walk bus = some t → ∀ s, Follows t s (f bus s)) {a : PciDev}
    (hpresent : c.pcidevGetvendor a ≠ 0xFFFF) {t : List (Way UInt8 PciDev)}
    (ht : c.graph.atItem walk a = some t) (s : Scan σ) :
    Follows t s (checkFunc c found f a s) := by
  have hcalls : (callFound found a s).2.calls = s.calls ++ [a] := rfl
  cases hlink : c.behind a with
  | none =>
      rw [LinkGraph.atItem_none hlink] at ht
      cases ht
      by_cases hr : (callFound found a s).1 < 0
      · rw [checkFunc_failed hpresent hr]
        exact ⟨_, _, [a], rfl, hcalls, List.prefix_refl _, fun _ => rfl⟩
      · rw [checkFunc_device hpresent hr hlink]
        exact ⟨_, _, [a], rfl, hcalls, List.prefix_refl _, fun _ => rfl⟩
  | some bus =>
      rw [LinkGraph.atItem_some hlink] at ht
      obtain ⟨u, hu, rfl⟩ := Option.map_eq_some_iff.mp ht
      by_cases hr : (callFound found a s).1 < 0
      · rw [checkFunc_failed hpresent hr]
        exact ⟨_, _, [a], rfl, hcalls, List.prefix_append [a] _, fun hr' => absurd hr hr'⟩
      · obtain ⟨r, s', l, hout, hcalls', hpre, hfull⟩ := h bus u hu (callFound found a s).2
        rw [checkFunc_bridge hpresent hr hlink, hout]
        refine ⟨_, s', a :: l, rfl, ?_, List.cons_prefix_cons.mpr ⟨rfl, hpre⟩, ?_⟩
        · rw [hcalls', hcalls, List.append_assoc]
          rfl
        · intro hr'
          have hnonneg : ¬ r < 0 := by
            intro hneg
            rw [if_pos hneg] at hr'
            exact hr' hneg
          rw [hfull hnonneg]
          rfl

/-- `check_bus` follows the walk from the bus. -/
theorem follows_checkBus {depth : Nat} {bus : UInt8} {t : List (Way UInt8 PciDev)}
    (ht : c.graph.trace depth bus = some t) (s : Scan σ) :
    Follows t s (checkBus c found depth bus s) := by
  induction depth generalizing bus t s with
  | zero => cases ht
  | succ depth ih =>
      rw [checkBus_succ]
      refine follows_forEach ?_ ht s
      intro a ha u hu s
      exact follows_checkFunc (fun _ _ hv s => ih hv s) (present_of_mem ha) hu s

variable (found) in
/-- `scan_buses` follows the walk from all buses that it begins with. -/
theorem follows_scanBuses {depth : Nat} {t : List (Way UInt8 PciDev)}
    (ht : c.graph.fullTrace depth = some t) (s : Scan σ) :
    Follows t s (scanBuses c found depth s) := by
  rw [scanBuses_eq]
  refine follows_forEach ?_ ht s
  intro bus _ u hu s
  obtain ⟨v, hv, rfl⟩ := Option.map_eq_some_iff.mp hu
  exact follows_checkBus hv s

/-! ## A scan that ends -/

/-- A loop whose calls do not fail is through when it returns. -/
theorem forEach_through {ι : Type} {f : ι → Scan σ → Option (Int × Scan σ)} {P : ι → Prop}
    {l : List ι} (h : ∀ i ∈ l, ∀ s r s', f i s = some (r, s') → ¬ r < 0 ∧ P i) {s : Scan σ}
    {r : Int} {s' : Scan σ} (hout : forEach f l s = some (r, s')) : ¬ r < 0 ∧ ∀ i ∈ l, P i := by
  induction l generalizing s with
  | nil =>
      cases hout
      exact ⟨by omega, by simp⟩
  | cons i l ih =>
      rw [forEach] at hout
      obtain ⟨⟨q, t⟩, hi, hout⟩ := Option.bind_eq_some_iff.mp hout
      obtain ⟨hq, hPi⟩ := h i List.mem_cons_self s q t hi
      simp only [hq, if_false] at hout
      obtain ⟨hr, hPl⟩ := ih (fun j hj => h j (List.mem_cons_of_mem _ hj)) hout
      refine ⟨hr, ?_⟩
      intro j hj
      rcases List.mem_cons.mp hj with rfl | hj
      · exact hPi
      · exact hPl j hj

/-- When `found_dev` does not fail and `check_bus` returns, the walk from the bus ends. -/
theorem checkBus_through (hfound : ∀ a s, ¬ (callFound found a s).1 < 0) {depth : Nat} {bus : UInt8}
    {s : Scan σ} {r : Int} {s' : Scan σ} (h : checkBus c found depth bus s = some (r, s')) :
    ¬ r < 0 ∧ (c.graph.trace depth bus).isSome := by
  induction depth generalizing bus s r s' with
  | zero => cases h
  | succ depth ih =>
      rw [checkBus_succ] at h
      obtain ⟨hr, hall⟩ := forEach_through
        (P := fun a => (c.graph.atItem (c.graph.trace depth) a).isSome) (by
          intro a ha s r s' hout
          have hpresent := present_of_mem ha
          cases hlink : c.behind a with
          | none =>
              rw [checkFunc_device hpresent (hfound a s) hlink] at hout
              rw [LinkGraph.atItem_none hlink]
              cases hout
              exact ⟨by omega, rfl⟩
          | some bus =>
              rw [checkFunc_bridge hpresent (hfound a s) hlink] at hout
              obtain ⟨⟨q, t⟩, hq, hout⟩ := Option.map_eq_some_iff.mp hout
              obtain ⟨hnonneg, hsome⟩ := ih hq
              cases hout
              rw [LinkGraph.atItem_some hlink, Option.isSome_map, if_neg hnonneg]
              exact ⟨by omega, hsome⟩) h
      obtain ⟨t, ht⟩ := each_isSome hall
      exact ⟨hr, by rw [LinkGraph.trace]; exact Option.isSome_of_eq_some ht⟩

end Walk

instance finite_uInt8 : Finite UInt8 :=
  Finite.of_injective UInt8.toFin fun _ _ h => UInt8.toFin_inj.mp h

/-- A scan that ends and repeats no function shows that no bus has two ways in. -/
theorem Config.OneWay.of_scanEnds {c : Config} (h : ScanEnds c) : c.OneWay := by
  let found : PciDev → Unit → Int × Unit := fun _ s => (0, s)
  obtain ⟨depth, r, s, hout, hnodup⟩ := h Unit found ()
  have hscan := hout depth le_rfl
  rw [scanBuses_eq] at hscan
  obtain ⟨hr, hall⟩ := forEach_through
    (P := fun bus => ((c.graph.trace depth bus).map (Way.root bus :: ·)).isSome) (by
      intro bus _ s r s' hbus
      obtain ⟨hr, hsome⟩ := checkBus_through (fun _ _ => by simp [callFound, found]) hbus
      exact ⟨hr, by rwa [Option.isSome_map]⟩) hscan
  obtain ⟨t, ht⟩ := each_isSome hall
  obtain ⟨r', s', l, hfollows, hcalls, -, hfull⟩ :=
    follows_scanBuses found ht ⟨[], ()⟩
  rw [hout depth le_rfl] at hfollows
  cases hfollows
  rw [List.nil_append] at hcalls
  rw [hcalls, hfull hr] at hnodup
  exact LinkGraph.oneWay_iff.mpr ⟨depth, t, ht, hnodup⟩

/-- The scan ends and finds each function once exactly when no bus with a function has two
ways in. -/
theorem scanEnds_iff (c : Config) : ScanEnds c ↔ c.OneWay := by
  constructor
  · exact .of_scanEnds
  · intro h σ found state
    obtain ⟨depth, t, ht, hnodup⟩ := LinkGraph.oneWay_iff.mp h
    obtain ⟨r, s, l, hout, hcalls, hpre, -⟩ := follows_scanBuses found ht ⟨[], state⟩
    refine ⟨depth, r, s, fun _ hle => scanBuses_le hle hout, ?_⟩
    rw [hcalls, List.nil_append]
    exact hnodup.sublist hpre.sublist

/-- A host bridge in 0:0.0, and in 0:1.0 a bridge whose secondary bus is not set. -/
def unsetBridge : Config := fun a reg =>
  if a = .of 0 0 0 then
    if reg = 0 then 0x12378086 else if reg = 8 then 0x06000000 else 0
  else if a = .of 0 1 0 then
    if reg = 0 then 0x00011B36 else if reg = 8 then 0x06040000 else 0
  else 0xFFFFFFFF

/-- The bridge leads to the bus that it is on. -/
theorem scan_unsetBridge : ¬ ScanEnds unsetBridge := by
  intro h
  have hone := Config.OneWay.of_scanEnds h
  have hbridge : PciDev.of 0 1 0 ∈ unsetBridge.graph.items 0 :=
    Config.mem_funcs.mpr ⟨1, 0, rfl, by decide, by decide⟩
  have hroot : unsetBridge.graph.WayIn (.root 0) 0 :=
    .root (show 0 ∈ unsetBridge.roots by rw [Config.roots, if_pos (by decide)]; simp)
  have hitem : unsetBridge.graph.WayIn (.item (.of 0 1 0)) 0 :=
    .item hroot hbridge (show unsetBridge.behind (.of 0 1 0) = some 0 by decide)
  cases hone 0 (List.ne_nil_of_mem hbridge) _ _ hroot hitem

end StardustOS.Pci
