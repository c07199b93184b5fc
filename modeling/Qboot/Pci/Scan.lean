import Qboot.Pci.Function

/-!
What `pci_foreach` does to a bus. The functions that it visits are known
before: only identity, class and header type decide, and the setup of a
function changes none of them.
-/

namespace Qboot

open Bytes ByteMemory PciBus

/-- The vendor is neither 0x0000 nor 0xFFFF. -/
def isPresent (c : Config) : Bool := ¬ ((idOf c).setWidth 16 + 1#16 : BitVec 16) ≤ 1#16

def isMultiFunction (c : Config) : Bool :=
  c PCI_HEADER_TYPE &&& PCI_HEADER_TYPE_MULTI_FUNCTION ≠ 0#8

/-- The functions that the inner loop visits, of the `n` functions of device
`d` from `f` on. -/
def functionsFrom (config : DevFn → Config) (d f : Nat) : Nat → List DevFn
  | 0 => []
  | n + 1 =>
    let df := functionOf d f
    if isPresent (config df) then
      df :: if f = 0 ∧ isMultiFunction (config df) = false then []
        else functionsFrom config d (f + 1) n
    else if f = 0 then [] else functionsFrom config d (f + 1) n

/-- The functions of a bus that `pci_foreach` visits, in its order. -/
def scanOrder (config : DevFn → Config) : List DevFn :=
  (List.range 32).flatMap fun d => functionsFrom config d 0 8

/-- The registers of a bus and the list of its bridges, while it is scanned. -/
structure Scan where
  config : DevFn → Config
  head : DevFn
  count : Nat

/-- The visit of function `d` of bus `b`. -/
def Scan.visit (i440fx : Bool) (addend : BitVec 16) (b : BitVec 8) (σ : Scan) (d : DevFn) : Scan where
  config := Function.update σ.config d (setupConfig i440fx addend b σ.head d (σ.config d))
  head := if isBridgeClass (σ.config d) then d else σ.head
  count := if isBridgeClass (σ.config d) then σ.count + 1 else σ.count

/-! ### The visited functions -/

section Header

variable {config config' : DevFn → Config}

theorem SameHeader.present {c c' : Config} (h : SameHeader c c') : isPresent c' = isPresent c := by
  rw [isPresent, isPresent, h.id]

theorem SameHeader.multiFunction {c c' : Config} (h : SameHeader c c') :
    isMultiFunction c' = isMultiFunction c := by
  rw [isMultiFunction, isMultiFunction, h.type]

theorem functionsFrom_congr (h : ∀ x, SameHeader (config x) (config' x)) (d f n : Nat) :
    functionsFrom config' d f n = functionsFrom config d f n := by
  induction n generalizing f with
  | zero => rfl
  | succ n ih =>
    simp only [functionsFrom, (h (functionOf d f)).present, (h (functionOf d f)).multiFunction,
      ih (f + 1)]

end Header

section Visit

variable (i440fx : Bool) (addend : BitVec 16) (b : BitVec 8) (σ : Scan)

theorem sameHeader_visit (d x : DevFn) :
    SameHeader (σ.config x) ((σ.visit i440fx addend b d).config x) := by
  by_cases hx : x = d
  · subst hx
    simpa [Scan.visit] using sameHeader_setupConfig i440fx addend b σ.head x (σ.config x)
  · simpa [Scan.visit, Function.update_of_ne hx] using SameHeader.refl (σ.config x)

theorem sameHeader_visits (ds : List DevFn) (x : DevFn) :
    SameHeader (σ.config x) ((ds.foldl (Scan.visit i440fx addend b) σ).config x) := by
  induction ds generalizing σ with
  | nil => exact SameHeader.refl _
  | cons d ds ih => exact (sameHeader_visit i440fx addend b σ d x).trans (ih _)

end Visit

/-! ### The loops -/

/-- The state while the bus behind `path` is scanned. -/
def PciState.scanning (s : PciState) (root : PciBus) (path : List DevFn) (child : DevFn → PciBus)
    (σ : Scan) (visits : List DevFn) : PciState :=
  { s with
    root := root.replace path (.bus σ.config child)
    bridgeHead := σ.head
    bridgeCount := σ.count
    calls := s.calls ++ visits.map fun d =>
      { target := .arrives path, devfn := d, bus := s.bus, addend := s.addend } }

section Loops

variable {s : PciState} {root : PciBus} {path : List DevFn} {b : BitVec 8}
  {blocked : BitVec 8 → Prop} {child : DevFn → PciBus} {σ : Scan} {visits : List DevFn}

/-- The static variables while the bus is scanned. -/
def PciState.counting (s : PciState) (path : List DevFn) (σ : Scan) (visits : List DevFn) :
    PciState :=
  { s with
    bridgeHead := σ.head
    bridgeCount := σ.count
    calls := s.calls ++ visits.map fun d =>
      { target := .arrives path, devfn := d, bus := s.bus, addend := s.addend } }

theorem scanning_eq (d : DevFn) : s.scanning root path child σ visits =
    (s.counting path σ visits).withFunction root path σ.config child d (σ.config d) :=
  (withFunction_self (s := s.counting path σ visits)).symm

/-- A visit of a function whose header was just read. -/
theorem doSetupPci_scanning (h : Leads s.rule root path b blocked) (hassigned : s.assigned b = path)
    (hbus : s.bus = b) (d : DevFn) :
    doSetupPci (makeBdf b d) (idOf (σ.config d)) (σ.config d PCI_HEADER_TYPE)
      (s.scanning root path child σ visits) =
      .ok () (s.scanning root path child (σ.visit s.useI440fxRouting s.addend b d)
        (visits ++ [d])) := by
  rw [scanning_eq d, doSetupPci_here (s := s.counting path σ visits) h hassigned hbus]
  simp [PciState.counting, PciState.visited, PciState.withFunction, PciState.withBus,
    PciState.scanning, Scan.visit]

theorem foreachFunction_here (h : Leads s.rule root path b blocked)
    (hassigned : s.assigned b = path) (hbus : s.bus = b) {d : Nat} (hd : d < 32) {f n : Nat}
    (hf : f + n ≤ 8) :
    foreachFunction doSetupPci d f n (s.scanning root path child σ visits) =
      .ok () (s.scanning root path child
        ((functionsFrom σ.config d f n).foldl (Scan.visit s.useI440fxRouting s.addend b) σ)
        (visits ++ functionsFrom σ.config d f n)) := by
  induction n generalizing f σ visits with
  | zero => simp [foreachFunction, functionsFrom]
  | succ n ih =>
    have hbdf : functionBdf (s.scanning root path child σ visits).bus d f =
        makeBdf b (functionOf d f) := by
      rw [show (s.scanning root path child σ visits).bus = b from hbus]
      exact functionBdf_eq b hd (by omega)
    have hid : pciConfigReadl (makeBdf b (functionOf d f)) PCI_VENDOR_ID
        (s.scanning root path child σ visits) =
        .ok (idOf (σ.config (functionOf d f))) (s.scanning root path child σ visits) := by
      rw [scanning_eq (functionOf d f)]
      exact pciConfigReadl_here (s := s.counting path σ visits) h hassigned
        (by decide : PCI_VENDOR_ID &&& 0xfc#8 = PCI_VENDOR_ID)
    have htype : pciConfigReadb (makeBdf b (functionOf d f)) PCI_HEADER_TYPE
        (s.scanning root path child σ visits) =
        .ok (σ.config (functionOf d f) PCI_HEADER_TYPE) (s.scanning root path child σ visits) := by
      rw [scanning_eq (functionOf d f)]
      exact pciConfigReadb_here (s := s.counting path σ visits) h hassigned _
    rw [foreachFunction, StateRun.bind_of_ok (StateRun.get_apply _), hbdf,
      StateRun.bind_of_ok hid, functionsFrom]
    by_cases hpresent : isPresent (σ.config (functionOf d f)) = true
    · have hvendor : ¬ ((idOf (σ.config (functionOf d f))).setWidth 16 + 1#16 : BitVec 16) ≤
          1#16 := of_decide_eq_true hpresent
      have hvisit := @doSetupPci_scanning s root path b blocked child σ visits h hassigned hbus
        (functionOf d f)
      rw [if_neg hvendor, StateRun.bind_of_ok htype, StateRun.bind_of_ok hvisit]
      simp only [hpresent, if_true]
      by_cases hsingle : f = 0 ∧ isMultiFunction (σ.config (functionOf d f)) = false
      · have hbit : f = 0 ∧ σ.config (functionOf d f) PCI_HEADER_TYPE &&&
            PCI_HEADER_TYPE_MULTI_FUNCTION = 0#8 :=
          ⟨hsingle.1, not_not.mp (of_decide_eq_false hsingle.2)⟩
        rw [if_pos hbit, if_pos hsingle]
        rfl
      · have hbit : ¬ (f = 0 ∧ σ.config (functionOf d f) PCI_HEADER_TYPE &&&
            PCI_HEADER_TYPE_MULTI_FUNCTION = 0#8) :=
          fun hb => hsingle ⟨hb.1, decide_eq_false (not_not_intro hb.2)⟩
        have hrest := @ih (σ.visit s.useI440fxRouting s.addend b (functionOf d f))
          (visits ++ [functionOf d f]) (f + 1) (by omega)
        rw [functionsFrom_congr (sameHeader_visit _ _ _ σ _)] at hrest
        rw [if_neg hbit, if_neg hsingle, hrest]
        simp
    · have hvendor : ((idOf (σ.config (functionOf d f))).setWidth 16 + 1#16 : BitVec 16) ≤
          1#16 := by
        by_contra hne
        exact hpresent (decide_eq_true hne)
      rw [if_pos hvendor]
      simp only [hpresent]
      by_cases hzero : f = 0
      · rw [if_pos hzero]
        simp [hzero]
      · rw [if_neg hzero, @ih σ visits (f + 1) (by omega)]
        simp [hzero]

theorem foreachDevices_here (h : Leads s.rule root path b blocked)
    (hassigned : s.assigned b = path) (hbus : s.bus = b) {ds : List Nat} (hds : ∀ d ∈ ds, d < 32) :
    forM ds (fun d => foreachFunction doSetupPci d 0 8) (s.scanning root path child σ visits) =
      .ok () (s.scanning root path child
        ((ds.flatMap fun d => functionsFrom σ.config d 0 8).foldl
          (Scan.visit s.useI440fxRouting s.addend b) σ)
        (visits ++ ds.flatMap fun d => functionsFrom σ.config d 0 8)) := by
  induction ds generalizing σ visits with
  | nil => simp
  | cons d ds ih =>
    have hdevice := @foreachFunction_here s root path b blocked child σ visits h hassigned hbus d
      (hds d (by simp)) 0 8 (by decide)
    have hrest := @ih ((functionsFrom σ.config d 0 8).foldl
      (Scan.visit s.useI440fxRouting s.addend b) σ) (visits ++ functionsFrom σ.config d 0 8)
      fun e he => hds e (by simp [he])
    simp only [functionsFrom_congr (sameHeader_visits _ _ _ σ _)] at hrest
    rw [List.forM_cons, StateRun.bind_of_ok hdevice, hrest]
    simp

/-- The scan of a bus: the functions in `scanOrder` are set up one after the
other. -/
theorem pciForeach_here (h : Leads s.rule root path b blocked) (hassigned : s.assigned b = path)
    (hbus : s.bus = b) :
    pciForeach doSetupPci (s.scanning root path child σ []) =
      .ok () (s.scanning root path child
        ((scanOrder σ.config).foldl (Scan.visit s.useI440fxRouting s.addend b) σ)
        (scanOrder σ.config)) :=
  foreachDevices_here h hassigned hbus fun _ hd => List.mem_range.mp hd

end Loops

/-! ### A bus that cycles do not reach -/

section Lost

variable {fn : BitVec 32 → BitVec 32 → BitVec 8 → Pci Unit} {s : PciState}

/-- The first function of a device reads as ones, so that the others are not
looked for. -/
theorem foreachFunction_lost (hlost : ∀ q, route s.rule s.root s.bus ≠ .arrives q) {d : Nat}
    (hd : d < 32) :
    foreachFunction fn d 0 8 s = .ok () { s with strays := s.strays ++ [s.bus] } := by
  have hbus : busOf (functionBdf s.bus d 0) = s.bus := by
    rw [functionBdf_eq s.bus hd (by decide), busOf_makeBdf]
  have hread := @pciConfigReadl_lost s (functionBdf s.bus d 0) (by rwa [hbus]) PCI_VENDOR_ID
  have hones : ((0xffffffff#32).setWidth 16 + 1#16 : BitVec 16) ≤ 1#16 := by decide
  rw [hbus] at hread
  rw [foreachFunction, StateRun.bind_of_ok (StateRun.get_apply _), StateRun.bind_of_ok hread,
    if_pos hones, if_pos rfl]
  rfl

theorem foreachDevices_lost (hlost : ∀ q, route s.rule s.root s.bus ≠ .arrives q) {ds : List Nat}
    (hds : ∀ d ∈ ds, d < 32) :
    forM ds (fun d => foreachFunction fn d 0 8) s =
      .ok () { s with strays := s.strays ++ List.replicate ds.length s.bus } := by
  induction ds generalizing s with
  | nil => simp
  | cons d ds ih =>
    have hrest := @ih { s with strays := s.strays ++ [s.bus] } hlost
      fun e he => hds e (by simp [he])
    rw [List.forM_cons, StateRun.bind_of_ok (foreachFunction_lost hlost (hds d (by simp))), hrest]
    simp [List.replicate_succ]

/-- A scan that finds nothing. -/
theorem pciForeach_lost (hlost : ∀ q, route s.rule s.root s.bus ≠ .arrives q) :
    pciForeach fn s = .ok () { s with strays := s.strays ++ List.replicate 32 s.bus } := by
  have h := @foreachDevices_lost fn s hlost (List.range 32) fun _ hd => List.mem_range.mp hd
  rwa [List.length_range] at h

end Lost

/-! ### The order of a scan -/

section Order

variable {config : DevFn → Config} {x : DevFn} {d f n : Nat}

theorem toNat_functionOf (hd : d < 32) (hf : f < 8) : (functionOf d f).toNat = d * 8 + f := by
  rw [functionOf, BitVec.toNat_ofNat]
  omega

/-- From the second function on, every function that is there is visited. -/
theorem mem_functionsFrom_succ : x ∈ functionsFrom config d (f + 1) n ↔
    ∃ k, f + 1 ≤ k ∧ k < f + 1 + n ∧ x = functionOf d k ∧ isPresent (config x) = true := by
  induction n generalizing f with
  | zero =>
    simp only [functionsFrom, List.not_mem_nil, false_iff]
    rintro ⟨k, hlo, hhi, -⟩
    omega
  | succ n ih =>
    have hstep : x ∈ functionsFrom config d (f + 1) (n + 1) ↔
        (x = functionOf d (f + 1) ∧ isPresent (config x) = true) ∨
          x ∈ functionsFrom config d (f + 1 + 1) n := by
      rw [functionsFrom]
      by_cases hpresent : isPresent (config (functionOf d (f + 1))) = true
      · simp only [hpresent, if_true, Nat.succ_ne_zero, false_and, if_false, List.mem_cons]
        constructor
        · rintro (rfl | hx)
          · exact Or.inl ⟨rfl, hpresent⟩
          · exact Or.inr hx
        · rintro (⟨rfl, -⟩ | hx)
          · exact Or.inl rfl
          · exact Or.inr hx
      · simp only [hpresent, if_false, Nat.succ_ne_zero]
        constructor
        · exact Or.inr
        · rintro (⟨rfl, hx⟩ | hx)
          · exact absurd hx hpresent
          · exact hx
    rw [hstep, ih]
    constructor
    · rintro (⟨rfl, hx⟩ | ⟨k, hlo, hhi, rfl, hx⟩)
      · exact ⟨f + 1, le_rfl, by omega, rfl, hx⟩
      · exact ⟨k, by omega, by omega, rfl, hx⟩
    · rintro ⟨k, hlo, hhi, rfl, hx⟩
      obtain rfl | hlt := Nat.eq_or_lt_of_le hlo
      · exact Or.inl ⟨rfl, hx⟩
      · exact Or.inr ⟨k, hlt, by omega, rfl, hx⟩

/-- A function that `pci_foreach` visits: it is there, function 0 of its
device is there, and it is function 0 or that one is multi-function. -/
def Visible (config : DevFn → Config) (x : DevFn) : Prop :=
  isPresent (config x) = true ∧ isPresent (config (functionOf (deviceOf x) 0)) = true ∧
    (x.toNat % 8 = 0 ∨ isMultiFunction (config (functionOf (deviceOf x) 0)) = true)

theorem mem_functionsFrom_zero (hd : d < 32) :
    x ∈ functionsFrom config d 0 8 ↔ Visible config x ∧ deviceOf x = d := by
  have hunfold : x ∈ functionsFrom config d 0 8 ↔ isPresent (config (functionOf d 0)) = true ∧
      (x = functionOf d 0 ∨ isMultiFunction (config (functionOf d 0)) = true ∧
        x ∈ functionsFrom config d 1 7) := by
    rw [functionsFrom]
    by_cases hpresent : isPresent (config (functionOf d 0)) = true
    · by_cases hmulti : isMultiFunction (config (functionOf d 0)) = true
      · simp [hpresent, hmulti]
      · simp [hpresent, hmulti]
    · simp [hpresent]
  rw [hunfold, mem_functionsFrom_succ, Visible]
  constructor
  · rintro ⟨hzero, rfl | ⟨hmulti, k, hlo, hhi, rfl, hx⟩⟩
    · have hnat := @toNat_functionOf d 0 hd (by decide)
      have hdev : deviceOf (functionOf d 0) = d := by
        rw [deviceOf, hnat]
        omega
      rw [hdev]
      exact ⟨⟨hzero, hzero, Or.inl (by rw [hnat]; omega)⟩, rfl⟩
    · have hdev : deviceOf (functionOf d k) = d := by
        rw [deviceOf, toNat_functionOf hd (by omega)]
        omega
      rw [hdev]
      exact ⟨⟨hx, hzero, Or.inr hmulti⟩, rfl⟩
  · rintro ⟨⟨hx, hzero, hfunction⟩, rfl⟩
    have hself : x = functionOf (deviceOf x) (x.toNat % 8) := by
      apply BitVec.eq_of_toNat_eq
      rw [toNat_functionOf hd (Nat.mod_lt _ (by decide)), deviceOf]
      omega
    refine ⟨hzero, ?_⟩
    by_cases hfirst : x.toNat % 8 = 0
    · left
      rw [hfirst] at hself
      exact hself
    · exact Or.inr ⟨hfunction.resolve_left hfirst, x.toNat % 8, by omega,
        by omega, hself, hx⟩

theorem mem_scanOrder : x ∈ scanOrder config ↔ Visible config x := by
  have hlt : deviceOf x < 32 := by
    have := x.isLt
    rw [deviceOf]
    omega
  rw [scanOrder, List.mem_flatMap]
  constructor
  · rintro ⟨d, hd, hx⟩
    exact ((mem_functionsFrom_zero (List.mem_range.mp hd)).mp hx).1
  · intro hx
    exact ⟨deviceOf x, List.mem_range.mpr hlt, (mem_functionsFrom_zero hlt).mpr ⟨hx, rfl⟩⟩

theorem nodup_functionsFrom (hd : d < 32) (hf : f + n ≤ 8) :
    (functionsFrom config d f n).Nodup := by
  induction n generalizing f with
  | zero => exact List.nodup_nil
  | succ n ih =>
    have hrest := ih (show f + 1 + n ≤ 8 by omega)
    have hnew : functionOf d f ∉ functionsFrom config d (f + 1) n := by
      rw [mem_functionsFrom_succ]
      rintro ⟨k, hlo, hhi, heq, -⟩
      have hnat := congrArg BitVec.toNat heq
      rw [toNat_functionOf hd (by omega), toNat_functionOf hd (by omega)] at hnat
      omega
    rw [functionsFrom]
    split
    · split
      · exact List.nodup_singleton _
      · exact List.nodup_cons.mpr ⟨hnew, hrest⟩
    · split
      · exact List.nodup_nil
      · exact hrest

theorem nodup_scanOrder (config : DevFn → Config) : (scanOrder config).Nodup := by
  refine List.nodup_flatMap.mpr ⟨fun d hd => nodup_functionsFrom (List.mem_range.mp hd) le_rfl, ?_⟩
  refine List.Pairwise.imp_of_mem ?_ List.nodup_range
  intro d e hd he hne x hxd hxe
  have hxd' := ((mem_functionsFrom_zero (List.mem_range.mp hd)).mp hxd).2
  have hxe' := ((mem_functionsFrom_zero (List.mem_range.mp he)).mp hxe).2
  exact hne (hxd'.symm.trans hxe')

end Order

end Qboot
