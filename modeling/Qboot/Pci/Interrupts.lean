import Qboot.Pci.Visits

/-!
Interrupt lines and the interrupt router. hwsetup.c writes an IRQ for each PIRQ
to the router, pci.c computes the PIRQ that a function reaches. The computation
is one PIRQ off, and on Q35 it looks at the slot of the function where the slot
on the root bus decides.
-/

namespace Qboot

open Bytes ByteMemory PciBus

/-! ### The router -/

def PIIX_ISA_PIRQA_ROUT : BitVec 8 := 0x60#8
def ICH9_LPC_PIRQA_ROUT : BitVec 8 := 0x60#8
def ICH9_LPC_PIRQE_ROUT : BitVec 8 := 0x68#8

/-- `setup_piix` of hwsetup.c. -/
def setupPiix : Pci Unit := do
  let bdf : BitVec 32 := 1#32 <<< 3
  pciConfigWriteb bdf PIIX_ISA_PIRQA_ROUT 10#8
  pciConfigWriteb bdf (PIIX_ISA_PIRQA_ROUT + 1#8) 10#8
  pciConfigWriteb bdf (PIIX_ISA_PIRQA_ROUT + 2#8) 11#8
  pciConfigWriteb bdf (PIIX_ISA_PIRQA_ROUT + 3#8) 11#8

/-- `setup_ich9` of hwsetup.c. -/
def setupIch9 : Pci Unit := do
  let bdf : BitVec 32 := 0x1f#32 <<< 3
  pciConfigWriteb bdf ICH9_LPC_PIRQA_ROUT 10#8
  pciConfigWriteb bdf (ICH9_LPC_PIRQA_ROUT + 1#8) 10#8
  pciConfigWriteb bdf (ICH9_LPC_PIRQA_ROUT + 2#8) 11#8
  pciConfigWriteb bdf (ICH9_LPC_PIRQA_ROUT + 3#8) 11#8
  pciConfigWriteb bdf ICH9_LPC_PIRQE_ROUT 10#8
  pciConfigWriteb bdf (ICH9_LPC_PIRQE_ROUT + 1#8) 10#8
  pciConfigWriteb bdf (ICH9_LPC_PIRQE_ROUT + 2#8) 11#8
  pciConfigWriteb bdf (ICH9_LPC_PIRQE_ROUT + 3#8) 11#8

/-- The part of `setup_hw` for the router of the chipset. -/
def setupRouter (i440fx : Bool) : Pci Unit := if i440fx then setupPiix else setupIch9

/-- The ISA bridge of the chipset. -/
def routerDevfn (i440fx : Bool) : DevFn := if i440fx then 0x08#8 else 0xf8#8

/-- The IRQ of a PIRQ (0 to 3 for A to D) after `setup_hw`, on a machine with
the buses `T`. -/
def routedIrq (i440fx : Bool) (T : PciTopology) (pirq : Nat) : BitVec 8 :=
  (StateRun.final (setupRouter i440fx (.initial claimsWithin i440fx T.root))).root.configAt []
    (routerDevfn i440fx) (PIIX_ISA_PIRQA_ROUT + BitVec.ofNat 8 pirq)

/-- A PIRQ has the IRQ 10 or 11. -/
def pirqIrq (pirq : Nat) : BitVec 8 := if pirq < 2 then 10#8 else 11#8

section Router

variable {i440fx : Bool} {config : DevFn → Config} {child : DevFn → PciBus}

/-- The machine with other registers in one function of the root bus. -/
def rootWith (i440fx : Bool) (config : DevFn → Config) (child : DevFn → PciBus) (d : DevFn)
    (c : Config) : PciState :=
  .initial claimsWithin i440fx (.bus (Function.update config d c) child)

theorem pciConfigWriteb_root (d : DevFn) (c : Config) (addr val : BitVec 8) :
    pciConfigWriteb (makeBdf 0#8 d) addr val (rootWith i440fx config child d c) =
      .ok () (rootWith i440fx config child d (store c addr [val])) := by
  have hleads : Leads claimsWithin (bus config child) [] 0#8 fun _ => False :=
    leads_root claimsWithin rfl
  have hstate (c : Config) : rootWith i440fx config child d c =
      (PciState.initial claimsWithin i440fx (.bus config child)).withFunction (.bus config child) []
        config child d c := by
    rw [PciState.withFunction, PciState.withBus, replace_nil]
    rfl
  rw [hstate, hstate]
  exact pciConfigWriteb_here hleads rfl addr val

theorem setupPiix_root (c : Config) : ∃ c', setupPiix (rootWith i440fx config child 0x08#8 c) =
      .ok () (rootWith i440fx config child 0x08#8 c') ∧
    ∀ pirq < 4, c' (PIIX_ISA_PIRQA_ROUT + BitVec.ofNat 8 pirq) = pirqIrq pirq := by
  have hwrite := @pciConfigWriteb_root i440fx config child 0x08#8
  refine ⟨_, (StateRun.bind_of_ok (hwrite c _ _)).trans ((StateRun.bind_of_ok (hwrite _ _ _)).trans
    ((StateRun.bind_of_ok (hwrite _ _ _)).trans (hwrite _ _ _))), ?_⟩
  intro pirq hpirq
  simp only [store_singleton]
  interval_cases pirq <;> rfl

theorem setupIch9_root (c : Config) : ∃ c', setupIch9 (rootWith i440fx config child 0xf8#8 c) =
      .ok () (rootWith i440fx config child 0xf8#8 c') ∧
    ∀ pirq < 4, c' (ICH9_LPC_PIRQA_ROUT + BitVec.ofNat 8 pirq) = pirqIrq pirq ∧
      c' (ICH9_LPC_PIRQE_ROUT + BitVec.ofNat 8 pirq) = pirqIrq pirq := by
  have hwrite := @pciConfigWriteb_root i440fx config child 0xf8#8
  refine ⟨_, (StateRun.bind_of_ok (hwrite c _ _)).trans ((StateRun.bind_of_ok (hwrite _ _ _)).trans
    ((StateRun.bind_of_ok (hwrite _ _ _)).trans ((StateRun.bind_of_ok (hwrite _ _ _)).trans
    ((StateRun.bind_of_ok (hwrite _ _ _)).trans ((StateRun.bind_of_ok (hwrite _ _ _)).trans
    ((StateRun.bind_of_ok (hwrite _ _ _)).trans (hwrite _ _ _))))))), ?_⟩
  intro pirq hpirq
  simp only [store_singleton]
  interval_cases pirq <;> exact ⟨rfl, rfl⟩

theorem routedIrq_eq (i440fx : Bool) (T : PciTopology) {pirq : Nat} (hpirq : pirq < 4) :
    routedIrq i440fx T pirq = pirqIrq pirq := by
  obtain ⟨root, hbus, -⟩ := T
  cases root with
  | absent => cases hbus
  | bus config child =>
    have hstart (d : DevFn) : PciState.initial claimsWithin i440fx (.bus config child) =
        rootWith i440fx config child d (config d) := by
      rw [rootWith, Function.update_eq_self]
    cases i440fx with
    | true =>
      obtain ⟨c', hrun, hirq⟩ := @setupPiix_root true config child (config 0x08#8)
      rw [← hstart] at hrun
      rw [routedIrq, setupRouter, if_pos rfl, hrun, ← hirq pirq hpirq]
      exact congrFun (Function.update_self _ _ _) _
    | false =>
      obtain ⟨c', hrun, hirq⟩ := @setupIch9_root false config child (config 0xf8#8)
      rw [← hstart] at hrun
      rw [routedIrq, setupRouter, if_neg Bool.false_ne_true, hrun, ← (hirq pirq hpirq).1]
      exact congrFun (Function.update_self _ _ _) _

end Router

/-! ### The PIRQ of a function -/

/-- The pin of the bridge in front of a bus that pin `p` of function `d` reaches,
behind the bridges `path` on that bus. INTA is pin 0. -/
def pinBehind : List DevFn → DevFn → Nat → Nat
  | [], d, p => (p + deviceOf d) % 4
  | c :: path, d, p => (pinBehind path d p + deviceOf c) % 4

/-- The PIRQ that pin `p` in a slot of the root bus reaches. -/
def rootPirq (i440fx : Bool) (slot p : Nat) : Nat :=
  if i440fx then (p + slot + 3) % 4 else if slot ≤ 24 then (p + slot) % 4 else p % 4

/-- The PIRQ that pin `p` of function `d` on the bus behind `path` reaches. -/
def pirqOf (i440fx : Bool) : List DevFn → DevFn → Nat → Nat
  | [], d, p => rootPirq i440fx (deviceOf d) p
  | c :: path, d, p => rootPirq i440fx (deviceOf c) (pinBehind path d p)

/-- The slots 25 to 31, which the Q35 router does not add. -/
def farSlot (d : DevFn) : Nat := if deviceOf d ≤ 24 then 0 else deviceOf d

/-- By how much the link that `do_setup_pci_irq` computes is ahead of the PIRQ:
it counts pins from 1, and on Q35 it leaves out the slot of the function where
the router leaves out the slot on the root bus. -/
def linkError (i440fx : Bool) (path : List DevFn) (d : DevFn) : Nat :=
  match i440fx, path with
  | true, _ => 1
  | false, [] => 1
  | false, c :: _ => (1 + farSlot c + (32 - farSlot d)) % 4

/-- The links A and B have one IRQ, C and D the other. -/
def LineAgrees (i440fx : Bool) (path : List DevFn) (d : DevFn) (p : Nat) : Prop :=
  linkError i440fx path d = 0 ∨
    linkError i440fx path d = 1 ∧ pirqOf i440fx path d p % 2 = 0 ∨
    linkError i440fx path d = 3 ∧ pirqOf i440fx path d p % 2 = 1

section Links

variable {i440fx : Bool} {path : List DevFn} {d : DevFn} {p : Nat}

theorem pinBehind_eq (path : List DevFn) (d : DevFn) (p : Nat) :
    pinBehind path d p = (p + deviceOf d + (path.map deviceOf).sum) % 4 := by
  induction path with
  | nil => rfl
  | cons c path ih =>
    rw [pinBehind, ih, List.map_cons, List.sum_cons]
    omega

theorem deviceOf_lt (d : DevFn) : deviceOf d < 32 := by
  have hlt := d.isLt
  rw [deviceOf]
  omega

theorem devWord_sle (d : DevFn) : (devWord d).sle 24#32 = decide (deviceOf d ≤ 24) := by
  revert d
  decide

/-- The link of `do_setup_pci_irq`. -/
theorem toNat_linkOf (addend : BitVec 16) (pin : BitVec 8) :
    (linkOf i440fx addend (devWord d) (pin.setWidth 32)).toNat =
      (addend.toNat + pin.toNat +
        if i440fx then deviceOf d + 3 else if deviceOf d ≤ 24 then deviceOf d else 0) % 4 := by
  have hdev := deviceOf_lt d
  have hword : (devWord d).toNat = deviceOf d := by
    rw [devWord, BitVec.toNat_ofNat]
    omega
  have haddend := addend.isLt
  have hpin := pin.isLt
  have hmask (x : BitVec 32) : (x &&& 3#32).toNat = x.toNat % 4 := by
    rw [BitVec.toNat_and]
    exact Nat.and_two_pow_sub_one_eq_mod _ 2
  rw [linkOf, hmask]
  cases i440fx with
  | true =>
    simp only [if_true, BitVec.toNat_add, BitVec.toNat_sub, BitVec.toNat_setWidth, hword,
      BitVec.toNat_ofNat]
    omega
  | false =>
    simp only [Bool.false_eq_true, if_false, devWord_sle, decide_eq_true_eq]
    split
    · simp only [BitVec.toNat_add, BitVec.toNat_setWidth, hword]
      omega
    · simp only [BitVec.toNat_add, BitVec.toNat_setWidth]
      omega

theorem irqOfLink_eq {lnk : BitVec 32} (hlt : lnk.toNat < 4) :
    irqOfLink lnk = pirqIrq lnk.toNat := by
  have hlnk : lnk = BitVec.ofNat 32 lnk.toNat := by rw [BitVec.ofNat_toNat, BitVec.setWidth_eq]
  rw [hlnk]
  interval_cases lnk.toNat <;> rfl

/-- The link is ahead of the PIRQ by `linkError`. -/
theorem link_eq (path : List DevFn) (d : DevFn) {pin : BitVec 8} (hpin : 1 ≤ pin.toNat) :
    (linkOf i440fx (path.foldl addDevice 0#16) (devWord d) (pin.setWidth 32)).toNat =
      (pirqOf i440fx path d (pin.toNat - 1) + linkError i440fx path d) % 4 := by
  have hdev := deviceOf_lt d
  rw [toNat_linkOf, foldl_addDevice, BitVec.zero_add, BitVec.toNat_ofNat]
  cases i440fx with
  | true =>
    rw [if_pos rfl, linkError]
    cases path with
    | nil =>
      simp only [pirqOf, rootPirq, if_true, List.map_nil, List.sum_nil]
      omega
    | cons c path =>
      simp only [pirqOf, rootPirq, if_true, pinBehind_eq, List.map_cons, List.sum_cons]
      omega
  | false =>
    rw [if_neg Bool.false_ne_true]
    cases path with
    | nil =>
      simp only [pirqOf, rootPirq, linkError, Bool.false_eq_true, if_false, List.map_nil,
        List.sum_nil]
      split <;> omega
    | cons c path =>
      have hroot := deviceOf_lt c
      simp only [pirqOf, rootPirq, linkError, farSlot, Bool.false_eq_true, if_false, pinBehind_eq,
        List.map_cons, List.sum_cons]
      split <;> split <;> omega

theorem pirqOf_lt (path : List DevFn) (d : DevFn) (p : Nat) : pirqOf i440fx path d p < 4 := by
  have hroot (slot p : Nat) : rootPirq i440fx slot p < 4 := by
    rw [rootPirq]
    split
    · omega
    · split <;> omega
  cases path <;> exact hroot _ _

theorem linkError_lt (path : List DevFn) (d : DevFn) : linkError i440fx path d < 4 := by
  unfold linkError
  split <;> omega

/-- Whether the line is right depends on the error and on the PIRQ. -/
theorem irqOfLink_agrees (path : List DevFn) (d : DevFn) {pin : BitVec 8} (hpin : 1 ≤ pin.toNat) :
    irqOfLink (linkOf i440fx (path.foldl addDevice 0#16) (devWord d) (pin.setWidth 32)) =
        pirqIrq (pirqOf i440fx path d (pin.toNat - 1)) ↔
      LineAgrees i440fx path d (pin.toNat - 1) := by
  have hpirq := @pirqOf_lt i440fx path d (pin.toNat - 1)
  have herror := @linkError_lt i440fx path d
  have hcases : ∀ pirq < 4, ∀ error < 4, pirqIrq ((pirq + error) % 4) = pirqIrq pirq ↔
      error = 0 ∨ error = 1 ∧ pirq % 2 = 0 ∨ error = 3 ∧ pirq % 2 = 1 := by decide
  have hlink := @link_eq i440fx path d pin hpin
  rw [irqOfLink_eq (by rw [hlink]; exact Nat.mod_lt _ (by decide)), hlink, LineAgrees]
  exact hcases _ hpirq _ herror

end Links

/-! ### Interrupt lines after the setup -/

/-- The line of a function that the run for the root bus visited. -/
theorem line_of_run {rule : BridgeRule} (hrule : rule.Sound) {i440fx : Bool} {T : PciTopology}
    {k : Nat} {s' : PciState} (hrun : doSetupPciBus k [] (.initial rule i440fx T.root) = .ok () s')
    (honce : (reached s'.entries).Nodup) {path : List DevFn} {d : DevFn}
    (hvisited : (Route.arrives path, d) ∈ s'.calls.map callKey) :
    s'.root.configAt path d PCI_INTERRUPT_LINE =
      irqConfig i440fx (path.foldl addDevice 0#16) d (T.root.configAt path d)
        PCI_INTERRUPT_LINE := by
  have hnext := (ends_iff_nextNumber hrule i440fx T).mp ⟨k, s', hrun, honce⟩
  obtain ⟨s, t', trace, hruns, hdone, -, hlines⟩ := sets_up hrule T.wellFormed T.isBus le_rfl
    _ _ _ _ _ (busReady_initial rule i440fx T) hnext
  obtain rfl := doSetupPciBus_unique hrun hruns
  have hcalls : s'.calls = trace.calls := hdone.calls
  rw [hcalls] at hvisited
  obtain ⟨x, hx, hkey⟩ := List.mem_map.mp hvisited
  obtain ⟨rest, htarget, hline⟩ := hlines x hx
  have hpath : Route.arrives path = .arrives rest := (congrArg Prod.fst hkey).symm.trans htarget
  have hdevfn : x.devfn = d := congrArg Prod.snd hkey
  cases hpath
  subst hdevfn
  rw [hdone.root, replace_nil]
  exact hline

/-- The interrupt line of a function with pin 1 to 4 that had no line before is
the IRQ of the PIRQ it reaches exactly when `LineAgrees` says so. -/
theorem interrupt_line_iff {rule : BridgeRule} (hrule : rule.Sound) (i440fx : Bool)
    (T T₀ : PciTopology) {k : Nat} {s' : PciState}
    (hrun : doSetupPciBus k [] (.initial rule i440fx T.root) = .ok () s')
    (honce : (reached s'.entries).Nodup) {path : List DevFn} {d : DevFn}
    (hvisited : (Route.arrives path, d) ∈ s'.calls.map callKey) {pin : BitVec 8}
    (hpin : T.root.configAt path d PCI_INTERRUPT_PIN = pin) (hone : 1 ≤ pin.toNat)
    (hline : T.root.configAt path d PCI_INTERRUPT_LINE = 0#8) :
    s'.root.configAt path d PCI_INTERRUPT_LINE =
        routedIrq i440fx T₀ (pirqOf i440fx path d (pin.toNat - 1)) ↔
      LineAgrees i440fx path d (pin.toNat - 1) := by
  have hpinned : ¬ T.root.configAt path d PCI_INTERRUPT_PIN = 0#8 := by
    rw [hpin]
    rintro rfl
    exact absurd hone (by decide)
  rw [line_of_run hrule hrun honce hvisited, routedIrq_eq i440fx T₀ (pirqOf_lt path d _),
    ← irqOfLink_agrees path d hone, irqConfig, if_neg hpinned, if_neg (not_not_intro hline),
    store_singleton, Function.update_self, hpin]

/-! ### A device in slot 2 -/

/-- A root bus with a device in slot 2 that uses INTA. -/
def deviceConfig : DevFn → Config := fun d a =>
  if d ≠ 16#8 then 0xff#8
  else if a = PCI_VENDOR_ID then 0x36#8
  else if a = PCI_VENDOR_ID + 1#8 then 0x1b#8
  else if a = PCI_INTERRUPT_PIN then 1#8
  else 0#8

def deviceRoot : PciBus := .bus deviceConfig fun _ => .absent

def deviceTopology : PciTopology where
  root := deviceRoot
  isBus := rfl
  wellFormed := ⟨by decide +kernel, fun _ => trivial⟩

theorem scanOrder_device : scanOrder deviceConfig = [16#8] := by decide +kernel

theorem bridgeOrder_device : bridgeOrder deviceConfig = [] := by decide +kernel

/-- The run for a tree of found bridges returns, having set up what is found. -/
theorem run_visits (i440fx : Bool) (T : PciTopology) (hfound : T.root.Found)
    (hcount : T.root.busCount ≤ 256) : ∃ k s',
    doSetupPciBus k [] (.initial claimsWithin i440fx T.root) = .ok () s' ∧
      (reached s'.entries).Nodup ∧ s'.calls = T.root.setupCalls [] 0 0#16 := by
  obtain ⟨k, s', hrun, honce⟩ := (ends_iff_nextNumber claimsWithin_sound i440fx T).mpr
    ((nextNumber_iff_busCount hfound).mpr hcount)
  obtain ⟨s, hruns, -, -, -, hcalls⟩ := run_of_found i440fx T hfound hcount
  obtain rfl := doSetupPciBus_unique hrun hruns
  exact ⟨k, s', hrun, honce, hcalls⟩

theorem found_deviceRoot : deviceRoot.Found :=
  ⟨fun _ hbus => absurd hbus Bool.false_ne_true, fun _ => trivial⟩

theorem run_device (i440fx : Bool) : ∃ k s',
    doSetupPciBus k [] (.initial claimsWithin i440fx deviceTopology.root) = .ok () s' ∧
      (reached s'.entries).Nodup ∧ (Route.arrives [], 16#8) ∈ s'.calls.map callKey := by
  obtain ⟨k, s', hrun, honce, hcalls⟩ :=
    run_visits i440fx deviceTopology found_deviceRoot (by decide +kernel)
  refine ⟨k, s', hrun, honce, ?_⟩
  rw [hcalls]
  change _ ∈ (deviceRoot.setupCalls [] 0 0#16).map callKey
  rw [deviceRoot, PciBus.setupCalls, scanOrder_device, bridgeOrder_device]
  exact List.mem_singleton_self _

/-- The device behind a bridge in slot 1. -/
def behindTopology : PciTopology where
  root := busWith [8#8] fun _ => deviceRoot
  isBus := rfl
  wellFormed := wellFormed_busWith (fun _ _ => rfl) fun _ _ => deviceTopology.wellFormed

/-- It gets the IRQ of the PIRQ that INTA of slot 2 behind slot 1 goes to. -/
theorem device_line : ∃ k s',
    doSetupPciBus k [] (.initial claimsWithin true behindTopology.root) = .ok () s' ∧
      s'.root.configAt [8#8] 16#8 PCI_INTERRUPT_LINE =
        routedIrq true behindTopology (pirqOf true [8#8] 16#8 0) := by
  obtain ⟨k, s', hrun, honce, hcalls⟩ :=
    run_visits true behindTopology (found_one found_deviceRoot) (by decide +kernel)
  have hvisible : Visible (behindTopology.root.configAt [8#8]) 16#8 :=
    ⟨by decide +kernel, by decide +kernel, .inl rfl⟩
  have hvisited : (Route.arrives [8#8], 16#8) ∈ s'.calls.map callKey := by
    rw [hcalls]
    exact List.mem_map.mpr ⟨_, (mem_setupCalls (found_one found_deviceRoot)).mpr
      ⟨[8#8], 16#8, rfl, hvisible, rfl⟩, rfl⟩
  exact ⟨k, s', hrun, (interrupt_line_iff claimsWithin_sound true behindTopology behindTopology hrun
    honce hvisited (rfl : _ = 1#8) (by decide) rfl).mpr (.inr (.inl ⟨rfl, by decide +kernel⟩))⟩

/-- The device gets IRQ 11, while PIRQ B is routed to IRQ 10. -/
theorem lines_not_always_agree : ¬ ∀ (i440fx : Bool) (T T₀ : PciTopology) (k : Nat) (s' : PciState)
    (path : List DevFn) (d : DevFn) (pin : BitVec 8),
    doSetupPciBus k [] (.initial claimsWithin i440fx T.root) = .ok () s' →
    (reached s'.entries).Nodup → (Route.arrives path, d) ∈ s'.calls.map callKey →
    T.root.configAt path d PCI_INTERRUPT_PIN = pin → 1 ≤ pin.toNat → pin.toNat ≤ 4 →
    T.root.configAt path d PCI_INTERRUPT_LINE = 0#8 →
    s'.root.configAt path d PCI_INTERRUPT_LINE =
      routedIrq i440fx T₀ (pirqOf i440fx path d (pin.toNat - 1)) := by
  intro h
  obtain ⟨k, s', hrun, honce, hvisited⟩ := run_device true
  have hline := h true deviceTopology deviceTopology k s' [] 16#8 1#8 hrun honce hvisited rfl
    (by decide) (by decide) rfl
  rw [line_of_run claimsWithin_sound hrun honce hvisited,
    routedIrq_eq true deviceTopology (pirqOf_lt [] _ _)] at hline
  exact absurd hline (by decide +kernel)

end Qboot
