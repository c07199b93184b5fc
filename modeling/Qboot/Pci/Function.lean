import Qboot.Pci.Setup

/-!
What the setup code does to one function: its registers afterwards as a
function of its registers before. The code reaches the function by cycles for
the bus number; the lemmas hold for every bus that such cycles lead to.
-/

namespace Qboot

open Bytes ByteMemory PciBus

/-! ### Bus, device and function numbers -/

theorem toNat_makeBdf (b : BitVec 8) (d : DevFn) :
    (makeBdf b d).toNat = b.toNat * 256 + d.toNat := by
  have hb := b.isLt
  have hd := d.isLt
  simp only [makeBdf, BitVec.toNat_add, BitVec.toNat_mul, BitVec.toNat_setWidth, BitVec.toNat_ofNat]
  omega

@[simp] theorem busOf_makeBdf (b : BitVec 8) (d : DevFn) : busOf (makeBdf b d) = b := by
  have hb := b.isLt
  have hd := d.isLt
  apply BitVec.eq_of_toNat_eq
  simp only [busOf, BitVec.toNat_setWidth, BitVec.toNat_ushiftRight, toNat_makeBdf,
    Nat.shiftRight_eq_div_pow]
  omega

@[simp] theorem devfnOf_makeBdf (b : BitVec 8) (d : DevFn) : devfnOf (makeBdf b d) = d := by
  have hb := b.isLt
  have hd := d.isLt
  apply BitVec.eq_of_toNat_eq
  simp only [devfnOf, BitVec.toNat_setWidth, toNat_makeBdf]
  omega

/-- The device number of a function. -/
def deviceOf (d : DevFn) : Nat := d.toNat / 8

theorem toNat_devOf_makeBdf (b : BitVec 8) (d : DevFn) :
    (devOf (makeBdf b d)).toNat = deviceOf d := by
  have hb := b.isLt
  have hd := d.isLt
  have hmask : ∀ x : Nat, x &&& 31 = x % 32 := fun x => Nat.and_two_pow_sub_one_eq_mod x 5
  simp only [devOf, deviceOf, BitVec.toNat_and, BitVec.toNat_ushiftRight, toNat_makeBdf,
    Nat.shiftRight_eq_div_pow, BitVec.toNat_ofNat, hmask]
  omega

/-- The bridges and functions of one device are adjacent. -/
def functionOf (d f : Nat) : DevFn := BitVec.ofNat 8 (d * 8 + f)

theorem functionBdf_eq (b : BitVec 8) {d f : Nat} (hd : d < 32) (hf : f < 8) :
    functionBdf b d f = makeBdf b (functionOf d f) := by
  have hb := b.isLt
  apply BitVec.eq_of_toNat_eq
  rw [toNat_makeBdf]
  simp only [functionBdf, functionOf, BitVec.toNat_add, BitVec.toNat_mul, BitVec.toNat_setWidth,
    BitVec.toNat_ofNat]
  omega

/-! ### The registers afterwards -/

/-- The first four bytes: vendor and device. -/
def idOf (c : Config) : BitVec 32 := BitVec.ofNat 32 (ofLE (load c PCI_VENDOR_ID 4))

def classOf (c : Config) : BitVec 16 := BitVec.ofNat 16 (ofLE (load c PCI_CLASS_DEVICE 2))

/-- The device number as `do_setup_pci_irq` computes it. -/
def devWord (d : DevFn) : BitVec 32 := BitVec.ofNat 32 (deviceOf d)

/-- `do_setup_pci_irq` for a function with an interrupt pin. -/
def irqConfig (i440fx : Bool) (addend : BitVec 16) (d : DevFn) (c : Config) : Config :=
  if c PCI_INTERRUPT_PIN = 0#8 then c
  else if c PCI_INTERRUPT_LINE ≠ 0#8 then c
  else store c PCI_INTERRUPT_LINE
    [irqOfLink (linkOf i440fx addend (devWord d) ((c PCI_INTERRUPT_PIN).setWidth 32))]

def controlConfig (c : Config) : Config :=
  if c PCI_HEADER_TYPE &&& PCI_HEADER_TYPE_BRIDGE = 0#8 then c
  else store c PCI_BRIDGE_CONTROL (toLE 2
    (BitVec.ofNat 16 (ofLE (load c PCI_BRIDGE_CONTROL 2)) ||| PCI_BRIDGE_CTL_SERR).toNat)

def ideConfig (id : BitVec 32) (c : Config) : Config :=
  let c := store (store (store (store c 0x10#8 (toLE 4 0x1f0)) 0x14#8 (toLE 4 0x3f4))
    0x18#8 (toLE 4 0x170)) 0x1c#8 (toLE 4 0x374)
  if id = PCI_VENDOR_ID_INTEL ||| PCI_DEVICE_ID_INTEL_82371SB_1 <<< 16 ∨
      id = PCI_VENDOR_ID_INTEL ||| PCI_DEVICE_ID_INTEL_82371AB <<< 16 then
    store (store c 0x40#8 (toLE 2 0x8000)) 0x42#8 (toLE 2 0x8000)
  else c

/-- A bridge with its bus number registers. -/
def bridgeConfig (primary secondary subordinate : BitVec 8) (c : Config) : Config :=
  store (store (store c PCI_PRIMARY_BUS [primary]) PCI_SUBORDINATE_BUS [subordinate])
    PCI_SECONDARY_BUS [secondary]

def isBridgeClass (c : Config) : Bool := classOf c = PCI_CLASS_BRIDGE_PCI

/-- The last part of `do_setup_pci`; `head` is `bridge_head`. -/
def classConfig (b : BitVec 8) (head : DevFn) (id : BitVec 32) (c : Config) : Config :=
  if classOf c = PCI_CLASS_STORAGE_IDE then ideConfig id c
  else if isBridgeClass c then bridgeConfig b head 0#8 c
  else c

/-- `do_setup_pci` for function `d` of bus `b`. -/
def setupConfig (i440fx : Bool) (addend : BitVec 16) (b : BitVec 8) (head d : DevFn) (c : Config) :
    Config :=
  classConfig b head (idOf c) (controlConfig (irqConfig i440fx addend d c))

/-! ### Cycles that arrive -/

/-- The state with another bus behind `path`. -/
def PciState.withBus (s : PciState) (root : PciBus) (path : List DevFn) (config : DevFn → Config)
    (child : DevFn → PciBus) : PciState :=
  { s with root := root.replace path (.bus config child) }

/-- The state with other registers in one function of the bus behind `path`. -/
def PciState.withFunction (s : PciState) (root : PciBus) (path : List DevFn)
    (config : DevFn → Config) (child : DevFn → PciBus) (d : DevFn) (c : Config) : PciState :=
  s.withBus root path (Function.update config d c) child

section Here

variable {s : PciState} {root : PciBus} {path : List DevFn} {b : BitVec 8}
  {blocked : BitVec 8 → Prop} {config : DevFn → Config} {child : DevFn → PciBus} {d : DevFn}
  {c : Config}

theorem withFunction_self :
    s.withFunction root path config child d (config d) = s.withBus root path config child := by
  rw [PciState.withFunction, Function.update_eq_self]

theorem configCycle_here (h : Leads s.rule root path b blocked) (hassigned : s.assigned b = path)
    {bdf : BitVec 32} (hb : busOf bdf = b) :
    configCycle bdf (s.withBus root path config child) =
      .ok (.arrives path) (s.withBus root path config child) := by
  have hroute : route (s.withBus root path config child).rule
      (s.withBus root path config child).root (busOf bdf) = .arrives path := by
    rw [hb]
    exact h.here _ rfl
  have hhere : (s.withBus root path config child).assigned (busOf bdf) = path := by
    rw [hb]
    exact hassigned
  simp only [configCycle, StateRun.modifyGet_apply, hroute, hhere, if_true]

theorem pciConfigRead_here (h : Leads s.rule root path b blocked) (hassigned : s.assigned b = path)
    (addr : BitVec 8) (n : Nat) :
    pciConfigRead (makeBdf b d) addr n (s.withFunction root path config child d c) =
      .ok (load c addr n) (s.withFunction root path config child d c) := by
  have hconfig : (s.withFunction root path config child d c).root.configAt path d = c :=
    (configAt_replace h.isBus).trans (Function.update_self d c config)
  rw [pciConfigRead, PciState.withFunction,
    StateRun.bind_of_ok (configCycle_here h hassigned (busOf_makeBdf b d)),
    StateRun.bind_of_ok (StateRun.get_apply _), devfnOf_makeBdf]
  exact congrArg (fun c => EStateM.Result.ok (load c addr n) _) hconfig

theorem pciConfigWrite_here (h : Leads s.rule root path b blocked)
    (hassigned : s.assigned b = path) (addr : BitVec 8) (bs : List Byte) :
    pciConfigWrite (makeBdf b d) addr bs (s.withFunction root path config child d c) =
      .ok () (s.withFunction root path config child d (store c addr bs)) := by
  have hconfig : (root.replace path (.bus (Function.update config d c) child)).configAt path d =
      c := (configAt_replace h.isBus).trans (Function.update_self d c config)
  have hset (c' : Config) :
      (root.replace path (.bus (Function.update config d c) child)).setConfig path d c' =
        root.replace path (.bus (Function.update config d c') child) := by
    rw [setConfig_replace h.isBus, Function.update_idem]
  rw [pciConfigWrite, PciState.withFunction,
    StateRun.bind_of_ok (configCycle_here h hassigned (busOf_makeBdf b d))]
  simp only [devfnOf_makeBdf, StateRun.modify_apply, PciState.withBus, PciState.withFunction,
    hconfig, hset]

theorem pciConfigReadb_here (h : Leads s.rule root path b blocked)
    (hassigned : s.assigned b = path) (addr : BitVec 8) :
    pciConfigReadb (makeBdf b d) addr (s.withFunction root path config child d c) =
      .ok (c addr) (s.withFunction root path config child d c) := by
  have hbyte : BitVec.ofNat 8 (ofLE (load c addr 1)) = c addr := by simp [load, ofLE]
  rw [pciConfigReadb, StateRun.bind_of_ok (pciConfigRead_here h hassigned addr 1), hbyte]
  rfl

theorem pciConfigWriteb_here (h : Leads s.rule root path b blocked)
    (hassigned : s.assigned b = path) (addr val : BitVec 8) :
    pciConfigWriteb (makeBdf b d) addr val (s.withFunction root path config child d c) =
      .ok () (s.withFunction root path config child d (store c addr [val])) := by
  have hbyte : toLE 1 val.toNat = [val] := by simp [toLE]
  rw [pciConfigWriteb, hbyte]
  exact pciConfigWrite_here h hassigned addr [val]

theorem pciConfigReadw_here (h : Leads s.rule root path b blocked)
    (hassigned : s.assigned b = path) {addr : BitVec 8} (ha : addr &&& 0xfe#8 = addr) :
    pciConfigReadw (makeBdf b d) addr (s.withFunction root path config child d c) =
      .ok (BitVec.ofNat 16 (ofLE (load c addr 2))) (s.withFunction root path config child d c) := by
  rw [pciConfigReadw, ha, StateRun.bind_of_ok (pciConfigRead_here h hassigned addr 2)]
  rfl

theorem pciConfigReadl_here (h : Leads s.rule root path b blocked)
    (hassigned : s.assigned b = path) {addr : BitVec 8} (ha : addr &&& 0xfc#8 = addr) :
    pciConfigReadl (makeBdf b d) addr (s.withFunction root path config child d c) =
      .ok (BitVec.ofNat 32 (ofLE (load c addr 4))) (s.withFunction root path config child d c) := by
  rw [pciConfigReadl, ha, StateRun.bind_of_ok (pciConfigRead_here h hassigned addr 4)]
  rfl

/-- A cycle that arrives nowhere. -/
theorem configCycle_lost {s : PciState} {bdf : BitVec 32}
    (hlost : ∀ q, route s.rule s.root (busOf bdf) ≠ .arrives q) :
    configCycle bdf s = .ok (route s.rule s.root (busOf bdf))
      { s with strays := s.strays ++ [busOf bdf] } := by
  simp only [configCycle, StateRun.modifyGet_apply, if_neg (hlost _)]

theorem pciConfigReadl_lost {s : PciState} {bdf : BitVec 32}
    (hlost : ∀ q, route s.rule s.root (busOf bdf) ≠ .arrives q) (addr : BitVec 8) :
    pciConfigReadl bdf addr s =
      .ok 0xffffffff#32 { s with strays := s.strays ++ [busOf bdf] } := by
  have hread : pciConfigRead bdf (addr &&& 0xfc#8) 4 s =
      .ok (List.replicate 4 0xff#8) { s with strays := s.strays ++ [busOf bdf] } := by
    rw [pciConfigRead, StateRun.bind_of_ok (configCycle_lost hlost),
      StateRun.bind_of_ok (StateRun.get_apply _)]
    cases hroute : route s.rule s.root (busOf bdf) with
    | arrives q => exact absurd hroute (hlost q)
    | unclaimed => rfl
    | contention => rfl
  have hones : BitVec.ofNat 32 (ofLE (List.replicate 4 0xff#8)) = 0xffffffff#32 := by decide
  rw [pciConfigReadl, StateRun.bind_of_ok hread, hones]
  rfl

theorem setupInterrupt_here (h : Leads s.rule root path b blocked)
    (hassigned : s.assigned b = path) :
    setupInterrupt (makeBdf b d) (s.withFunction root path config child d c) =
      .ok () (s.withFunction root path config child d
        (irqConfig s.useI440fxRouting s.addend d c)) := by
  have hdev : devOf (makeBdf b d) = devWord d := by
    apply BitVec.eq_of_toNat_eq
    have hlt := d.isLt
    rw [toNat_devOf_makeBdf, devWord, BitVec.toNat_ofNat, deviceOf]
    omega
  rw [setupInterrupt, StateRun.bind_of_ok (pciConfigReadb_here h hassigned _), irqConfig]
  by_cases hpin : c PCI_INTERRUPT_PIN = 0#8
  · rw [if_neg (not_not_intro hpin), if_pos hpin]
    rfl
  · rw [if_pos hpin, if_neg hpin, doSetupPciIrq,
      StateRun.bind_of_ok (pciConfigReadb_here h hassigned _)]
    by_cases hline : c PCI_INTERRUPT_LINE ≠ 0#8
    · rw [if_pos hline, if_pos hline]
      rfl
    · rw [if_neg hline, if_neg hline, StateRun.bind_of_ok (StateRun.get_apply _), hdev]
      exact pciConfigWriteb_here h hassigned _ _

theorem setupControl_here (h : Leads s.rule root path b blocked)
    (hassigned : s.assigned b = path) :
    setupControl (makeBdf b d) (c PCI_HEADER_TYPE) (s.withFunction root path config child d c) =
      .ok () (s.withFunction root path config child d (controlConfig c)) := by
  rw [setupControl, controlConfig]
  by_cases htype : c PCI_HEADER_TYPE &&& PCI_HEADER_TYPE_BRIDGE = 0#8
  · rw [if_neg (not_not_intro htype), if_pos htype]
    rfl
  · rw [if_pos htype, if_neg htype, StateRun.bind_of_ok
      (pciConfigReadw_here h hassigned (by decide : PCI_BRIDGE_CONTROL &&& 0xfe#8 = _))]
    exact pciConfigWrite_here h hassigned PCI_BRIDGE_CONTROL _

theorem setupIde_here (h : Leads s.rule root path b blocked) (hassigned : s.assigned b = path)
    (id : BitVec 32) :
    setupIde (makeBdf b d) id (s.withFunction root path config child d c) =
      .ok () (s.withFunction root path config child d (ideConfig id c)) := by
  have hwrite {c : Config} (addr : BitVec 8) (bs : List Byte) :
      pciConfigWrite (makeBdf b d) addr bs (s.withFunction root path config child d c) =
        .ok () (s.withFunction root path config child d (store c addr bs)) :=
    pciConfigWrite_here h hassigned addr bs
  rw [setupIde]
  refine (StateRun.bind_of_ok (hwrite 0x10#8 _)).trans ((StateRun.bind_of_ok (hwrite 0x14#8 _)).trans
    ((StateRun.bind_of_ok (hwrite 0x18#8 _)).trans ((StateRun.bind_of_ok (hwrite 0x1c#8 _)).trans ?_)))
  rw [ideConfig]
  split
  · refine (StateRun.bind_of_ok (hwrite 0x40#8 _)).trans ((hwrite 0x42#8 _).trans ?_)
    rfl
  · rfl

theorem setupBridge_here (h : Leads s.rule root path b blocked) (hassigned : s.assigned b = path) :
    setupBridge (makeBdf b d) (s.withFunction root path config child d c) =
      .ok () (({ s with
        bridgeHead := d
        bridgeCount := s.bridgeCount + 1 } : PciState).withFunction root path config child d
          (bridgeConfig s.bus s.bridgeHead 0#8 c)) := by
  have hwrite {c : Config} (addr val : BitVec 8) :
      pciConfigWriteb (makeBdf b d) addr val (s.withFunction root path config child d c) =
        .ok () (s.withFunction root path config child d (store c addr [val])) :=
    pciConfigWriteb_here h hassigned addr val
  have hdevfn : (makeBdf b d).setWidth 8 = d := devfnOf_makeBdf b d
  rw [setupBridge, StateRun.bind_of_ok (StateRun.get_apply _)]
  refine (StateRun.bind_of_ok (hwrite PCI_PRIMARY_BUS _)).trans
    ((StateRun.bind_of_ok (hwrite PCI_SUBORDINATE_BUS _)).trans
      ((StateRun.bind_of_ok (StateRun.get_apply _)).trans
        ((StateRun.bind_of_ok (hwrite PCI_SECONDARY_BUS _)).trans ?_)))
  rw [StateRun.modify_apply, hdevfn]
  rfl

end Here

/-! ### Registers that stay -/

/-- The first 16 registers are the same: identity, class and header type. -/
def SameHeader (c c' : Config) : Prop := ∀ a : BitVec 8, a.toNat < 16 → c' a = c a

section Header

variable {c c' c'' : Config}

theorem SameHeader.refl (c : Config) : SameHeader c c := fun _ _ => rfl

theorem SameHeader.trans (h : SameHeader c c') (h' : SameHeader c' c'') : SameHeader c c'' :=
  fun a ha => (h' a ha).trans (h a ha)

theorem SameHeader.load (h : SameHeader c c') {addr : BitVec 8} {n : Nat}
    (hn : addr.toNat + n ≤ 16) : load c' addr n = load c addr n := by
  refine load_congr (by omega) fun a ha => h a ?_
  have := (within_iff (by omega)).mp ha
  omega

theorem SameHeader.id (h : SameHeader c c') : idOf c' = idOf c := by
  rw [idOf, idOf, h.load (by decide)]

theorem SameHeader.cls (h : SameHeader c c') : classOf c' = classOf c := by
  rw [classOf, classOf, h.load (by decide)]

theorem SameHeader.bridgeClass (h : SameHeader c c') : isBridgeClass c' = isBridgeClass c := by
  rw [isBridgeClass, isBridgeClass, h.cls]

theorem SameHeader.type (h : SameHeader c c') : c' PCI_HEADER_TYPE = c PCI_HEADER_TYPE :=
  h _ (by decide)

/-- Writes behind the header leave it as it is. -/
theorem SameHeader.store (h : SameHeader c c') {q : BitVec 8} {bs : List Byte}
    (hq : 16 ≤ q.toNat) (hfit : q.toNat + bs.length ≤ 256) : SameHeader c (store c' q bs) := by
  intro a ha
  have hout : ¬ Within q bs.length a := by
    rw [within_iff hfit]
    omega
  rw [store_of_not_within _ hout, h a ha]

theorem sameHeader_irqConfig (i440fx : Bool) (addend : BitVec 16) (d : DevFn) (c : Config) :
    SameHeader c (irqConfig i440fx addend d c) := by
  unfold irqConfig
  split
  · exact SameHeader.refl c
  · split
    · exact SameHeader.refl c
    · exact (SameHeader.refl c).store (by decide) (by simp [PCI_INTERRUPT_LINE])

theorem sameHeader_controlConfig (c : Config) : SameHeader c (controlConfig c) := by
  unfold controlConfig
  split
  · exact SameHeader.refl c
  · exact (SameHeader.refl c).store (by decide) (by simp [PCI_BRIDGE_CONTROL])

theorem sameHeader_ideConfig (id : BitVec 32) (c : Config) : SameHeader c (ideConfig id c) := by
  have hbars : SameHeader c (ByteMemory.store (ByteMemory.store (ByteMemory.store
      (ByteMemory.store c 0x10#8 (toLE 4 0x1f0)) 0x14#8 (toLE 4 0x3f4)) 0x18#8 (toLE 4 0x170))
      0x1c#8 (toLE 4 0x374)) :=
    ((((SameHeader.refl c).store (by decide) (by simp)).store (by decide) (by simp)).store
      (by decide) (by simp)).store (by decide) (by simp)
  unfold ideConfig
  split
  · exact (hbars.store (by decide) (by simp)).store (by decide) (by simp)
  · exact hbars

theorem sameHeader_bridgeConfig (primary secondary subordinate : BitVec 8) (c : Config) :
    SameHeader c (bridgeConfig primary secondary subordinate c) :=
  (((SameHeader.refl c).store (by decide) (by simp [PCI_PRIMARY_BUS])).store (by decide)
    (by simp [PCI_SUBORDINATE_BUS])).store (by decide) (by simp [PCI_SECONDARY_BUS])

theorem sameHeader_classConfig (b : BitVec 8) (head : DevFn) (id : BitVec 32) (c : Config) :
    SameHeader c (classConfig b head id c) := by
  unfold classConfig
  split
  · exact sameHeader_ideConfig id c
  · split
    · exact sameHeader_bridgeConfig _ _ _ c
    · exact SameHeader.refl c

theorem sameHeader_setupConfig (i440fx : Bool) (addend : BitVec 16) (b : BitVec 8) (head d : DevFn)
    (c : Config) : SameHeader c (setupConfig i440fx addend b head d c) :=
  ((sameHeader_irqConfig i440fx addend d c).trans (sameHeader_controlConfig _)).trans
    (sameHeader_classConfig _ _ _ _)

end Header

/-! ### One call of `do_setup_pci` -/

/-- The static variables after the call for a function with the registers `c`. -/
def PciState.visited (s : PciState) (path : List DevFn) (d : DevFn) (c : Config) : PciState :=
  { s with
    bridgeHead := if isBridgeClass c then d else s.bridgeHead
    bridgeCount := if isBridgeClass c then s.bridgeCount + 1 else s.bridgeCount
    calls := s.calls ++
      [{ target := .arrives path, devfn := d, bus := s.bus, addend := s.addend }] }

theorem doSetupPci_here {s : PciState} {root : PciBus} {path : List DevFn} {b : BitVec 8}
    {blocked : BitVec 8 → Prop} {config : DevFn → Config} {child : DevFn → PciBus} {d : DevFn}
    {c : Config} (h : Leads s.rule root path b blocked) (hassigned : s.assigned b = path)
    (hbus : s.bus = b) :
    doSetupPci (makeBdf b d) (idOf c) (c PCI_HEADER_TYPE)
      (s.withFunction root path config child d c) =
      .ok () ((s.visited path d c).withFunction root path config child d
        (setupConfig s.useI440fxRouting s.addend b s.bridgeHead d c)) := by
  let c₁ := irqConfig s.useI440fxRouting s.addend d c
  let s₁ : PciState := { s with calls := s.calls ++
    [{ target := .arrives path, devfn := d, bus := s.bus, addend := s.addend }] }
  have hheader₁ : SameHeader c c₁ := sameHeader_irqConfig _ _ d c
  have hheader₂ : SameHeader c (controlConfig c₁) := hheader₁.trans (sameHeader_controlConfig c₁)
  have hrecord : (modify fun s : PciState => { s with calls := s.calls ++
      [{ target := route s.rule s.root (busOf (makeBdf b d))
         devfn := devfnOf (makeBdf b d)
         bus := s.bus
         addend := s.addend }] } : Pci Unit) (s.withFunction root path config child d c) =
      .ok () (s₁.withFunction root path config child d c) := by
    have hroute : route (s.withFunction root path config child d c).rule
        (s.withFunction root path config child d c).root b = .arrives path := h.here _ rfl
    rw [StateRun.modify_apply, busOf_makeBdf, devfnOf_makeBdf, hroute]
    rfl
  have hcontrol : setupControl (makeBdf b d) (c PCI_HEADER_TYPE)
      (s₁.withFunction root path config child d c₁) =
      .ok () (s₁.withFunction root path config child d (controlConfig c₁)) := by
    rw [← hheader₁.type]
    exact setupControl_here (s := s₁) h hassigned
  have hclass : pciConfigReadw (makeBdf b d) PCI_CLASS_DEVICE
      (s₁.withFunction root path config child d (controlConfig c₁)) =
      .ok (classOf c) (s₁.withFunction root path config child d (controlConfig c₁)) := by
    rw [← hheader₂.cls]
    exact pciConfigReadw_here (s := s₁) h hassigned
      (by decide : PCI_CLASS_DEVICE &&& 0xfe#8 = PCI_CLASS_DEVICE)
  rw [doSetupPci]
  refine (StateRun.bind_of_ok hrecord).trans ((StateRun.bind_of_ok (setupInterrupt_here
    (s := s₁) h hassigned)).trans ((StateRun.bind_of_ok hcontrol).trans
      ((StateRun.bind_of_ok hclass).trans ?_)))
  rw [setupConfig, classConfig, hheader₂.cls, hheader₂.bridgeClass, PciState.visited]
  by_cases hide : classOf c = PCI_CLASS_STORAGE_IDE
  · have hbridge : isBridgeClass c = false := by
      rw [isBridgeClass, hide]
      decide
    rw [if_pos hide, if_pos hide, hbridge]
    exact setupIde_here (s := s₁) h hassigned _
  · rw [if_neg hide, if_neg hide]
    by_cases hbridge : classOf c = PCI_CLASS_BRIDGE_PCI
    · have hclass : isBridgeClass c = true := decide_eq_true hbridge
      rw [if_pos hbridge, hclass]
      refine (setupBridge_here (s := s₁) h hassigned).trans ?_
      subst hbus
      rfl
    · have hclass : isBridgeClass c = false := decide_eq_false hbridge
      rw [if_neg hbridge, hclass]
      rfl

end Qboot
