import Qboot.Lib.StateRun
import Qboot.Pci.Topology

/-!
The PCI setup of pci.c: it visits every function of every bus, gives interrupt
lines to functions and numbers to the buses behind bridges. The static
variables of the file are fields of the state.
-/

namespace Qboot

open Bytes ByteMemory

/-- One call of `do_setup_pci`: where the function is, and the static
variables at that time. No variable of the program holds this record. -/
structure PciCall where
  target : Route
  devfn : DevFn
  bus : BitVec 8
  addend : BitVec 16
deriving DecidableEq

structure PciState where
  /-- The hardware: how bridges claim cycles, and the tree of buses. -/
  rule : BridgeRule
  root : PciBus
  /-- The static variables of pci.c, and `max_bus`. -/
  addend : BitVec 16
  bus : BitVec 8
  bridgeHead : DevFn
  useI440fxRouting : Bool
  bridgeCount : Nat
  maxBus : BitVec 8
  /-- The bus behind which bridges each number was given to, the bus numbers
  of all cycles that ended anywhere else, the calls of `do_setup_pci`, and
  where the cycles of each call of `do_setup_pci_bus` go. No variable of the
  program holds these. -/
  assigned : BitVec 8 → List DevFn
  strays : List (BitVec 8)
  calls : List PciCall
  entries : List Route

/-- The machine when `do_setup_pci_bus` is called for the root bus: `setup_pci`
knows the chipset, the other static variables are zero. -/
def PciState.initial (rule : BridgeRule) (i440fx : Bool) (root : PciBus) : PciState where
  rule := rule
  root := root
  addend := 0#16
  bus := 0#8
  bridgeHead := 0#8
  useI440fxRouting := i440fx
  bridgeCount := 0
  maxBus := 0#8
  assigned := fun _ => []
  strays := []
  calls := []
  entries := []

inductive PciStop where
  /-- `panic()` -/
  | panic
  /-- More nested calls than the model was given. -/
  | nesting
deriving DecidableEq

abbrev Pci (α : Type) := EStateM PciStop PciState α

/-! ### Configuration cycles -/

/-- The parts of a `bdf`, which the accessors of pci.h truncate to 16 bits. -/
def busOf (bdf : BitVec 32) : BitVec 8 := ((bdf.setWidth 16) >>> 8).setWidth 8

def devfnOf (bdf : BitVec 32) : DevFn := bdf.setWidth 8

/-- `(bdf >> 3) & 0x1f` -/
def devOf (bdf : BitVec 32) : BitVec 32 := (bdf >>> 3) &&& 0x1f#32

def makeBdf (bus : BitVec 8) (devfn : DevFn) : BitVec 32 :=
  bus.setWidth 32 * 256#32 + devfn.setWidth 32

/-- A cycle and where it ends. -/
def configCycle (bdf : BitVec 32) : Pci Route :=
  modifyGet fun s =>
    let r := PciBus.route s.rule s.root (busOf bdf)
    (r, if r = .arrives (s.assigned (busOf bdf)) then s
        else { s with strays := s.strays ++ [busOf bdf] })

/-- A read of `n` bytes; one that arrives nowhere gives ones. -/
def pciConfigRead (bdf : BitVec 32) (addr : BitVec 8) (n : Nat) : Pci (List Byte) := do
  let r ← configCycle bdf
  let s ← get
  match r with
  | .arrives path => pure (load (s.root.configAt path (devfnOf bdf)) addr n)
  | _ => pure (List.replicate n 0xff#8)

/-- A write; one that arrives nowhere is lost. -/
def pciConfigWrite (bdf : BitVec 32) (addr : BitVec 8) (bs : List Byte) : Pci Unit := do
  let r ← configCycle bdf
  match r with
  | .arrives path => modify fun s => { s with
      root := s.root.setConfig path (devfnOf bdf)
        (store (s.root.configAt path (devfnOf bdf)) addr bs) }
  | _ => pure ()

def pciConfigReadb (bdf : BitVec 32) (addr : BitVec 8) : Pci (BitVec 8) := do
  let bs ← pciConfigRead bdf addr 1
  pure (BitVec.ofNat 8 (ofLE bs))

def pciConfigReadw (bdf : BitVec 32) (addr : BitVec 8) : Pci (BitVec 16) := do
  let bs ← pciConfigRead bdf (addr &&& 0xfe#8) 2
  pure (BitVec.ofNat 16 (ofLE bs))

def pciConfigReadl (bdf : BitVec 32) (addr : BitVec 8) : Pci (BitVec 32) := do
  let bs ← pciConfigRead bdf (addr &&& 0xfc#8) 4
  pure (BitVec.ofNat 32 (ofLE bs))

def pciConfigWriteb (bdf : BitVec 32) (addr : BitVec 8) (val : BitVec 8) : Pci Unit :=
  pciConfigWrite bdf addr (toLE 1 val.toNat)

def pciConfigWritew (bdf : BitVec 32) (addr : BitVec 8) (val : BitVec 16) : Pci Unit :=
  pciConfigWrite bdf (addr &&& 0xfe#8) (toLE 2 val.toNat)

def pciConfigWritel (bdf : BitVec 32) (addr : BitVec 8) (val : BitVec 32) : Pci Unit :=
  pciConfigWrite bdf (addr &&& 0xfc#8) (toLE 4 val.toNat)

/-! ### One function -/

def PCI_HEADER_TYPE_BRIDGE : BitVec 8 := 1#8
def PCI_HEADER_TYPE_MULTI_FUNCTION : BitVec 8 := 0x80#8
def PCI_BRIDGE_CTL_SERR : BitVec 16 := 0x02#16
def PCI_CLASS_STORAGE_IDE : BitVec 16 := 0x0101#16
def PCI_CLASS_BRIDGE_PCI : BitVec 16 := 0x0604#16
def PCI_VENDOR_ID_INTEL : BitVec 32 := 0x8086#32
def PCI_DEVICE_ID_INTEL_82441 : BitVec 32 := 0x1237#32
def PCI_DEVICE_ID_INTEL_Q35_MCH : BitVec 32 := 0x29c0#32
def PCI_DEVICE_ID_INTEL_82371SB_1 : BitVec 32 := 0x7010#32
def PCI_DEVICE_ID_INTEL_82371AB : BitVec 32 := 0x7111#32

/-- The number of the PIRQ link, for `pin` from 1 on. -/
def linkOf (useI440fxRouting : Bool) (addend : BitVec 16) (dev pin : BitVec 32) : BitVec 32 :=
  let lnk := addend.setWidth 32 + pin
  let lnk :=
    if useI440fxRouting then lnk + (dev - 1#32)
    -- Q35 devices 25-31 all use LNKA.  Devices 0-24 have a slightly different mapping.
    else if dev.sle 24#32 then lnk + dev
    else lnk
  lnk &&& 3#32

def irqOfLink (lnk : BitVec 32) : BitVec 8 := if lnk &&& 2#32 ≠ 0#32 then 11#8 else 10#8

def doSetupPciIrq (bdf pin : BitVec 32) : Pci Unit := do
  let irq ← pciConfigReadb bdf PCI_INTERRUPT_LINE
  if irq ≠ 0#8 then pure ()
  else do
    let s ← get
    pciConfigWriteb bdf PCI_INTERRUPT_LINE
      (irqOfLink (linkOf s.useI440fxRouting s.addend (devOf bdf) pin))

/-- The IDE case of `do_setup_pci`. -/
def setupIde (bdf id : BitVec 32) : Pci Unit := do
  pciConfigWritel bdf 0x10#8 0x1f0#32
  pciConfigWritel bdf 0x14#8 0x3f4#32
  pciConfigWritel bdf 0x18#8 0x170#32
  pciConfigWritel bdf 0x1c#8 0x374#32
  if id = PCI_VENDOR_ID_INTEL ||| PCI_DEVICE_ID_INTEL_82371SB_1 <<< 16 ∨
      id = PCI_VENDOR_ID_INTEL ||| PCI_DEVICE_ID_INTEL_82371AB <<< 16 then do
    pciConfigWritew bdf 0x40#8 0x8000#16
    pciConfigWritew bdf 0x42#8 0x8000#16
  else pure ()

/-- The bridge case of `do_setup_pci`: block the bridge and put it at the head
of the list that runs through the secondary bus registers. -/
def setupBridge (bdf : BitVec 32) : Pci Unit := do
  let s ← get
  pciConfigWriteb bdf PCI_PRIMARY_BUS s.bus
  pciConfigWriteb bdf PCI_SUBORDINATE_BUS 0#8
  let s ← get
  pciConfigWriteb bdf PCI_SECONDARY_BUS s.bridgeHead
  modify fun s => { s with bridgeHead := bdf.setWidth 8, bridgeCount := s.bridgeCount + 1 }

/-- The interrupt line of a function that has a pin. -/
def setupInterrupt (bdf : BitVec 32) : Pci Unit := do
  let pin ← pciConfigReadb bdf PCI_INTERRUPT_PIN
  if pin ≠ 0#8 then doSetupPciIrq bdf (pin.setWidth 32) else pure ()

/-- The control register of a function with the header of a bridge. -/
def setupControl (bdf : BitVec 32) (type : BitVec 8) : Pci Unit :=
  if type &&& PCI_HEADER_TYPE_BRIDGE ≠ 0#8 then do
    let ctl ← pciConfigReadw bdf PCI_BRIDGE_CONTROL
    pciConfigWritew bdf PCI_BRIDGE_CONTROL (ctl ||| PCI_BRIDGE_CTL_SERR)
  else pure ()

def doSetupPci (bdf id : BitVec 32) (type : BitVec 8) : Pci Unit := do
  modify fun s => { s with calls := s.calls ++
    [{ target := PciBus.route s.rule s.root (busOf bdf)
       devfn := devfnOf bdf
       bus := s.bus
       addend := s.addend }] }
  setupInterrupt bdf
  setupControl bdf type
  let cls ← pciConfigReadw bdf PCI_CLASS_DEVICE
  if cls = PCI_CLASS_STORAGE_IDE then setupIde bdf id
  else if cls = PCI_CLASS_BRIDGE_PCI then setupBridge bdf
  else pure ()

/-! ### All functions of a bus -/

/-- `(bus * 256) + (d * 8) + f` -/
def functionBdf (bus : BitVec 8) (d f : Nat) : BitVec 32 :=
  bus.setWidth 32 * 256#32 + BitVec.ofNat 32 (d * 8) + BitVec.ofNat 32 f

/-- The inner loop of `pci_foreach` for the `n` functions from `f` on. -/
def foreachFunction (fn : BitVec 32 → BitVec 32 → BitVec 8 → Pci Unit) (d f : Nat) : Nat → Pci Unit
  | 0 => pure ()
  | n + 1 => do
    let s ← get
    let bdf := functionBdf s.bus d f
    let id ← pciConfigReadl bdf PCI_VENDOR_ID
    let vendor : BitVec 16 := id.setWidth 16
    -- 0x0000 or 0xFFFF?  Skip.
    if vendor + 1#16 ≤ 1#16 then
      if f = 0 then pure () else foreachFunction fn d (f + 1) n
    else do
      let type ← pciConfigReadb bdf PCI_HEADER_TYPE
      fn bdf id type
      if f = 0 ∧ type &&& PCI_HEADER_TYPE_MULTI_FUNCTION = 0#8 then pure ()
      else foreachFunction fn d (f + 1) n

def pciForeach (fn : BitVec 32 → BitVec 32 → BitVec 8 → Pci Unit) : Pci Unit :=
  forM (List.range 32) fun d => foreachFunction fn d 0 8

/-! ### All buses -/

/-- Before the recursive call for the bus behind a bridge: take the bridge from
the list, give it the next number and open its window. -/
def openWindow (path : List DevFn) (bdf : BitVec 32) : Pci DevFn := do
  let next ← pciConfigReadb bdf PCI_SECONDARY_BUS
  modify fun s => { s with
    maxBus := s.maxBus + 1#8
    bus := s.maxBus + 1#8
    assigned := Function.update s.assigned (s.maxBus + 1#8) (path ++ [devfnOf bdf]) }
  let s ← get
  pciConfigWriteb bdf PCI_SECONDARY_BUS s.bus
  pciConfigWriteb bdf PCI_SUBORDINATE_BUS 255#8
  -- Add PCI bridge device id for the recursive call.
  modify fun s => { s with addend := s.addend + (devOf bdf).setWidth 16 }
  pure next

/-- After the recursive call: no later number belongs to the window. -/
def closeWindow (bdf : BitVec 32) : Pci Unit := do
  modify fun s => { s with addend := s.addend - (devOf bdf).setWidth 16 }
  let s ← get
  pciConfigWriteb bdf PCI_SUBORDINATE_BUS s.maxBus

/-- The loop over the list of bridges, for `i` bridges from `nextHead` on.
`recurse` is the call of `do_setup_pci_bus` for the bus behind a bridge. -/
def bridgeLoop (recurse : List DevFn → Pci Unit) (path : List DevFn) (saveBus : BitVec 8) :
    Nat → DevFn → Pci Unit
  | 0, _ => pure ()
  | i + 1, nextHead => do
    let next ← openWindow path (makeBdf saveBus nextHead)
    recurse (path ++ [nextHead])
    closeWindow (makeBdf saveBus nextHead)
    bridgeLoop recurse path saveBus i next

/-- `do_setup_pci_bus` begins with an empty list of bridges. -/
def PciState.entering (s : PciState) : PciState :=
  { s with
    bridgeHead := 0xff#8
    bridgeCount := 0
    entries := s.entries ++ [PciBus.route s.rule s.root s.bus] }

/-- `do_setup_pci_bus`, nested at most `n` deep. `path` are the bridges in
front of the bus; the program does not know them. -/
def doSetupPciBus : Nat → List DevFn → Pci Unit
  | 0, _ => throw .nesting
  | n + 1, path => do
    modify PciState.entering
    -- Discover all PCI devices and block bridges
    pciForeach doSetupPci
    let s ← get
    -- Configure bridges on this bus and recursively setup new busses
    bridgeLoop (doSetupPciBus n) path s.bus s.bridgeCount s.bridgeHead

end Qboot
