import Qboot.Acpi.Bounds
import Qboot.E820
import Qboot.FwCfg.Reread
import Qboot.Linuxboot.Boot
import Qboot.Mptable.Setup
import Qboot.Smbios.Extract

/-!
`main` of main.c, from the point where the PCI busses have their numbers: the
BIOS32 directory, the interrupt vectors, and then everything that fw_cfg
decides, up to the boot. The PCI code itself runs on the configuration space,
which is no part of this machine.
-/

namespace Qboot

open Bytes ByteMemory

/-- What the hardware setup found, and the answer of the cpuid instruction. -/
structure Platform where
  /-- The value of `setup_hw`. -/
  havePci : Bool
  /-- `setup_pci` knows the host bridge. -/
  knownBridge : Bool
  haveMmconfig : Bool
  stepping : BitVec 32
  features : BitVec 32

/-- Addresses of the assembler code that `main` refers to. -/
structure Labels where
  bios32Entry : BitVec 32
  biosIntfake : BitVec 32
  biosIrq : BitVec 32
  biosInt10 : BitVec 32
  biosInt15 : BitVec 32

/-! ### BIOS32 and the interrupt vectors -/

/-- The loop of `setup_bios32` that lowers the checksum by byte `i` and those
behind it. -/
def lowerChecksum (bios32 : BitVec 32) : List Nat → Fw Unit
  | [] => pure ()
  | i :: rest => do
    let s ← get
    poke (bios32 + 10#32) [s.mem (bios32 + 10#32) - s.mem (bios32 + BitVec.ofNat 32 i)]
    lowerChecksum bios32 rest

def setupBios32 (bios32Entry : BitVec 32) : Fw Unit := do
  let bios32 ← mallocFsegAlign 16#32 16#32
  poke bios32 [0x5f#8, 0x33#8, 0x32#8, 0x5f#8]
  poke (bios32 + 4#32) (toLE 4 bios32Entry.toNat)
  poke (bios32 + 8#32) [0#8]
  poke (bios32 + 9#32) [1#8]
  poke (bios32 + 10#32) (List.replicate 6 0)
  lowerChecksum bios32 (List.range 10)

/-- The end of `setup_pci`, for a host bridge that it may not know. -/
def finishPci (platform : Platform) (labels : Labels) : Fw Unit := do
  panicIf (platform.knownBridge = false)
  setupBios32 labels.bios32Entry

def flatToSeg16 (address : BitVec 32) : BitVec 16 := ((address >>> 4) &&& 0xf000#32).setWidth 16

def flatToOff16 (address : BitVec 32) : BitVec 16 := (address &&& 65535#32).setWidth 16

/-- The vector table is at address zero. -/
def setRealmodeInt (p : BitVec 32) (vec : Nat) : Fw Unit := do
  poke (BitVec.ofNat 32 (vec * 4)) (toLE 2 (flatToOff16 p).toNat)
  poke (BitVec.ofNat 32 (vec * 4 + 2)) (toLE 2 (flatToSeg16 p).toNat)

def setupIdt (labels : Labels) : Fw Unit := do
  forM (List.range 0x100) (setRealmodeInt labels.biosIntfake)
  forM (List.range' 8 8) (setRealmodeInt labels.biosIrq)
  forM (List.range' 0x70 8) (setRealmodeInt labels.biosIrq)
  setRealmodeInt labels.biosInt10 0x10
  setRealmodeInt labels.biosInt15 0x15

/-- `main` never returns. -/
def main (platform : Platform) (labels : Labels) : Fw Unit := do
  modify fun s => { s with haveMmconfig := platform.haveMmconfig }
  if platform.havePci = true then
    finishPci platform labels
  setupIdt labels
  fwCfgSetup
  extractAcpi
  extractE820
  setupMptable platform.stepping platform.features
  extractSmbios
  bootFromFwcfg
  throw Stop.panic

/-! ### What holds of the two allocators through a run -/

/-- A property of the allocators that the next call keeps. -/
structure HeapInvariant (I : Firmware → Prop) : Prop where
  heap : ∀ s t : Firmware, s.heap = t.heap → I s → I t
  allocate : ∀ (s : Firmware) (zone : Zone) (n align : BitVec 32), 0 < align.toNat → I s →
    I (s.allocate (s.request zone n align))

section Keeps

variable {I : Firmware → Prop}

theorem KeepsHeap.keeps {α : Type} {x : Fw α} (h : KeepsHeap x) (hI : HeapInvariant I) :
    StateRun.Keeps I x := by
  intro s hs
  exact hI.heap s _ (h s.heap s rfl).symm hs

theorem mallocIn_keeps (hI : HeapInvariant I) (zone : Zone) (n : BitVec 32) {align : BitVec 32}
    (halign : 0 < align.toNat) : StateRun.Keeps I (mallocIn zone n align) := by
  intro s hs
  rw [mallocIn_apply]
  exact hI.allocate s zone n align halign hs

theorem malloc_keeps (hI : HeapInvariant I) (n : BitVec 32) : StateRun.Keeps I (malloc n) :=
  mallocIn_keeps hI .low n (by decide)

theorem mallocFseg_keeps (hI : HeapInvariant I) (n : BitVec 32) :
    StateRun.Keeps I (mallocFseg n) := mallocIn_keeps hI .fseg n (by decide)

end Keeps

/-! ### Code that does not allocate -/

theorem fwCfgSelect_keepsHeap (f : BitVec 16) : KeepsHeap (fwCfgSelect f) :=
  KeepsHeap.modify fun _ => rfl

theorem fwCfgReadlLe_keepsHeap : KeepsHeap fwCfgReadlLe :=
  KeepsHeap.of_apply fwCfgReadlLe_apply fun _ => rfl

theorem fwCfgReadlBe_keepsHeap : KeepsHeap fwCfgReadlBe :=
  KeepsHeap.of_apply fwCfgReadlBe_apply fun _ => rfl

theorem fillStruct_keepsHeap (p : BitVec 32) (n : Nat) (fields : List (Nat × List Byte)) :
    KeepsHeap (fillStruct p n fields) := KeepsHeap.modify fun _ => rfl

theorem lowerChecksum_keepsHeap (bios32 : BitVec 32) (l : List Nat) :
    KeepsHeap (lowerChecksum bios32 l) := by
  induction l with
  | nil => exact KeepsHeap.pure _
  | cons i l ih => exact KeepsHeap.get.bind fun _ => (KeepsHeap.poke _ _).bind fun _ => ih

theorem setRealmodeInt_keepsHeap (p : BitVec 32) (vec : Nat) :
    KeepsHeap (setRealmodeInt p vec) := (KeepsHeap.poke _ _).bind fun _ => KeepsHeap.poke _ _

theorem setupIdt_keepsHeap (labels : Labels) : KeepsHeap (setupIdt labels) := by
  refine (KeepsHeap.forM _ fun _ _ => setRealmodeInt_keepsHeap _ _).bind fun _ => ?_
  refine (KeepsHeap.forM _ fun _ _ => setRealmodeInt_keepsHeap _ _).bind fun _ => ?_
  refine (KeepsHeap.forM _ fun _ _ => setRealmodeInt_keepsHeap _ _).bind fun _ => ?_
  exact (setRealmodeInt_keepsHeap _ _).bind fun _ => setRealmodeInt_keepsHeap _ _

theorem swapFile_keepsHeap (p : BitVec 32) : KeepsHeap (swapFile p) :=
  KeepsHeap.get.bind fun _ => (KeepsHeap.poke _ _).bind fun _ => KeepsHeap.poke _ _

/-! The table loader. -/

theorem idToAddr_keepsHeap (id : Int) : KeepsHeap (idToAddr id) := by
  refine KeepsHeap.get.bind fun s => ?_
  split
  · exact KeepsHeap.pure _
  · exact KeepsHeap.throw _

theorem setFileAddr_keepsHeap (id : Int) (p : BitVec 32) : KeepsHeap (setFileAddr id p) := by
  intro H s hs
  rw [setFileAddr, StateRun.bind_of_ok (StateRun.get_apply s)]
  split
  · exact hs
  · exact hs

theorem saveRsdp_keepsHeap (zone : Byte) (id : Int) (p : BitVec 32) :
    KeepsHeap (saveRsdp zone id p) := by
  refine KeepsHeap.ite ?_ (KeepsHeap.pure _)
  refine (KeepsHeap.peek _ _).bind fun bs => KeepsHeap.ite ?_ (KeepsHeap.pure _)
  exact (idToAddr_keepsHeap id).bind fun _ => KeepsHeap.modify fun _ => rfl

theorem doPtr_keepsHeap (dest src : List Byte) (offset : BitVec 32) (size : Byte) :
    KeepsHeap (doPtr dest src offset size) := by
  refine (fwCfgFileId_keepsHeap _).bind fun _ => (idToAddr_keepsHeap _).bind fun _ =>
    (KeepsHeap.panicIf _).bind fun _ => (fwCfgFileId_keepsHeap _).bind fun _ =>
      (idToAddr_keepsHeap _).bind fun _ => (KeepsHeap.panicIf _).bind fun _ => ?_
  exact KeepsHeap.ite (KeepsHeap.throw _) ((KeepsHeap.peek _ _).bind fun _ => KeepsHeap.poke _ _)

theorem doChecksum_keepsHeap (file : List Byte) (offset start len : BitVec 32) :
    KeepsHeap (doChecksum file offset start len) :=
  (fwCfgFileId_keepsHeap _).bind fun _ => (idToAddr_keepsHeap _).bind fun _ =>
    (KeepsHeap.panicIf _).bind fun _ => (fwCfgFileSize_keepsHeap _).bind fun _ =>
      (KeepsHeap.panicIf _).bind fun _ => KeepsHeap.get.bind fun _ => KeepsHeap.poke _ _

/-! The MP table. -/

theorem putEntry_keepsHeap (offset size : Nat) (fields : List (Nat × List Byte))
    (checksum : BitVec 32) : KeepsHeap (putEntry offset size fields checksum) :=
  (fillStruct_keepsHeap _ _ _).bind fun _ => KeepsHeap.get.bind fun _ => KeepsHeap.pure _

theorem cpuLoop_keepsHeap (stepping features : BitVec 32) (n i offset : Nat)
    (checksum : BitVec 32) : KeepsHeap (cpuLoop stepping features n i offset checksum) := by
  induction n generalizing i offset checksum with
  | zero => exact KeepsHeap.pure _
  | succ n ih => exact (putEntry_keepsHeap _ _ _ _).bind fun _ => ih _ _ _

theorem intsrcLoop_keepsHeap (irq0Override : Bool) (numCpus : BitVec 32) (l : List Nat)
    (offset : Nat) (checksum : BitVec 32) :
    KeepsHeap (intsrcLoop irq0Override numCpus l offset checksum) := by
  induction l generalizing offset checksum with
  | nil => exact KeepsHeap.pure _
  | cons i l ih =>
    refine KeepsHeap.ite ?_ ?_
    · exact (fillStruct_keepsHeap _ _ _).bind fun _ => ih _ _
    · exact (putEntry_keepsHeap _ _ _ _).bind fun _ => ih _ _

theorem finishMptable_keepsHeap (offset : Nat) (checksum : BitVec 32) :
    KeepsHeap (finishMptable offset checksum) := by
  refine (putEntry_keepsHeap _ _ _ _).bind fun _ => KeepsHeap.bind ?_ fun _ => ?_
  · exact KeepsHeap.modify fun _ => rfl
  · exact KeepsHeap.get.bind fun _ => (KeepsHeap.poke _ _).bind fun _ =>
      KeepsHeap.get.bind fun _ => KeepsHeap.poke _ _

theorem deviceEntries_keepsHeap (numCpus : BitVec 32) (offset : Nat) (checksum : BitVec 32) :
    KeepsHeap (deviceEntries numCpus offset checksum) :=
  (putEntry_keepsHeap _ _ _ _).bind fun _ => (putEntry_keepsHeap _ _ _ _).bind fun _ =>
    (fwCfgSelect_keepsHeap _).bind fun _ => fwCfgReadlLe_keepsHeap.bind fun _ =>
      (intsrcLoop_keepsHeap _ _ _ _ _).bind fun _ => finishMptable_keepsHeap _ _

theorem setupMptable_keepsHeap (stepping features : BitVec 32) :
    KeepsHeap (setupMptable stepping features) := by
  have hstart : KeepsHeap startMptable :=
    (fillStruct_keepsHeap _ _ _).bind fun _ => KeepsHeap.get.bind fun _ =>
      (KeepsHeap.poke _ _).bind fun _ => fillStruct_keepsHeap _ _ _
  exact hstart.bind fun _ => (fwCfgSelect_keepsHeap _).bind fun _ =>
    fwCfgReadlLe_keepsHeap.bind fun _ => (cpuLoop_keepsHeap _ _ _ _ _ _).bind fun _ =>
      deviceEntries_keepsHeap _ _ _

/-! The SMBIOS tables. -/

theorem setStrFieldOrSkip_keepsHeap (start : BitVec 32) (field : Nat) (value : Option (List Byte))
    (end_ : BitVec 32) (strIndex : Nat) :
    KeepsHeap (setStrFieldOrSkip start field value end_ strIndex) := by
  match value with
  | none => exact (KeepsHeap.poke _ _).bind fun _ => KeepsHeap.pure _
  | some [] => exact (KeepsHeap.poke _ _).bind fun _ => KeepsHeap.pure _
  | some (c :: cs) =>
    exact (KeepsHeap.poke _ _).bind fun _ => (KeepsHeap.poke _ _).bind fun _ => KeepsHeap.pure _

theorem smbiosNewType0_keepsHeap (start : BitVec 32) (vendor version date : Option (List Byte)) :
    KeepsHeap (smbiosNewType0 start vendor version date) := by
  refine (KeepsHeap.poke _ _).bind fun _ => (KeepsHeap.poke _ _).bind fun _ =>
    (KeepsHeap.poke _ _).bind fun _ => (setStrFieldOrSkip_keepsHeap _ _ _ _ _).bind fun _ =>
      (setStrFieldOrSkip_keepsHeap _ _ _ _ _).bind fun _ => (KeepsHeap.poke _ _).bind fun _ =>
        (setStrFieldOrSkip_keepsHeap _ _ _ _ _).bind fun _ => ?_
  refine (KeepsHeap.poke _ _).bind fun _ => (KeepsHeap.poke _ _).bind fun _ =>
    (KeepsHeap.poke _ _).bind fun _ => (KeepsHeap.poke _ _).bind fun _ =>
      (KeepsHeap.poke _ _).bind fun _ => (KeepsHeap.poke _ _).bind fun _ =>
        (KeepsHeap.poke _ _).bind fun _ => (KeepsHeap.poke _ _).bind fun _ =>
          (KeepsHeap.poke _ _).bind fun _ => (KeepsHeap.poke _ _).bind fun _ => ?_
  exact KeepsHeap.ite (KeepsHeap.poke _ _) (KeepsHeap.pure _)

theorem updateHalf_keepsHeap (p : BitVec 32) (f : BitVec 16 → BitVec 16) :
    KeepsHeap (updateHalf p f) := (KeepsHeap.peek _ _).bind fun _ => KeepsHeap.poke _ _

theorem publishSmbios_keepsHeap (ep qtables : BitVec 32) (qtablesLength : BitVec 16) :
    KeepsHeap (publishSmbios ep qtables qtablesLength) := by
  have htype0 : KeepsHeap (addType0 ep qtables) :=
    (smbiosNewType0_keepsHeap _ _ _ _).bind fun _ => (updateHalf_keepsHeap _ _).bind fun _ =>
      (KeepsHeap.peek _ _).bind fun _ => (KeepsHeap.poke _ _).bind fun _ =>
        (updateHalf_keepsHeap _ _).bind fun _ => updateHalf_keepsHeap _ _
  have hsums : KeepsHeap (fixChecksums ep) :=
    KeepsHeap.get.bind fun _ => (KeepsHeap.poke _ _).bind fun _ =>
      KeepsHeap.get.bind fun _ => KeepsHeap.poke _ _
  exact (KeepsHeap.poke _ _).bind fun _ => (KeepsHeap.poke _ _).bind fun _ =>
    KeepsHeap.get.bind fun _ => KeepsHeap.ite (htype0.bind fun _ => hsums) hsums

/-! The kernel. -/

theorem ldlP_keepsHeap (p : BitVec 32) : KeepsHeap (ldlP p) :=
  (KeepsHeap.peek _ _).bind fun _ => KeepsHeap.pure _

theorem lduwP_keepsHeap (p : BitVec 32) : KeepsHeap (lduwP p) :=
  (KeepsHeap.peek _ _).bind fun _ => KeepsHeap.pure _

theorem ldubP_keepsHeap (p : BitVec 32) : KeepsHeap (ldubP p) :=
  (KeepsHeap.peek _ _).bind fun _ => KeepsHeap.pure _

theorem parseBzimage_keepsHeap (args : LinuxbootArgs) : KeepsHeap (parseBzimage args) := by
  refine (ldlP_keepsHeap _).bind fun magic => KeepsHeap.ite ?_ (KeepsHeap.pure _)
  refine (lduwP_keepsHeap _).bind fun protocol => (ldubP_keepsHeap _).bind fun loadflags =>
    KeepsHeap.bind ?_ fun _ => KeepsHeap.get.bind fun _ => KeepsHeap.bind ?_ fun _ =>
      KeepsHeap.bind ?_ fun _ => KeepsHeap.bind ?_ fun _ => ?_
  · exact KeepsHeap.ite (ldlP_keepsHeap _) (KeepsHeap.pure _)
  · exact KeepsHeap.ite (KeepsHeap.poke _ _)
      ((KeepsHeap.poke _ _).bind fun _ => KeepsHeap.poke _ _)
  · exact KeepsHeap.ite (KeepsHeap.poke _ _) (KeepsHeap.pure _)
  · exact KeepsHeap.ite ((ldubP_keepsHeap _).bind fun _ => (KeepsHeap.poke _ _).bind fun _ =>
      KeepsHeap.poke _ _) (KeepsHeap.pure _)
  · exact (KeepsHeap.poke _ _).bind fun _ => (KeepsHeap.poke _ _).bind fun _ =>
      (ldubP_keepsHeap _).bind fun _ => KeepsHeap.pure _

theorem copyFields_keepsHeap (src dst : BitVec 32) : KeepsHeap (copyFields src dst) :=
  (KeepsHeap.peek _ _).bind fun _ => (KeepsHeap.poke _ _).bind fun _ =>
    (KeepsHeap.peek _ _).bind fun _ => (KeepsHeap.poke _ _).bind fun _ =>
      (KeepsHeap.peek _ _).bind fun _ => KeepsHeap.poke _ _

theorem mmapLoop_keepsHeap (mb : BitVec 32) (n i : Nat) : KeepsHeap (mmapLoop mb n i) := by
  induction n generalizing i with
  | zero => exact KeepsHeap.pure _
  | succ n ih =>
    refine KeepsHeap.get.bind fun s => (KeepsHeap.peek _ _).bind fun count =>
      KeepsHeap.ite ?_ (KeepsHeap.pure _)
    refine KeepsHeap.bind ?_ fun _ => ih _
    exact KeepsHeap.get.bind fun _ => (ldlP_keepsHeap _).bind fun _ =>
      (ldlP_keepsHeap _).bind fun _ => (KeepsHeap.poke _ _).bind fun _ =>
        (copyFields_keepsHeap _ _).bind fun _ => (ldlP_keepsHeap _).bind fun _ =>
          KeepsHeap.poke _ _

theorem pvhLoop_keepsHeap (pvh : BitVec 32) (n i : Nat) : KeepsHeap (pvhLoop pvh n i) := by
  induction n generalizing i with
  | zero => exact KeepsHeap.pure _
  | succ n ih =>
    refine KeepsHeap.get.bind fun s => (KeepsHeap.peek _ _).bind fun count =>
      KeepsHeap.ite ?_ (KeepsHeap.pure _)
    exact (copyFields_keepsHeap _ _).bind fun _ => ih _

theorem bootMultibootFromFwCfg_keepsHeap : KeepsHeap bootMultibootFromFwCfg := by
  have hmemory (mb : BitVec 32) : KeepsHeap (storeMbMemory mb) :=
    KeepsHeap.get.bind fun _ => (KeepsHeap.poke _ _).bind fun _ => (KeepsHeap.poke _ _).bind
      fun _ => (KeepsHeap.poke _ _).bind fun _ => mmapLoop_keepsHeap _ _ _
  have hload {β : Type} (size addr : BitVec 16) (key : BitVec 32) {f : BitVec 32 → BitVec 32 → Fw β}
      (hf : ∀ a n, KeepsHeap (f a n)) : KeepsHeap (do
        fwCfgSelect size
        let sz ← fwCfgReadlLe
        panicIf (sz = 0#32)
        fwCfgSelect addr
        let a ← fwCfgReadlLe
        fwCfgReadEntry key a sz
        f a sz) :=
    (fwCfgSelect_keepsHeap _).bind fun _ => fwCfgReadlLe_keepsHeap.bind fun _ =>
      (KeepsHeap.panicIf _).bind fun _ => (fwCfgSelect_keepsHeap _).bind fun _ =>
        fwCfgReadlLe_keepsHeap.bind fun _ => (fwCfgReadEntry_keepsHeap _ _ _).bind fun _ => hf _ _
  refine hload FW_CFG_KERNEL_SIZE FW_CFG_KERNEL_ADDR _ fun _ _ => ?_
  refine hload FW_CFG_INITRD_SIZE FW_CFG_INITRD_ADDR _ fun mb _ => (hmemory mb).bind fun _ => ?_
  exact (fwCfgSelect_keepsHeap _).bind fun _ => fwCfgReadlLe_keepsHeap.bind fun _ =>
    KeepsHeap.throw _

theorem loadRamdisk_keepsHeap : KeepsHeap loadRamdisk := by
  refine (fwCfgSelect_keepsHeap _).bind fun _ => fwCfgReadlLe_keepsHeap.bind fun _ =>
    KeepsHeap.ite ?_ (KeepsHeap.pure _)
  refine (fwCfgSelect_keepsHeap _).bind fun _ => fwCfgReadlLe_keepsHeap.bind fun _ =>
    (fwCfgReadEntry_keepsHeap _ _ _).bind fun _ => KeepsHeap.bind ?_ fun _ => KeepsHeap.pure _
  exact KeepsHeap.modify fun _ => rfl

theorem loadBzimage_keepsHeap (args : LinuxbootArgs) (kernelSize : BitVec 32) :
    KeepsHeap (loadBzimage args kernelSize) := by
  have hparts : KeepsHeap (do
      fwCfgSelect FW_CFG_KERNEL_DATA
      fwCfgReadEntry (FW_CFG_KERNEL_DATA.setWidth 32) args.kernelAddr kernelSize
      fwCfgReadEntry (FW_CFG_CMDLINE_DATA.setWidth 32) args.cmdlineAddr args.cmdlineSize
      if args.initrdSize ≠ 0#32 then
        fwCfgReadEntry (FW_CFG_INITRD_DATA.setWidth 32) args.initrdAddr args.initrdSize
      throw (Stop.bzImage args) : Fw Unit) :=
    (fwCfgSelect_keepsHeap _).bind fun _ => (fwCfgReadEntry_keepsHeap _ _ _).bind fun _ =>
      (fwCfgReadEntry_keepsHeap _ _ _).bind fun _ =>
        KeepsHeap.ite ((fwCfgReadEntry_keepsHeap _ _ _).bind fun _ => KeepsHeap.throw _)
          (KeepsHeap.throw _)
  exact KeepsHeap.ite ((fwCfgRead_keepsHeap _ _).bind fun _ => hparts) hparts

/-! ### The whole of `main` -/

section Main

open StateRun

variable {I : Firmware → Prop} (hI : HeapInvariant I)

include hI

theorem finishPci_keeps (platform : Platform) (labels : Labels) :
    Keeps I (finishPci platform labels) := by
  refine ((KeepsHeap.panicIf _).keeps hI).bind fun _ => ?_
  refine (mallocIn_keeps hI .fseg 16#32 (by decide)).bind fun bios32 => ?_
  refine KeepsHeap.keeps ?_ hI
  exact (KeepsHeap.poke _ _).bind fun _ => (KeepsHeap.poke _ _).bind fun _ =>
    (KeepsHeap.poke _ _).bind fun _ => (KeepsHeap.poke _ _).bind fun _ =>
      (KeepsHeap.poke _ _).bind fun _ => lowerChecksum_keepsHeap _ _

theorem rereadFiles_keeps (d : FileTable) : Keeps I (rereadFiles d) :=
  (rereadFiles_keepsHeap d).keeps hI

theorem fwCfgSetupTable_keeps : Keeps I fwCfgSetupTable := by
  refine ((fwCfgSelect_keepsHeap _).keeps hI).bind fun _ =>
    (fwCfgReadlLe_keepsHeap.keeps hI).bind fun version => Keeps.bind ?_ fun _ => ?_
  · exact Keeps.modify fun s hs => hI.heap s _ rfl hs
  refine ((fwCfgSelect_keepsHeap _).keeps hI).bind fun _ =>
    (fwCfgReadlBe_keepsHeap.keeps hI).bind fun n => (mallocFseg_keeps hI _).bind fun files => ?_
  refine KeepsHeap.keeps ?_ hI
  exact (fwCfgRead_keepsHeap _ _).bind fun _ =>
    (KeepsHeap.forM _ fun _ _ => swapFile_keepsHeap _).bind fun _ => KeepsHeap.pure _

theorem fwCfgSetup_keeps : Keeps I fwCfgSetup := by
  rw [fwCfgSetup_eq_reread]
  exact (fwCfgSetupTable_keeps hI).bind fun d => rereadFiles_keeps hI d

theorem doAlloc_keeps (file : List Byte) (align : BitVec 32) (zone : Byte) :
    Keeps I (doAlloc file align zone) := by
  refine ((fwCfgFileId_keepsHeap _).keeps hI).bind fun id =>
    ((fwCfgFileSize_keepsHeap _).keeps hI).bind fun n =>
      ((KeepsHeap.panicIf _).keeps hI).bind fun _ =>
        (mallocIn_keeps hI _ n (tableAlign_pos align)).bind fun p => ?_
  refine KeepsHeap.keeps ?_ hI
  exact (setFileAddr_keepsHeap _ _).bind fun _ => (fwCfgReadFile_keepsHeap _ _ _).bind fun _ =>
    saveRsdp_keepsHeap _ _ _

theorem loaderCmd_keeps (cmd : LoaderCmd) : Keeps I cmd.run := by
  cases cmd with
  | quit => exact Keeps.pure _
  | alloc file align zone => exact doAlloc_keeps hI file align zone
  | ptr dest src offset size => exact (doPtr_keepsHeap dest src offset size).keeps hI
  | checksum file offset start len => exact (doChecksum_keepsHeap file offset start len).keeps hI
  | unknown cmd => exact Keeps.throw _

theorem runScript_keeps (cmds : List LoaderCmd) : Keeps I (runScript cmds) := by
  induction cmds with
  | nil => exact Keeps.pure _
  | cons cmd rest ih =>
    have hcmd := (loaderCmd_keeps hI cmd).bind fun _ => ih
    cases cmd with
    | quit => exact Keeps.pure _
    | alloc file align zone => exact hcmd
    | ptr dest src offset size => exact hcmd
    | checksum file offset start len => exact hcmd
    | unknown cmd => exact hcmd

theorem withScript_keeps {run : List LoaderCmd → Fw Unit} (hrun : ∀ script, Keeps I (run script)) :
    Keeps I (withScript run) := by
  refine ((fwCfgFileId_keepsHeap _).keeps hI).bind fun id =>
    ((fwCfgFileSize_keepsHeap _).keeps hI).bind fun n =>
      (Keeps.pure _).ite ((Keeps.throw _).ite ?_)
  exact ((fwCfgReadFileLocal_keepsHeap _ _).keeps hI).bind fun _ => hrun _

theorem extractAcpi_keeps : Keeps I extractAcpi := by
  rw [extractAcpi_eq_withScript]
  exact withScript_keeps hI fun script => runScript_keeps hI script

theorem extractE820_keeps : Keeps I extractE820 :=
  ((fwCfgFileId_keepsHeap _).keeps hI).bind fun _ => ((KeepsHeap.panicIf _).keeps hI).bind fun _ =>
    ((fwCfgFileSize_keepsHeap _).keeps hI).bind fun _ => (malloc_keeps hI _).bind fun _ =>
      (fillMap_keepsHeap _ _ _ _).keeps hI

theorem readSmbiosTables_keeps (ep : BitVec 32) : Keeps I (readSmbiosTables ep) := by
  refine ((KeepsHeap.peek _ _).keeps hI).bind fun _ =>
    ((fwCfgFileId_keepsHeap _).keeps hI).bind fun _ =>
      ((fwCfgFileSize_keepsHeap _).keeps hI).bind fun _ => (Keeps.pure _).ite ?_
  refine (mallocFseg_keeps hI _).bind fun _ => (Keeps.pure _).ite ?_
  exact ((fwCfgReadFile_keepsHeap _ _ _).keeps hI).bind fun _ =>
    (publishSmbios_keepsHeap _ _ _).keeps hI

theorem extractSmbios_keeps : Keeps I extractSmbios := by
  refine ((fwCfgFileId_keepsHeap _).keeps hI).bind fun _ =>
    ((fwCfgFileSize_keepsHeap _).keeps hI).bind fun _ => (Keeps.pure _).ite ?_
  refine (mallocFseg_keeps hI _).bind fun _ => (Keeps.pure _).ite ?_
  exact ((fwCfgReadFile_keepsHeap _ _ _).keeps hI).bind fun _ => readSmbiosTables_keeps hI _

theorem pvhE820Setup_keeps : Keeps I pvhE820Setup := by
  refine (KeepsHeap.get.keeps hI).bind fun s => ((KeepsHeap.peek _ _).keeps hI).bind fun _ =>
    (malloc_keeps hI _).bind fun pvh => KeepsHeap.keeps ?_ hI
  refine (KeepsHeap.poke _ _).bind fun _ => (pvhLoop_keepsHeap _ _ _).bind fun _ =>
    (KeepsHeap.peek _ _).bind fun _ => ?_
  exact KeepsHeap.modify fun _ => rfl

theorem bootPvhFromFwCfg_keeps : Keeps I bootPvhFromFwCfg := by
  have hword {β : Type} (key : BitVec 16) {f : BitVec 32 → Fw β} (hf : ∀ v, Keeps I (f v)) :
      Keeps I (fwCfgSelect key >>= fun _ => fwCfgReadlLe >>= f) :=
    ((fwCfgSelect_keepsHeap key).keeps hI).bind fun _ => (fwCfgReadlLe_keepsHeap.keeps hI).bind hf
  have hset {f : Firmware → Firmware} (hf : ∀ s, (f s).heap = s.heap) :
      Keeps I (modify f : Fw PUnit) := (KeepsHeap.modify hf).keeps hI
  refine Keeps.bind (hset fun _ => rfl) fun _ => hword _ fun cmdlineSize => ?_
  refine (malloc_keeps hI cmdlineSize).bind fun cmdlineAddr => ?_
  refine ((fwCfgReadEntry_keepsHeap _ _ _).keeps hI).bind fun _ => ?_
  refine Keeps.bind (hset fun _ => rfl) fun _ => ?_
  refine (loadRamdisk_keepsHeap.keeps hI).bind fun ramdisk => ?_
  refine (pvhE820Setup_keeps hI).bind fun _ => ?_
  refine hword _ fun sz => ((KeepsHeap.panicIf _).keeps hI).bind fun _ => ?_
  exact hword _ fun _ => Keeps.throw _

theorem bootKernel_keeps (args : LinuxbootArgs) (kernelSize : BitVec 32) :
    Keeps I (bootKernel args kernelSize) := by
  refine ((fwCfgSelect_keepsHeap _).keeps hI).bind fun _ =>
    ((fwCfgRead_keepsHeap _ _).keeps hI).bind fun _ =>
      ((parseBzimage_keepsHeap _).keeps hI).bind fun parsed => ?_
  have hmultiboot := bootMultibootFromFwCfg_keepsHeap.keeps hI
  cases parsed with
  | some args => exact (loadBzimage_keepsHeap args kernelSize).keeps hI
  | none =>
    exact ((ldlP_keepsHeap _).keeps hI).bind fun _ =>
      ((bootPvhFromFwCfg_keeps hI).bind fun _ => hmultiboot).ite hmultiboot

theorem bootFromFwcfg_keeps : Keeps I bootFromFwcfg := by
  have hword {β : Type} (key : BitVec 16) {f : BitVec 32 → Fw β} (hf : ∀ v, Keeps I (f v)) :
      Keeps I (fwCfgSelect key >>= fun _ => fwCfgReadlLe >>= f) :=
    ((fwCfgSelect_keepsHeap key).keeps hI).bind fun _ => (fwCfgReadlLe_keepsHeap.keeps hI).bind hf
  refine hword _ fun _ => hword _ fun _ => hword _ fun _ => hword _ fun _ => hword _ fun _ => ?_
  exact (Keeps.pure _).ite (bootKernel_keeps hI _ _)

/-- The part of `main` behind the table loader. -/
theorem afterAcpi_keeps (platform : Platform) : Keeps I (do
    extractE820
    setupMptable platform.stepping platform.features
    extractSmbios
    bootFromFwcfg
    throw Stop.panic : Fw Unit) :=
  (extractE820_keeps hI).bind fun _ => ((setupMptable_keepsHeap _ _).keeps hI).bind fun _ =>
    (extractSmbios_keeps hI).bind fun _ => (bootFromFwcfg_keeps hI).bind fun _ => Keeps.throw _

/-- What the allocators keep holds wherever `main` ends. -/
theorem main_keeps (platform : Platform) (labels : Labels) : Keeps I (main platform labels) := by
  have hrest := ((setupIdt_keepsHeap labels).keeps hI).bind fun _ => (fwCfgSetup_keeps hI).bind
    fun _ => (extractAcpi_keeps hI).bind fun _ => afterAcpi_keeps hI platform
  refine Keeps.bind ?_ fun _ => ?_
  · exact Keeps.modify fun s hs => hI.heap s _ rfl hs
  · exact ((finishPci_keeps hI platform labels).bind fun _ => hrest).ite hrest

end Main

end Qboot
