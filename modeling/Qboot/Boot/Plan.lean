import Qboot.Boot.Room
import Qboot.Boot.Setup

/-!
The boot on the directory in memory, up to the kernel. What it allocates and how
it ends is a plan that the device alone decides: the sizes of its directory and
of the files in it, the table loader's script, and the length in the SMBIOS
anchor.
-/

namespace Qboot

open Bytes ByteMemory

/-! ### The boot with every lookup in memory -/

/-- `fillMap`. Half of the map is written when the file is selected. -/
def fillMapReread (d : FileTable) (id : Int) (size : BitVec 32) (nrMap : Nat)
    (e820 : BitVec 32) : Fw Unit := do
  modify fun s => { s with e820 := e820 }
  poke e820 (toLE 4 nrMap)
  storeEntries e820 0 fixedEntries
  let s ← get
  let extra := mmconfigEntries s.haveMmconfig
  storeEntries e820 4 extra
  let i := 4 + extra.length
  rereadFiles d
  fwCfgReadFile id (mapEntry e820 i) size
  let count ← peek e820 4
  rebaseLoop e820 i (ofLE count - i)
  modify fun s => { s with e820Seg := (e820 >>> 4).setWidth 16 }

/-- `extract_e820` -/
def extractE820Reread (d : FileTable) : Fw Unit := do
  rereadFiles d
  let id ← fwCfgFileId e820Name
  panicIf (id = -1)
  let size ← fwCfgFileSize id
  let nrMap := size.toNat / e820EntryBytes + 5
  let e820 ← malloc (BitVec.ofNat 32 (4 + e820EntryBytes * nrMap))
  fillMapReread d id size nrMap e820

/-- `extract_smbios`. The anchor is written between its two lookups. -/
def extractSmbiosReread (d : FileTable) : Fw Unit := do
  rereadFiles d
  let id ← fwCfgFileId smbiosAnchorName
  let size ← fwCfgFileSize id
  if id = -1 ∨ BitVec.ofNat 32 smbiosEntryPointBytes ≠ size then pure ()
  else do
    let ep ← mallocFseg (BitVec.ofNat 32 smbiosEntryPointBytes)
    if ep = 0#32 then pure ()
    else do
      fwCfgReadFile id ep (BitVec.ofNat 32 smbiosEntryPointBytes)
      rereadFiles d
      readSmbiosTables ep

/-- The tables of `main`, once the directory is in memory. -/
def setupTablesReread (platform : Platform) (d : FileTable) : Fw Unit := do
  extractAcpiReread d
  extractE820Reread d
  setupMptable platform.stepping platform.features
  extractSmbiosReread d

/-- `main` up to the boot. -/
def setupReread (platform : Platform) (labels : Labels) : Fw Unit := do
  modify fun s => { s with haveMmconfig := platform.haveMmconfig }
  if platform.havePci = true then
    finishPci platform labels
  setupIdt labels
  let d ← fwCfgSetupTable
  setupTablesReread platform d

/-! ### The plan of a boot -/

/-- The BIOS32 directory, on a machine with PCI. -/
def pciPlan (platform : Platform) : Plan :=
  if platform.havePci = true then
    if platform.knownBridge = false then Plan.stops .panics else Plan.block .fseg 16#32 16#32
  else Plan.stops .returns

/-- The records of the directory. -/
def directoryPlan (dev : FwCfg) : Plan where
  requests := [{ zone := .fseg, size := 64#32 * dev.fileCount, align := 16#32 }]
  ending :=
    if fwCfgFileBytes * dev.fileCount.toInt.toNat < 2 ^ 32 then .returns else .overruns

/-- The memory map. -/
def e820Plan (files : List FwCfgFile) : Plan :=
  match fileNamed files e820Name with
  | none => Plan.stops .panics
  | some f =>
    { requests := [{
        zone := .low
        size := BitVec.ofNat 32 (4 + e820EntryBytes * (f.size.toNat / e820EntryBytes + 5))
        align := 16#32 }]
      ending :=
        if e820EntryBytes ∣ f.size.toNat ∧ 104 + f.size.toNat < 2 ^ 32 then .returns
        else .overruns }

/-- The MP table has a fixed place, below all blocks. -/
def mptablePlan (dev : FwCfg) : Plan :=
  Plan.stops (if 0x9fc00 + (16 + dev.mpTableBytes) ≤ nvsStart then .returns else .overruns)

/-- The length field of the SMBIOS anchor. -/
def anchorLength (anchor : List Byte) : BitVec 16 := BitVec.ofNat 16 (ofLE (slice anchor 22 2))

/-- The SMBIOS tables behind an anchor, with room for a structure of type 0. -/
def smbiosTablesPlan (files : List FwCfgFile) (qtablesLength : BitVec 16) : Plan :=
  match fileNamed files smbiosTablesName with
  | none => Plan.stops .returns
  | some f =>
    if qtablesLength.setWidth 32 ≠ f.size then Plan.stops .returns
    else Plan.block .fseg (qtablesLength.setWidth 32 + BitVec.ofNat 32 t0Len) 16#32

/-- The SMBIOS anchor and its tables. -/
def smbiosPlan (files : List FwCfgFile) (entry : BitVec 16 → List Byte) : Plan :=
  match fileNamed files smbiosAnchorName with
  | none => Plan.stops .returns
  | some f =>
    if BitVec.ofNat 32 smbiosEntryPointBytes ≠ f.size then Plan.stops .returns
    else (Plan.block .fseg (BitVec.ofNat 32 smbiosEntryPointBytes) 16#32).andThen
      (smbiosTablesPlan files
        (anchorLength (entryBytes (entry f.select) 0 smbiosEntryPointBytes)))

/-- The tables of a device with these files. -/
def tablesPlan (files : List FwCfgFile) (dev : FwCfg) : Plan :=
  (acpiPlan files dev.entry).andThen
    ((e820Plan files).andThen ((mptablePlan dev).andThen (smbiosPlan files dev.entry)))

/-- The blocks of a boot, and its end. -/
def bootPlan (platform : Platform) (dev : FwCfg) : Plan :=
  (pciPlan platform).andThen
    ((directoryPlan dev).andThen (tablesPlan (dev.directory.map RawRecord.file) dev))

/-! ### The alignments of a plan -/

theorem scriptPlan_aligned (files : List FwCfgFile) (script : List LoaderCmd)
    (placed : Fin 20 → Bool) :
    ∀ r ∈ (scriptPlan files script placed).requests, 0 < r.align.toNat := by
  induction script generalizing placed with
  | nil =>
    intro r hr
    cases hr
  | cons cmd rest ih =>
    rw [scriptPlan]
    cases haction : cmd.action files placed with
    | place i r =>
      intro q hq
      rcases List.mem_cons.mp hq with rfl | hq
      · exact action_aligned haction
      · exact ih _ q hq
    | patch i => exact ih placed
    | stop e =>
      intro r hr
      cases hr

theorem acpiPlan_aligned (files : List FwCfgFile) (entry : BitVec 16 → List Byte) :
    ∀ r ∈ (acpiPlan files entry).requests, 0 < r.align.toNat := by
  unfold acpiPlan
  split
  · intro r hr
    cases hr
  · split
    · exact scriptPlan_aligned files _ _
    · intro r hr
      cases hr

theorem block_aligned (zone : Zone) (n : BitVec 32) {align : BitVec 32} (h : 0 < align.toNat) :
    ∀ r ∈ (Plan.block zone n align).requests, 0 < r.align.toNat := by
  intro r hr
  rw [List.mem_singleton.mp hr]
  exact h

theorem stops_aligned (e : Ending) : ∀ r ∈ (Plan.stops e).requests, 0 < r.align.toNat :=
  fun _ hr => absurd hr List.not_mem_nil

theorem directoryPlan_aligned (dev : FwCfg) :
    ∀ r ∈ (directoryPlan dev).requests, 0 < r.align.toNat := by
  intro r hr
  rw [List.mem_singleton.mp hr]
  change 0 < (16#32).toNat
  decide

theorem e820Plan_aligned (files : List FwCfgFile) :
    ∀ r ∈ (e820Plan files).requests, 0 < r.align.toNat := by
  unfold e820Plan
  split
  · exact stops_aligned _
  · intro r hr
    rw [List.mem_singleton.mp hr]
    change 0 < (16#32).toNat
    decide

theorem smbiosTablesPlan_aligned (files : List FwCfgFile) (n : BitVec 16) :
    ∀ r ∈ (smbiosTablesPlan files n).requests, 0 < r.align.toNat := by
  unfold smbiosTablesPlan
  split
  · exact stops_aligned _
  · split
    · exact stops_aligned _
    · exact block_aligned _ _ (by decide)

theorem smbiosPlan_aligned (files : List FwCfgFile) (entry : BitVec 16 → List Byte) :
    ∀ r ∈ (smbiosPlan files entry).requests, 0 < r.align.toNat := by
  unfold smbiosPlan
  split
  · exact stops_aligned _
  · split
    · exact stops_aligned _
    · exact andThen_aligned (block_aligned _ _ (by decide)) (smbiosTablesPlan_aligned files _)

theorem tablesPlan_aligned (files : List FwCfgFile) (dev : FwCfg) :
    ∀ r ∈ (tablesPlan files dev).requests, 0 < r.align.toNat :=
  andThen_aligned (acpiPlan_aligned files dev.entry) <|
    andThen_aligned (e820Plan_aligned files) <|
      andThen_aligned (stops_aligned _) (smbiosPlan_aligned files dev.entry)

end Qboot
