import Qboot.Handover
import Qboot.Linuxboot.Outcomes

/-!
What a PVH or multiboot kernel finds in memory when it is started: the parts
that the device holds for it, and the memory map of the firmware in the format
of the kernel.
-/

namespace Qboot

open Bytes ByteMemory

/-! ### PVH -/

/-- The command line in memory. -/
def Firmware.pvhCmdline (s : Firmware) : BitVec 32 :=
  (s.request .low (s.dev.word FW_CFG_CMDLINE_SIZE) 16#32).base

/-- The table of a map of `count` entries, which is allocated behind the
command line. -/
def Firmware.pvhTableAt (s : Firmware) (count : Nat) : BitVec 32 :=
  (s.allocate (s.request .low (s.dev.word FW_CFG_CMDLINE_SIZE) 16#32)).pvhBlock count

/-- The parts that a PVH kernel finds, with their sizes. -/
def Firmware.pvhParts (s : Firmware) (count : Nat) : List (BitVec 32 × Nat) :=
  [(s.pvhCmdline, (s.dev.word FW_CFG_CMDLINE_SIZE).toNat),
   (s.dev.word FW_CFG_INITRD_ADDR, (s.dev.word FW_CFG_INITRD_SIZE).toNat),
   (s.pvhTableAt count, hvmMemmapEntryBytes * count)]

/-- The parts do not meet, and neither they nor the first bytes of the kernel
meet the map. -/
structure PvhApart (s : Firmware) (count : Nat) : Prop where
  parts : (s.pvhParts count).Pairwise fun p q => Apart p.1 p.2 q.1 q.2
  map : ∀ p ∈ (s.dev.word FW_CFG_SETUP_ADDR, HEADER_PEEK_SIZE.toNat) :: s.pvhParts count,
    Apart s.e820 (4 + e820EntryBytes * count) p.1 p.2

/-- What a PVH kernel finds. `s` is the machine before the boot and `s'` the
machine when the kernel starts. -/
structure PvhHandover (s s' : Firmware) (es : List E820Entry) : Prop where
  magic : s'.startInfo.magic = XEN_HVM_START_MAGIC_VALUE
  version : s'.startInfo.version = 1#32
  flags : s'.startInfo.flags = 0#32
  reserved : s'.startInfo.reserved = 0#32
  rsdp : s'.startInfo.rsdpPaddr = s.startInfo.rsdpPaddr
  cmdline : load s'.mem (s'.startInfo.cmdlinePaddr.setWidth 32)
      (s.dev.word FW_CFG_CMDLINE_SIZE).toNat =
    entryBytes (s.dev.entry FW_CFG_CMDLINE_DATA) 0 (s.dev.word FW_CFG_CMDLINE_SIZE).toNat
  modules : s'.startInfo.nrModules.toNat = s.dev.ramdisk.toList.length
  modlist : s.dev.ramdisk ≠ none → s'.startInfo.modlistPaddr = s.pvhFrame.setWidth 64
  initrd : load s'.mem (s.dev.word FW_CFG_INITRD_ADDR) (s.dev.word FW_CFG_INITRD_SIZE).toNat =
    entryBytes (s.dev.entry FW_CFG_INITRD_DATA) 0 (s.dev.word FW_CFG_INITRD_SIZE).toNat
  map : s'.pvhTable = es.map E820Entry.pvh

theorem setupPeek_congr {d d' : FwCfg} (h : d'.entry = d.entry) : d'.setupPeek = d.setupPeek := by
  rw [FwCfg.setupPeek, FwCfg.setupPeek, FwCfg.setupData, FwCfg.setupData, h]

/-- The machine with the first bytes of the setup part at `p`. -/
def Firmware.peekedAt (s : Firmware) (p : BitVec 32) (bs : List Byte) (key : BitVec 16)
    (pos : Nat) : Firmware :=
  { s with mem := store s.mem p bs, dev := { s.dev with key := key, pos := pos } }

/-- What is left of the boot of a kernel that is no bzImage. -/
theorem bootFromFwcfg_other {s : Firmware} (hsome : s.dev.linuxbootArgs.vmlinuzSize ≠ 0#32)
    (hbz : ¬ IsBzimage s.dev.setupPeek) : ∃ key pos,
    bootFromFwcfg s =
      (if s.dev.IsElf then bootPvhFromFwCfg >>= fun _ => bootMultibootFromFwCfg
        else bootMultibootFromFwCfg)
      (s.peekedAt (s.dev.word FW_CFG_SETUP_ADDR) s.dev.setupPeek key pos) := by
  let t : Firmware := { s with dev := (s.dev.select FW_CFG_SETUP_ADDR).skip 4 }
  have hpeek : t.dev.setupPeek = s.dev.setupPeek := setupPeek_congr rfl
  have hword : t.dev.word FW_CFG_SETUP_ADDR = s.dev.word FW_CFG_SETUP_ADDR := word_congr rfl _
  have hother := bootKernel_other t (by rwa [hpeek])
  rw [Firmware.peeked, hpeek, hword] at hother
  exact ⟨_, _, (bootFromFwcfg_apply s hsome).trans hother⟩

section Pvh

variable {s : Firmware} {es : List E820Entry}

/-- The fields of `start_info` for an initrd. -/
def HvmStartInfo.withRamdisk (info : HvmStartInfo) (frame : BitVec 32)
    (ramdisk : Option HvmModlistEntry) : HvmStartInfo :=
  { info with
    modlistPaddr := if ramdisk = none then info.modlistPaddr else frame.setWidth 64
    nrModules := if ramdisk = none then info.nrModules else 1#32 }

/-- An initrd of no bytes is not read, which leaves the memory the same. -/
theorem loadRamdisk_mem (s : Firmware) : ∃ dev,
    loadRamdisk s = .ok s.dev.ramdisk { s with
      dev := dev
      mem := store s.mem (s.dev.word FW_CFG_INITRD_ADDR)
        (entryBytes (s.dev.entry FW_CFG_INITRD_DATA) 0 (s.dev.word FW_CFG_INITRD_SIZE).toNat)
      startInfo := s.startInfo.withRamdisk s.pvhFrame s.dev.ramdisk } ∧
      dev.entry = s.dev.entry := by
  rw [loadRamdisk, readWord_apply, FwCfg.ramdisk, HvmStartInfo.withRamdisk]
  by_cases hsize : s.dev.word FW_CFG_INITRD_SIZE ≠ 0#32
  · rw [if_pos hsize, if_pos hsize, readWord_apply, if_neg (Option.some_ne_none _),
      if_neg (Option.some_ne_none _)]
    exact ⟨_, (StateRun.bind_of_ok (fwCfgReadEntry_apply _ _ _ _)).trans rfl, rfl⟩
  · have hempty : store s.mem (s.dev.word FW_CFG_INITRD_ADDR) (entryBytes
        (s.dev.entry FW_CFG_INITRD_DATA) 0 (s.dev.word FW_CFG_INITRD_SIZE).toNat) = s.mem := by
      rw [not_not.mp hsize]
      exact store_nil _ _
    rw [if_neg hsize, if_neg hsize, if_pos rfl, if_pos rfl, hempty]
    exact ⟨_, rfl, rfl⟩

/-- The parts that the PVH boot stores, in the order of the code. -/
def Firmware.pvhBlocks (s : Firmware) (es : List E820Entry) : List (BitVec 32 × List Byte) :=
  [(s.pvhCmdline, entryBytes (s.dev.entry FW_CFG_CMDLINE_DATA) 0
     (s.dev.word FW_CFG_CMDLINE_SIZE).toNat),
   (s.dev.word FW_CFG_INITRD_ADDR, entryBytes (s.dev.entry FW_CFG_INITRD_DATA) 0
     (s.dev.word FW_CFG_INITRD_SIZE).toNat),
   (s.pvhTableAt es.length, pvhBytesOf es)]

/-- `start_info` when the kernel starts. -/
def Firmware.pvhStartInfo (s : Firmware) (count : Nat) : HvmStartInfo :=
  { { s.startInfo with
      magic := XEN_HVM_START_MAGIC_VALUE
      version := 1#32
      flags := 0#32
      nrModules := 0#32
      reserved := 0#32
      cmdlinePaddr := s.pvhCmdline.setWidth 64 }.withRamdisk s.pvhFrame s.dev.ramdisk with
    memmapPaddr := (s.pvhTableAt count).setWidth 64
    memmapEntries := BitVec.ofNat 32 count }

/-- A map that memory holds is not hit by blocks apart from it. -/
theorem MapHeld.storeBlocks {m : Mem} {e820 : BitVec 32} (h : MapHeld m e820 es)
    (hfit : 4 + e820EntryBytes * es.length ≤ 2 ^ 32) {blocks : List (BitVec 32 × List Byte)}
    (happ : ∀ b ∈ blocks, Apart e820 (4 + e820EntryBytes * es.length) b.1 b.2.length) :
    MapHeld (storeBlocks m blocks) e820 es :=
  (load_storeBlocks_outside m hfit happ).trans h

/-- The machine when the map is copied. `dev` is the device as the initrd left
it. -/
def Firmware.pvhLoaded (s : Firmware) (dev : FwCfg) : Firmware :=
  let t := s.allocate (s.request .low (s.dev.word FW_CFG_CMDLINE_SIZE) 16#32)
  { t with
    dev := dev
    mem := storeBlocks s.mem [(s.pvhCmdline, entryBytes (s.dev.entry FW_CFG_CMDLINE_DATA) 0
        (s.dev.word FW_CFG_CMDLINE_SIZE).toNat),
      (s.dev.word FW_CFG_INITRD_ADDR, entryBytes (s.dev.entry FW_CFG_INITRD_DATA) 0
        (s.dev.word FW_CFG_INITRD_SIZE).toNat)]
    startInfo := HvmStartInfo.withRamdisk { s.startInfo with
      magic := XEN_HVM_START_MAGIC_VALUE
      version := 1#32
      flags := 0#32
      nrModules := 0#32
      reserved := 0#32
      cmdlinePaddr := s.pvhCmdline.setWidth 64 } s.pvhFrame s.dev.ramdisk }

/-- The part of the boot behind the initrd. -/
def pvhStart (ramdisk : Option HvmModlistEntry) : Fw Unit := do
  pvhE820Setup
  fwCfgSelect FW_CFG_KERNEL_SIZE
  let sz ← fwCfgReadlLe
  panicIf (sz = 0#32)
  fwCfgSelect FW_CFG_KERNEL_ENTRY
  let kernelEntry ← fwCfgReadlLe
  throw (Stop.pvh kernelEntry ramdisk)

/-- Behind the map only the device is read. -/
theorem pvhStart_apply (ramdisk : Option HvmModlistEntry) {t u : Firmware} {d : FwCfg}
    (hmap : pvhE820Setup t = .ok () u) (hentry : u.dev.entry = d.entry)
    (hkernel : d.word FW_CFG_KERNEL_SIZE ≠ 0#32) : ∃ s',
    pvhStart ramdisk t = .error (.pvh (d.word FW_CFG_KERNEL_ENTRY) ramdisk) s' ∧
      s'.mem = u.mem ∧ s'.startInfo = u.startInfo := by
  let dev := ((((u.dev.select FW_CFG_KERNEL_SIZE).skip 4).select FW_CFG_KERNEL_ENTRY).skip 4)
  refine ⟨{ u with dev := dev }, (StateRun.bind_of_ok hmap).trans ?_, rfl, rfl⟩
  rw [readWord_apply, word_congr hentry, StateRun.bind_of_ok (panicIf_of_not hkernel _),
    readWord_apply]
  exact congrArg (fun entry => EStateM.Result.error (Stop.pvh entry ramdisk) { u with dev := dev })
    (word_congr hentry FW_CFG_KERNEL_ENTRY)

theorem bootPvhFromFwCfg_loaded (s : Firmware) : ∃ dev,
    bootPvhFromFwCfg s = pvhStart s.dev.ramdisk (s.pvhLoaded dev) ∧ dev.entry = s.dev.entry := by
  let info : HvmStartInfo := { s.startInfo with
    magic := XEN_HVM_START_MAGIC_VALUE
    version := 1#32
    flags := 0#32
    nrModules := 0#32
    reserved := 0#32 }
  let a := s.request .low (s.dev.word FW_CFG_CMDLINE_SIZE) 16#32
  let t : Firmware := { s.allocate a with
    mem := store s.mem s.pvhCmdline (entryBytes (s.dev.entry FW_CFG_CMDLINE_DATA) 0
      (s.dev.word FW_CFG_CMDLINE_SIZE).toNat)
    dev := (((s.dev.select FW_CFG_CMDLINE_SIZE).skip 4).select FW_CFG_CMDLINE_DATA).skip
      (s.dev.word FW_CFG_CMDLINE_SIZE).toNat
    startInfo := { info with cmdlinePaddr := s.pvhCmdline.setWidth 64 } }
  obtain ⟨dev, hramdisk, hentry⟩ := loadRamdisk_mem t
  refine ⟨dev, ?_, hentry⟩
  rw [bootPvhFromFwCfg]
  refine (StateRun.bind_of_ok (StateRun.modify_apply _ s)).trans ?_
  rw [readWord_apply]
  refine (StateRun.bind_of_ok (mallocAlign_apply _ 16#32 _)).trans
    ((StateRun.bind_of_ok (fwCfgReadEntry_apply _ _ _ _)).trans
      ((StateRun.bind_of_ok (StateRun.modify_apply _ _)).trans ?_))
  exact StateRun.bind_of_ok hramdisk

theorem bootPvhFromFwCfg_apply (hkernel : s.dev.word FW_CFG_KERNEL_SIZE ≠ 0#32)
    (hheld : MapHeld s.mem s.e820 es) (hfit : hvmMemmapEntryBytes * es.length < 2 ^ 32)
    (happ : ∀ p ∈ s.pvhParts es.length, Apart s.e820 (4 + e820EntryBytes * es.length) p.1 p.2) :
    ∃ s', bootPvhFromFwCfg s =
        .error (.pvh (s.dev.word FW_CFG_KERNEL_ENTRY) s.dev.ramdisk) s' ∧
      s'.mem = storeBlocks s.mem (s.pvhBlocks es) ∧
      s'.startInfo = s.pvhStartInfo es.length := by
  have hbytes : hvmMemmapEntryBytes = 24 := rfl
  have hmapFit : 4 + e820EntryBytes * es.length ≤ 2 ^ 32 := by
    rw [hbytes] at hfit
    rw [show e820EntryBytes = 20 from rfl]
    omega
  obtain ⟨dev, hrun, hentry⟩ := bootPvhFromFwCfg_loaded s
  have hloaded : MapHeld (s.pvhLoaded dev).mem s.e820 es := by
    apply hheld.storeBlocks hmapFit
    intro b hb
    simp only [List.mem_cons, List.not_mem_nil, or_false] at hb
    rcases hb with rfl | rfl
    · rw [length_entryBytes]
      exact happ (s.pvhCmdline, _) List.mem_cons_self
    · rw [length_entryBytes]
      exact happ (s.dev.word FW_CFG_INITRD_ADDR, _) (List.mem_cons_of_mem _ List.mem_cons_self)
  have htable : Apart s.e820 (4 + e820EntryBytes * es.length) (s.pvhTableAt es.length)
      (hvmMemmapEntryBytes * es.length) :=
    happ (s.pvhTableAt es.length, _) (List.mem_cons_of_mem _ (List.mem_cons_of_mem _
      List.mem_cons_self))
  have he820 : (s.pvhLoaded dev).e820 = s.e820 := allocate_e820 s _
  have hblock : (s.pvhLoaded dev).pvhBlock es.length = s.pvhTableAt es.length := rfl
  rw [← he820] at hloaded htable
  rw [← hblock] at htable
  have hmap := pvhE820Setup_apply hloaded hfit htable
  obtain ⟨s', hstart, hmem, hinfo⟩ := pvhStart_apply s.dev.ramdisk hmap
    ((congrArg FwCfg.entry (allocate_dev _ _)).trans hentry) hkernel
  exact ⟨s', hrun.trans hstart, hmem, hinfo⟩

theorem length_pvhBlocks (s : Firmware) (es : List E820Entry) :
    (s.pvhBlocks es).map (fun b => (b.1, b.2.length)) = s.pvhParts es.length := by
  simp only [Firmware.pvhBlocks, Firmware.pvhParts, List.map_cons, List.map_nil,
    length_entryBytes, length_pvhBytesOf]

theorem pvhParts_fit (s : Firmware) {count : Nat} (hfit : hvmMemmapEntryBytes * count < 2 ^ 32) :
    ∀ p ∈ s.pvhParts count, p.2 ≤ 2 ^ 32 := by
  intro p hp
  simp only [Firmware.pvhParts, List.mem_cons, List.not_mem_nil, or_false] at hp
  rcases hp with rfl | rfl | rfl
  · exact (BitVec.isLt _).le
  · exact (BitVec.isLt _).le
  · exact hfit.le

/-- The stored parts are what the kernel finds. -/
theorem pvhHandover_of_blocks {m : Mem} {s' : Firmware} (happ : PvhApart s es.length)
    (hfit : hvmMemmapEntryBytes * es.length < 2 ^ 32) (hmem : s'.mem = storeBlocks m (s.pvhBlocks es))
    (hinfo : s'.startInfo = s.pvhStartInfo es.length) : PvhHandover s s' es := by
  have hranges : ((s.pvhBlocks es).map fun b => (b.1, b.2.length)).Pairwise
      fun p q => Apart p.1 p.2 q.1 q.2 := by
    rw [length_pvhBlocks]
    exact happ.parts
  have hpairs : (s.pvhBlocks es).Pairwise fun b c => Apart b.1 b.2.length c.1 c.2.length :=
    List.pairwise_map.mp hranges
  have hlen : ∀ b ∈ s.pvhBlocks es, b.2.length ≤ 2 ^ 32 := by
    intro b hb
    apply pvhParts_fit s hfit (b.1, b.2.length)
    rw [← length_pvhBlocks]
    exact List.mem_map_of_mem hb
  have hload := fun b hb => @load_storeBlocks 32 m _ hpairs hlen b hb
  have hcmdline := hload _ List.mem_cons_self
  have hinitrd := hload _ (List.mem_cons_of_mem _ List.mem_cons_self)
  have htable := hload _ (List.mem_cons_of_mem _ (List.mem_cons_of_mem _ List.mem_cons_self))
  have hcount : (BitVec.ofNat 32 es.length).toNat = es.length := by
    rw [show hvmMemmapEntryBytes = 24 from rfl] at hfit
    rw [BitVec.toNat_ofNat, Nat.mod_eq_of_lt (by omega)]
  rw [length_entryBytes, ← hmem] at hcmdline hinitrd
  rw [length_pvhBytesOf, ← hmem] at htable
  have hback (p : BitVec 32) : (p.setWidth 64).setWidth 32 = p := by simp
  have htableAt := pvhTable_of_load (s := s') (by rw [hinfo]; rfl) (by rw [hinfo]; exact hcount)
    htable
  have hmodules : (s.pvhStartInfo es.length).nrModules.toNat =
      s.dev.ramdisk.toList.length := by
    cases hramdisk : s.dev.ramdisk with
    | none => simp [Firmware.pvhStartInfo, HvmStartInfo.withRamdisk, hramdisk]
    | some r => simp [Firmware.pvhStartInfo, HvmStartInfo.withRamdisk, hramdisk]
  have hmodlist (hramdisk : s.dev.ramdisk ≠ none) :
      (s.pvhStartInfo es.length).modlistPaddr = s.pvhFrame.setWidth 64 := if_neg hramdisk
  have hcmdlineAt : (s.pvhStartInfo es.length).cmdlinePaddr.setWidth 32 = s.pvhCmdline :=
    hback s.pvhCmdline
  constructor
  · rw [hinfo]
    rfl
  · rw [hinfo]
    rfl
  · rw [hinfo]
    rfl
  · rw [hinfo]
    rfl
  · rw [hinfo]
    rfl
  · rw [hinfo, hcmdlineAt]
    exact hcmdline
  · rw [hinfo, hmodules]
  · rw [hinfo]
    exact hmodlist
  · exact hinitrd
  · exact htableAt

/-- A PVH kernel finds its command line, its initrd and the memory map of the
firmware, whatever was in memory and wherever the kernel asks for them. -/
theorem pvh_hands_over {s : Firmware} (hsome : s.dev.linuxbootArgs.vmlinuzSize ≠ 0#32)
    (hbz : ¬ IsBzimage s.dev.setupPeek) (helf : s.dev.IsElf)
    (hkernel : s.dev.word FW_CFG_KERNEL_SIZE ≠ 0#32)
    (hfit : hvmMemmapEntryBytes * s.e820Map.length < 2 ^ 32)
    (happ : PvhApart s s.e820Map.length) : ∃ s',
    bootFromFwcfg s = .error (.pvh (s.dev.word FW_CFG_KERNEL_ENTRY) s.dev.ramdisk) s' ∧
      PvhHandover s s' s.e820Map := by
  have hmapFit : 4 + e820EntryBytes * s.e820Map.length ≤ 2 ^ 32 := by
    rw [show hvmMemmapEntryBytes = 24 from rfl] at hfit
    rw [show e820EntryBytes = 20 from rfl]
    omega
  obtain ⟨key, pos, hother⟩ := bootFromFwcfg_other hsome hbz
  have hparts (p : BitVec 32 × Nat) (hp : p ∈ s.pvhParts s.e820Map.length) :
      Apart s.e820 (4 + e820EntryBytes * s.e820Map.length) p.1 p.2 :=
    happ.map p (List.mem_cons_of_mem _ hp)
  have hlen : s.dev.setupPeek.length = HEADER_PEEK_SIZE.toNat := length_setupData _ _
  have hpeek : Apart s.e820 (4 + e820EntryBytes * s.e820Map.length)
      (s.dev.word FW_CFG_SETUP_ADDR) s.dev.setupPeek.length := by
    have h := happ.map _ List.mem_cons_self
    rwa [hlen]
  have hheld : MapHeld s.mem s.e820 s.e820Map := mapHeld_entriesOf s.mem s.e820
  generalize s.dev.setupPeek = bs at hpeek hother
  obtain ⟨s', hrun, hmem, hinfo⟩ := @bootPvhFromFwCfg_apply
    (s.peekedAt (s.dev.word FW_CFG_SETUP_ADDR) bs key pos) s.e820Map hkernel
    (hheld.store hmapFit hpeek) hfit hparts
  refine ⟨s', hother.trans ?_, pvhHandover_of_blocks happ hfit hmem hinfo⟩
  rw [if_pos helf]
  exact StateRun.bind_of_error hrun

end Pvh

/-- A kernel of 4 KiB whose setup part starts with `magic`, with six bytes of
command line and 88 bytes of initrd. -/
def elfDevice (magic : List Byte) : FwCfg where
  entry := fun key =>
    if key = FW_CFG_SETUP_ADDR then toLE 4 0x10000
    else if key = FW_CFG_SETUP_SIZE then toLE 4 0x1000
    else if key = FW_CFG_SETUP_DATA then magic
    else if key = FW_CFG_KERNEL_ADDR then toLE 4 0x100000
    else if key = FW_CFG_KERNEL_SIZE then toLE 4 0x1000
    else if key = FW_CFG_KERNEL_ENTRY then toLE 4 0x100010
    else if key = FW_CFG_CMDLINE_SIZE then toLE 4 6
    else if key = FW_CFG_CMDLINE_DATA then cstring "quiet".toList
    else if key = FW_CFG_INITRD_ADDR then toLE 4 0x9000
    else if key = FW_CFG_INITRD_SIZE then toLE 4 88
    else if key = FW_CFG_INITRD_DATA then List.replicate 48 0 ++ toLE 4 0x9058
    else []
  key := 0#16
  pos := 0

def elfMachine (magic : List Byte) : Firmware :=
  { handoverMachine handoverMap 0xdff80#32 with dev := elfDevice magic }

theorem elfMachine_map (magic : List Byte) : (elfMachine magic).e820Map = handoverMap :=
  handoverMachine_map (by decide) 0xdff80#32

/-- `0x464c457f` as it is in memory -/
def elfMagic : List Byte := toLE 4 0x464c457f

theorem pvhApart_elfMachine : PvhApart (elfMachine elfMagic) 3 := by
  have hparts : (elfMachine elfMagic).pvhParts 3 =
      [(0xdff70#32, 6), (0x9000#32, 88), (0xdff20#32, 72)] := by decide +kernel
  have haddr : (elfMachine elfMagic).dev.word FW_CFG_SETUP_ADDR = 0x10000#32 := by decide +kernel
  constructor
  · rw [hparts]
    simp only [List.pairwise_cons, List.mem_cons, List.not_mem_nil, or_false, forall_eq_or_imp,
      forall_eq, IsEmpty.forall_iff, implies_true, List.Pairwise.nil, and_true]
    refine ⟨⟨?_, ?_⟩, ?_⟩
    · exact (apart_of_le (by decide) (by decide)).symm
    · exact (apart_of_le (by decide) (by decide)).symm
    · exact apart_of_le (by decide) (by decide)
  · rw [hparts, haddr]
    simp only [List.mem_cons, List.not_mem_nil, or_false, forall_eq_or_imp, forall_eq]
    refine ⟨?_, ?_, ?_, ?_⟩
    · exact (apart_of_le (by decide) (by decide)).symm
    · exact (apart_of_le (by decide) (by decide)).symm
    · exact (apart_of_le (by decide) (by decide)).symm
    · exact (apart_of_le (by decide) (by decide)).symm

theorem pvh_hands_over_quiet : ∃ s',
    bootFromFwcfg (elfMachine elfMagic) = .error (.pvh 0x100010#32
      (some { paddr := 0x9000#64, size := 88#64 })) s' ∧
      PvhHandover (elfMachine elfMagic) s' handoverMap := by
  have hmap := elfMachine_map elfMagic
  have hover := @pvh_hands_over (elfMachine elfMagic) (by decide +kernel) (by decide +kernel)
    (by decide +kernel) (by decide +kernel) (by rw [hmap]; decide)
    (by rw [hmap]; exact pvhApart_elfMachine)
  rwa [hmap] at hover

/-! ### Multiboot -/

/-- The information that the device holds for a multiboot kernel. -/
def FwCfg.mbInfo (d : FwCfg) : List Byte :=
  entryBytes (d.entry FW_CFG_INITRD_DATA) 0 (d.word FW_CFG_INITRD_SIZE).toNat

/-- The `mmap_addr` that the device holds. -/
def FwCfg.mbMmap (d : FwCfg) : BitVec 32 := BitVec.ofNat 32 (ofLE (slice d.mbInfo 48 4))

/-- The parts that a multiboot kernel finds, with their sizes. -/
def FwCfg.mbParts (d : FwCfg) (count : Nat) : List (BitVec 32 × Nat) :=
  [(d.word FW_CFG_KERNEL_ADDR, (d.word FW_CFG_KERNEL_SIZE).toNat),
   (d.word FW_CFG_INITRD_ADDR, (d.word FW_CFG_INITRD_SIZE).toNat),
   (d.mbMmap, mbMmapEntryBytes * count)]

/-- The parts do not meet, and neither they nor the first bytes of the setup
part meet the map. -/
structure MultibootApart (s : Firmware) (count : Nat) : Prop where
  parts : (s.dev.mbParts count).Pairwise fun p q => Apart p.1 p.2 q.1 q.2
  map : ∀ p ∈ (s.dev.word FW_CFG_SETUP_ADDR, HEADER_PEEK_SIZE.toNat) :: s.dev.mbParts count,
    Apart s.e820 (4 + e820EntryBytes * count) p.1 p.2

/-- The fields of `struct mb_info` that the firmware sets. -/
def Firmware.mbFields (s : Firmware) (count : Nat) : List (Nat × List Byte) :=
  [(4, toLE 4 (639#32).toNat), (8, toLE 4 ((s.lowmem - 0x100000#32) >>> 10).toNat),
   (44, toLE 4 (mbMmapEntryBytes * count))]

/-- What a multiboot kernel finds: its own bytes, the information of the device
with the memory fields filled in, and a map to walk. -/
structure MultibootHandover (s s' : Firmware) (es : List E820Entry) : Prop where
  kernel : load s'.mem (s.dev.word FW_CFG_KERNEL_ADDR) (s.dev.word FW_CFG_KERNEL_SIZE).toNat =
    entryBytes (s.dev.entry FW_CFG_KERNEL_DATA) 0 (s.dev.word FW_CFG_KERNEL_SIZE).toNat
  info : load s'.mem (s.dev.word FW_CFG_INITRD_ADDR) (s.dev.word FW_CFG_INITRD_SIZE).toNat =
    patchFields s.dev.mbInfo (s.mbFields es.length)
  map : ∀ n, es.length < n → walkMmap s'.mem s.dev.mbMmap
    (BitVec.ofNat 32 (mbMmapEntryBytes * es.length)) n 0 = some es

section Multiboot

variable {s : Firmware} {es : List E820Entry}

@[simp] theorem length_mbInfo (d : FwCfg) : d.mbInfo.length = (d.word FW_CFG_INITRD_SIZE).toNat :=
  length_entryBytes _ _ _

/-- The information with the fields that are set in front of the map loop. -/
def Firmware.mbInfoStarted (s : Firmware) (info : List Byte) : List Byte :=
  patch (patch info 4 (toLE 4 (639#32).toNat)) 8
    (toLE 4 ((s.lowmem - 0x100000#32) >>> 10).toNat)

theorem length_mbInfoStarted (s : Firmware) {info : List Byte} (h : mbInfoBytes ≤ info.length) :
    (s.mbInfoStarted info).length = info.length := by
  have hsize : 88 ≤ info.length := h
  have hfirst : (patch info 4 (toLE 4 (639#32).toNat)).length = info.length :=
    length_patch (by rw [length_toLE]; omega)
  rw [Firmware.mbInfoStarted, length_patch (by rw [length_toLE, hfirst]; omega), hfirst]

/-- The stores in front of the map loop are patches of the information. -/
theorem mbStarted_store {m : Mem} {mb : BitVec 32} {info : List Byte}
    (hinfo : mbInfoBytes ≤ info.length) (hfit : info.length ≤ 2 ^ 32)
    (hmem : s.mem = store m mb info) :
    s.mbStarted mb = store m mb (patch (s.mbInfoStarted info) 44 (toLE 4 (0#32).toNat)) := by
  have hsize : 88 ≤ info.length := hinfo
  have hlen := length_mbInfoStarted s hinfo
  have hfirst : (patch info 4 (toLE 4 (639#32).toNat)).length = info.length :=
    length_patch (by rw [length_toLE]; omega)
  have hlower := @store_store_inside _ m mb info (toLE 4 (639#32).toNat) 4
    (by rw [length_toLE]; omega) hfit
  have hupper := @store_store_inside _ m mb (patch info 4 (toLE 4 (639#32).toNat))
    (toLE 4 ((s.lowmem - 0x100000#32) >>> 10).toNat) 8
    (by rw [length_toLE, hfirst]; omega) (by rwa [hfirst])
  have hlength := @store_store_inside _ m mb (s.mbInfoStarted info) (toLE 4 (0#32).toNat) 44
    (by rw [length_toLE, hlen]; omega) (by rwa [hlen])
  rw [Firmware.mbStarted, hmem]
  refine Eq.trans ?_ hlength
  rw [Firmware.mbInfoStarted, ← hupper, ← hlower]
  rfl

/-- What the map code leaves of the information is what it sets in it. -/
theorem storeMbMemory_info {m : Mem} {mb mmapAddr : BitVec 32} {info : List Byte}
    (hinfo : mbInfoBytes ≤ info.length) (hfit : info.length ≤ 2 ^ 32)
    (hmem : s.mem = store m mb info) (happ : Apart mb info.length mmapAddr
      (mbMmapEntryBytes * es.length)) {m' : Mem}
    (hlength : load m' (mb + mbMmapLength) 4 = toLE 4 (mbMmapEntryBytes * es.length))
    (hframe : ∀ q k, k ≤ 2 ^ 32 → Apart q k (mb + mbMmapLength) 4 →
      Apart q k mmapAddr (mbMmapEntryBytes * es.length) →
      load m' q k = load (s.mbStarted mb) q k) :
    load m' mb info.length = patchFields info (s.mbFields es.length) := by
  have hsize : 88 ≤ info.length := hinfo
  have hlen := length_mbInfoStarted s hinfo
  have hzero : (toLE 4 (0#32).toNat).length = 4 := length_toLE _ _
  have hlen' : (patch (s.mbInfoStarted info) 44 (toLE 4 (0#32).toNat)).length = info.length := by
    rw [length_patch (by omega), hlen]
  -- beside the length field the information is as it was in front of the loop
  have hkept {k n : Nat} (hk : k + n ≤ info.length) (hbeside : k + n ≤ 44 ∨ 48 ≤ k) :
      load m' (mb + BitVec.ofNat 32 k) n = slice (s.mbInfoStarted info) k n := by
    have hmmap : Apart (mb + BitVec.ofNat 32 k) n mmapAddr (mbMmapEntryBytes * es.length) :=
      happ.part hk hfit
    have hfield : Apart (mb + BitVec.ofNat 32 k) n (mb + mbMmapLength) 4 :=
      apart_parts mb (show k + n ≤ 44 ∨ 44 + 4 ≤ k by omega) (by omega) (by decide)
    rw [hframe _ _ (by omega) hfield hmmap, mbStarted_store hinfo hfit hmem,
      load_store_inside m mb (by rwa [hlen']) (by rwa [hlen']),
      slice_patch_outside (by omega) (by omega) (by omega)]
  have hfront := @hkept 0 44 (by omega) (Or.inl (by decide))
  have hback := @hkept 48 (info.length - 48) (by omega) (Or.inr (by decide))
  rw [BitVec.add_zero] at hfront
  have hfield : (toLE 4 (mbMmapEntryBytes * es.length)).length = 4 := length_toLE _ _
  have hall := @load_patch _ m' mb (s.mbInfoStarted info) (toLE 4 (mbMmapEntryBytes * es.length)) 44
    (info.length - 48) (by omega) hfront (by rwa [hfield]) hback
  rwa [hlen] at hall

/-- The two ranges that the device fills. -/
def Firmware.mbLoaded (s : Firmware) : Mem :=
  store (store s.mem (s.dev.word FW_CFG_KERNEL_ADDR)
    (entryBytes (s.dev.entry FW_CFG_KERNEL_DATA) 0 (s.dev.word FW_CFG_KERNEL_SIZE).toNat))
    (s.dev.word FW_CFG_INITRD_ADDR) s.dev.mbInfo

/-- The part of the boot behind the information. -/
def mbStart (mb : BitVec 32) : Fw Unit := do
  storeMbMemory mb
  fwCfgSelect FW_CFG_KERNEL_ENTRY
  let kernelEntry ← fwCfgReadlLe
  throw (Stop.multiboot mb kernelEntry)

theorem bootMultibootFromFwCfg_loaded (hkernel : s.dev.word FW_CFG_KERNEL_SIZE ≠ 0#32)
    (hinfo : s.dev.word FW_CFG_INITRD_SIZE ≠ 0#32) :
    bootMultibootFromFwCfg s = mbStart (s.dev.word FW_CFG_INITRD_ADDR)
      { s with
        mem := s.mbLoaded
        dev := (s.dev.select FW_CFG_INITRD_DATA).skip (s.dev.word FW_CFG_INITRD_SIZE).toNat } := by
  rw [bootMultibootFromFwCfg, readWord_apply, StateRun.bind_of_ok (panicIf_of_not hkernel _),
    readWord_apply]
  refine (StateRun.bind_of_ok (fwCfgReadEntry_apply _ _ _ _)).trans ?_
  rw [readWord_apply]
  refine (StateRun.bind_of_ok (panicIf_of_not hinfo _)).trans ?_
  rw [readWord_apply]
  exact StateRun.bind_of_ok (fwCfgReadEntry_apply _ _ _ _)

/-- Behind the map only the device is read. -/
theorem mbStart_apply {mb : BitVec 32} {t u : Firmware} {d : FwCfg}
    (hmap : storeMbMemory mb t = .ok () u) (hentry : u.dev.entry = d.entry) : ∃ s',
    mbStart mb t = .error (.multiboot mb (d.word FW_CFG_KERNEL_ENTRY)) s' ∧ s'.mem = u.mem := by
  let dev := (u.dev.select FW_CFG_KERNEL_ENTRY).skip 4
  refine ⟨{ u with dev := dev }, (StateRun.bind_of_ok hmap).trans ?_, rfl⟩
  rw [readWord_apply]
  exact congrArg (fun entry => EStateM.Result.error (Stop.multiboot mb entry) { u with dev := dev })
    (word_congr hentry FW_CFG_KERNEL_ENTRY)

/-- The parts, one by one. -/
structure MbRanges (e820 : BitVec 32) (d : FwCfg) (count : Nat) : Prop where
  kernel_info : Apart (d.word FW_CFG_KERNEL_ADDR) (d.word FW_CFG_KERNEL_SIZE).toNat
    (d.word FW_CFG_INITRD_ADDR) (d.word FW_CFG_INITRD_SIZE).toNat
  kernel_mmap : Apart (d.word FW_CFG_KERNEL_ADDR) (d.word FW_CFG_KERNEL_SIZE).toNat
    d.mbMmap (mbMmapEntryBytes * count)
  info_mmap : Apart (d.word FW_CFG_INITRD_ADDR) (d.word FW_CFG_INITRD_SIZE).toNat
    d.mbMmap (mbMmapEntryBytes * count)
  map_kernel : Apart e820 (4 + e820EntryBytes * count) (d.word FW_CFG_KERNEL_ADDR)
    (d.word FW_CFG_KERNEL_SIZE).toNat
  map_info : Apart e820 (4 + e820EntryBytes * count) (d.word FW_CFG_INITRD_ADDR)
    (d.word FW_CFG_INITRD_SIZE).toNat
  map_mmap : Apart e820 (4 + e820EntryBytes * count) d.mbMmap (mbMmapEntryBytes * count)

theorem MultibootApart.ranges {count : Nat} (h : MultibootApart s count) :
    MbRanges s.e820 s.dev count := by
  have hparts := h.parts
  simp only [FwCfg.mbParts, List.pairwise_cons, List.mem_cons, List.not_mem_nil, or_false,
    forall_eq_or_imp, forall_eq] at hparts
  have hmap := fun p hp => h.map p (List.mem_cons_of_mem _ hp)
  simp only [FwCfg.mbParts, List.mem_cons, List.not_mem_nil, or_false,
    forall_eq_or_imp, forall_eq] at hmap
  exact ⟨hparts.1.1, hparts.1.2, hparts.2.1, hmap.1, hmap.2.1, hmap.2.2⟩

theorem mbLoaded_held (h : MbRanges s.e820 s.dev es.length) (hheld : MapHeld s.mem s.e820 es)
    (hfit : 4 + e820EntryBytes * es.length ≤ 2 ^ 32) : MapHeld s.mbLoaded s.e820 es := by
  have hkernel := h.map_kernel
  have hinfo := h.map_info
  rw [← length_entryBytes (s.dev.entry FW_CFG_KERNEL_DATA) 0
    (s.dev.word FW_CFG_KERNEL_SIZE).toNat] at hkernel
  rw [← length_mbInfo] at hinfo
  exact (hheld.store hfit hkernel).store hfit hinfo

theorem mbLoaded_addr (hinfo : mbInfoBytes ≤ (s.dev.word FW_CFG_INITRD_SIZE).toNat) :
    load s.mbLoaded (s.dev.word FW_CFG_INITRD_ADDR + mbMmapAddr) 4 =
      toLE 4 s.dev.mbMmap.toNat := by
  have hsize : 88 ≤ s.dev.mbInfo.length := by
    rw [length_mbInfo]
    exact hinfo
  have hfit : s.dev.mbInfo.length ≤ 2 ^ 32 := by
    rw [length_mbInfo]
    exact (BitVec.isLt _).le
  have hword : toLE 4 s.dev.mbMmap.toNat = slice s.dev.mbInfo 48 4 :=
    toLE_word 48 4 (by omega)
  rw [hword]
  exact load_store_inside _ _ (by omega) hfit

theorem MbRanges.mmapApart (h : MbRanges s.e820 s.dev es.length)
    (hinfo : mbInfoBytes ≤ (s.dev.word FW_CFG_INITRD_SIZE).toNat) :
    MmapApart s.e820 (s.dev.word FW_CFG_INITRD_ADDR) s.dev.mbMmap es.length where
  table_info := by
    have hpart := h.map_info.symm.part (i := 0) (j := mbInfoBytes) (by rwa [Nat.zero_add])
      (BitVec.isLt _).le
    rw [BitVec.add_zero] at hpart
    exact hpart.symm
  table_mmap := h.map_mmap
  info_mmap := by
    have hpart := h.info_mmap.part (i := 0) (j := mbInfoBytes) (by rwa [Nat.zero_add])
      (BitVec.isLt _).le
    rwa [BitVec.add_zero] at hpart

/-- What is read from an entry is in memory. -/
theorem load_entry (m : Mem) (p : BitVec 32) (content : List Byte) (n : BitVec 32) :
    load (store m p (entryBytes content 0 n.toNat)) p n.toNat = entryBytes content 0 n.toNat := by
  have h := @load_store 32 m p (entryBytes content 0 n.toNat)
    (by rw [length_entryBytes]; exact n.isLt.le)
  rwa [length_entryBytes] at h

/-- What the kernel finds, from what the map code leaves. -/
theorem multibootHandover_of_frame {t s' : Firmware} (h : MbRanges s.e820 s.dev es.length)
    (hinfo : mbInfoBytes ≤ (s.dev.word FW_CFG_INITRD_SIZE).toNat)
    (hfit : mbMmapEntryBytes * es.length < 2 ^ 32) (hmem : t.mem = s.mbLoaded)
    (hlowmem : t.lowmem = s.lowmem)
    (hfilled : MmapFilled s'.mem s.e820 (s.dev.word FW_CFG_INITRD_ADDR) s.dev.mbMmap es es.length)
    (hframe : ∀ q k, k ≤ 2 ^ 32 →
      Apart q k (s.dev.word FW_CFG_INITRD_ADDR + mbMmapLength) 4 →
      Apart q k s.dev.mbMmap (mbMmapEntryBytes * es.length) →
      load s'.mem q k = load (t.mbStarted (s.dev.word FW_CFG_INITRD_ADDR)) q k) :
    MultibootHandover s s' es := by
  have hlen := length_mbInfo s.dev
  have hsize : mbInfoBytes ≤ s.dev.mbInfo.length := by rwa [hlen]
  have hinfoFit : s.dev.mbInfo.length ≤ 2 ^ 32 := by
    rw [hlen]
    exact (BitVec.isLt _).le
  have hfields : t.mbFields es.length = s.mbFields es.length := by
    rw [Firmware.mbFields, Firmware.mbFields, hlowmem]
  constructor
  · have hfield : Apart (s.dev.word FW_CFG_KERNEL_ADDR) (s.dev.word FW_CFG_KERNEL_SIZE).toNat
        (s.dev.word FW_CFG_INITRD_ADDR + mbMmapLength) 4 :=
      (h.kernel_info.symm.part (i := 44) (j := 4)
        ((show 44 + 4 ≤ mbInfoBytes by decide).trans hinfo) (BitVec.isLt _).le).symm
    have hstarted := length_mbInfoStarted t hsize
    have hinfoSize : (patch (t.mbInfoStarted s.dev.mbInfo) 44 (toLE 4 (0#32).toNat)).length =
        (s.dev.word FW_CFG_INITRD_SIZE).toNat := by
      rw [length_patch, hstarted, hlen]
      rw [hstarted, length_toLE]
      exact le_trans (by decide) hsize
    rw [hframe _ _ (BitVec.isLt _).le hfield h.kernel_mmap, mbStarted_store hsize hinfoFit hmem,
      load_store_outside _ (BitVec.isLt _).le (by rw [hinfoSize]; exact h.kernel_info)]
    exact load_entry _ _ _ _
  · have hall := storeMbMemory_info hsize hinfoFit hmem (by rw [hlen]; exact h.info_mmap)
      hfilled.length hframe
    rwa [hlen, hfields] at hall
  · intro n hn
    have hwalk := @walkMmap_filled _ _ es 0 s'.mem n s.e820 hfit hfilled (Nat.zero_le _) (by omega)
    rwa [Nat.mul_zero, List.drop_zero] at hwalk

theorem bootMultibootFromFwCfg_apply (hkernel : s.dev.word FW_CFG_KERNEL_SIZE ≠ 0#32)
    (hinfo : mbInfoBytes ≤ (s.dev.word FW_CFG_INITRD_SIZE).toNat)
    (hheld : MapHeld s.mem s.e820 es) (hfit : mbMmapEntryBytes * es.length < 2 ^ 32)
    (h : MbRanges s.e820 s.dev es.length) : ∃ s',
    bootMultibootFromFwCfg s = .error
      (.multiboot (s.dev.word FW_CFG_INITRD_ADDR) (s.dev.word FW_CFG_KERNEL_ENTRY)) s' ∧
      MultibootHandover s s' es := by
  have hsome : s.dev.word FW_CFG_INITRD_SIZE ≠ 0#32 := by
    intro hzero
    rw [hzero] at hinfo
    exact absurd hinfo (by decide)
  have hmapFit : 4 + e820EntryBytes * es.length ≤ 2 ^ 32 := by
    rw [show mbMmapEntryBytes = 24 from rfl] at hfit
    rw [show e820EntryBytes = 20 from rfl]
    omega
  let t : Firmware := { s with
    mem := s.mbLoaded
    dev := (s.dev.select FW_CFG_INITRD_DATA).skip (s.dev.word FW_CFG_INITRD_SIZE).toNat }
  obtain ⟨m, hrun, hfilled, hframe⟩ := @storeMbMemory_apply _ _ es t
    (mbLoaded_held h hheld hmapFit) (mbLoaded_addr hinfo) (h.mmapApart hinfo) hfit
  obtain ⟨s', hstart, hmem⟩ := mbStart_apply (d := s.dev) hrun rfl
  refine ⟨s', (bootMultibootFromFwCfg_loaded hkernel hsome).trans hstart, ?_⟩
  exact multibootHandover_of_frame (t := t) h hinfo hfit rfl rfl (hmem ▸ hfilled) (hmem ▸ hframe)

/-- A multiboot kernel finds itself, its information with the memory fields
filled in, and the memory map of the firmware as the map of the information. -/
theorem multiboot_hands_over {s : Firmware} (hsome : s.dev.linuxbootArgs.vmlinuzSize ≠ 0#32)
    (hbz : ¬ IsBzimage s.dev.setupPeek) (helf : ¬ s.dev.IsElf)
    (hkernel : s.dev.word FW_CFG_KERNEL_SIZE ≠ 0#32)
    (hinfo : mbInfoBytes ≤ (s.dev.word FW_CFG_INITRD_SIZE).toNat)
    (hfit : mbMmapEntryBytes * s.e820Map.length < 2 ^ 32)
    (happ : MultibootApart s s.e820Map.length) : ∃ s',
    bootFromFwcfg s = .error
      (.multiboot (s.dev.word FW_CFG_INITRD_ADDR) (s.dev.word FW_CFG_KERNEL_ENTRY)) s' ∧
      MultibootHandover s s' s.e820Map := by
  have hmapFit : 4 + e820EntryBytes * s.e820Map.length ≤ 2 ^ 32 := by
    rw [show mbMmapEntryBytes = 24 from rfl] at hfit
    rw [show e820EntryBytes = 20 from rfl]
    omega
  have hpeek : Apart s.e820 (4 + e820EntryBytes * s.e820Map.length)
      (s.dev.word FW_CFG_SETUP_ADDR) s.dev.setupPeek.length := by
    have hlen : s.dev.setupPeek.length = HEADER_PEEK_SIZE.toNat := length_setupData _ _
    have h := happ.map _ List.mem_cons_self
    rwa [hlen]
  have hheld : MapHeld s.mem s.e820 s.e820Map := mapHeld_entriesOf s.mem s.e820
  have hranges := happ.ranges
  obtain ⟨key, pos, hother⟩ := bootFromFwcfg_other hsome hbz
  generalize s.dev.setupPeek = bs at hpeek hother
  obtain ⟨s', hrun, hover⟩ := @bootMultibootFromFwCfg_apply
    (s.peekedAt (s.dev.word FW_CFG_SETUP_ADDR) bs key pos) s.e820Map hkernel hinfo
    (hheld.store hmapFit hpeek) hfit ⟨hranges.kernel_info, hranges.kernel_mmap, hranges.info_mmap,
      hranges.map_kernel, hranges.map_info, hranges.map_mmap⟩
  refine ⟨s', hother.trans ?_, hover.kernel, hover.info, hover.map⟩
  rw [if_neg helf]
  exact hrun

end Multiboot

theorem multibootApart_elfMachine : MultibootApart (elfMachine []) 3 := by
  have hparts : (elfMachine []).dev.mbParts 3 =
      [(0x100000#32, 0x1000), (0x9000#32, 88), (0x9058#32, 72)] := by decide +kernel
  have haddr : (elfMachine []).dev.word FW_CFG_SETUP_ADDR = 0x10000#32 := by decide +kernel
  constructor
  · rw [hparts]
    simp only [List.pairwise_cons, List.mem_cons, List.not_mem_nil, or_false, forall_eq_or_imp,
      forall_eq, IsEmpty.forall_iff, implies_true, List.Pairwise.nil, and_true]
    refine ⟨⟨?_, ?_⟩, ?_⟩
    · exact (apart_of_le (by decide) (by decide)).symm
    · exact (apart_of_le (by decide) (by decide)).symm
    · exact apart_of_le (by decide) (by decide)
  · rw [hparts, haddr]
    simp only [List.mem_cons, List.not_mem_nil, or_false, forall_eq_or_imp, forall_eq]
    refine ⟨?_, ?_, ?_, ?_⟩
    · exact (apart_of_le (by decide) (by decide)).symm
    · exact apart_of_le (by decide) (by decide)
    · exact (apart_of_le (by decide) (by decide)).symm
    · exact (apart_of_le (by decide) (by decide)).symm

theorem multiboot_hands_over_info : ∃ s',
    bootFromFwcfg (elfMachine []) = .error (.multiboot 0x9000#32 0x100010#32) s' ∧
      MultibootHandover (elfMachine []) s' handoverMap := by
  have hmap := elfMachine_map []
  have hover := @multiboot_hands_over (elfMachine []) (by decide +kernel) (by decide +kernel)
    (by decide +kernel) (by decide +kernel) (by decide +kernel) (by rw [hmap]; decide)
    (by rw [hmap]; exact multibootApart_elfMachine)
  rwa [hmap] at hover

end Qboot
