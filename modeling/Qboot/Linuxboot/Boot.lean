import Qboot.E820
import Qboot.Linuxboot.Bzimage

/-!
The end of the boot in fw_cfg.c: `boot_from_fwcfg` finds out what kind of
kernel the machine has, loads it together with its command line and initrd,
and jumps to it. A multiboot or PVH kernel gets a memory map of its own format.
-/

namespace Qboot

open Bytes ByteMemory

def FW_CFG_KERNEL_ADDR : BitVec 16 := 0x07#16
def FW_CFG_KERNEL_SIZE : BitVec 16 := 0x08#16
def FW_CFG_INITRD_ADDR : BitVec 16 := 0x0a#16
def FW_CFG_INITRD_SIZE : BitVec 16 := 0x0b#16
def FW_CFG_KERNEL_ENTRY : BitVec 16 := 0x10#16
def FW_CFG_KERNEL_DATA : BitVec 16 := 0x11#16
def FW_CFG_INITRD_DATA : BitVec 16 := 0x12#16
def FW_CFG_CMDLINE_SIZE : BitVec 16 := 0x14#16
def FW_CFG_CMDLINE_DATA : BitVec 16 := 0x15#16
def FW_CFG_SETUP_ADDR : BitVec 16 := 0x16#16
def FW_CFG_SETUP_SIZE : BitVec 16 := 0x17#16
def FW_CFG_SETUP_DATA : BitVec 16 := 0x18#16

/-- The assignments of `addr`, `size` and `type` of the entry at `src` to the
same fields behind `dst`. -/
def copyFields (src dst : BitVec 32) : Fw Unit := do
  let addr ← peek src 8
  poke dst addr
  let size ← peek (src + 8#32) 8
  poke (dst + 8#32) size
  let type ← peek (src + 16#32) 4
  poke (dst + 16#32) type

/-! ### The multiboot map -/

/-- Positions of `mem_lower`, `mem_upper`, `mmap_length` and `mmap_addr` in
`struct mb_info`. -/
def mbMemLower : BitVec 32 := 4#32
def mbMemUpper : BitVec 32 := 8#32
def mbMmapLength : BitVec 32 := 44#32
def mbMmapAddr : BitVec 32 := 48#32

/-- `sizeof(struct mb_mmap_entry)` -/
def mbMmapEntryBytes : Nat := 24

/-- The body of the map loop for entry `i`. -/
def storeMmapEntry (mb : BitVec 32) (i : Nat) : Fw Unit := do
  let s ← get
  let mmapAddr ← ldlP (mb + mbMmapAddr)
  let mmapLength ← ldlP (mb + mbMmapLength)
  let mbmem := mmapAddr + mmapLength
  poke mbmem (toLE 4 e820EntryBytes)
  copyFields (mapEntry s.e820 i) (mbmem + 4#32)
  let mmapLength ← ldlP (mb + mbMmapLength)
  stlP (mb + mbMmapLength) (mmapLength + BitVec.ofNat 32 mbMmapEntryBytes)

/-- The map loop from entry `i` on. It compares with `e820->nr_map` before
each of its at most `n` iterations. -/
def mmapLoop (mb : BitVec 32) : Nat → Nat → Fw Unit
  | 0, _ => pure ()
  | n + 1, i => do
    let s ← get
    let count ← peek s.e820 4
    if i < ofLE count then do
      storeMmapEntry mb i
      mmapLoop mb n (i + 1)
    else pure ()

/-- The memory fields of `struct mb_info`. A count is below 2^32, so the loop
ends by its own condition. -/
def storeMbMemory (mb : BitVec 32) : Fw Unit := do
  let s ← get
  stlP (mb + mbMemLower) 639#32
  stlP (mb + mbMemUpper) ((s.lowmem - 0x100000#32) >>> 10)
  stlP (mb + mbMmapLength) 0#32
  mmapLoop mb (2 ^ 32) 0

def bootMultibootFromFwCfg : Fw Unit := do
  fwCfgSelect FW_CFG_KERNEL_SIZE
  let sz ← fwCfgReadlLe
  panicIf (sz = 0#32)
  fwCfgSelect FW_CFG_KERNEL_ADDR
  let kernelAddr ← fwCfgReadlLe
  fwCfgReadEntry (FW_CFG_KERNEL_DATA.setWidth 32) kernelAddr sz
  fwCfgSelect FW_CFG_INITRD_SIZE
  let sz ← fwCfgReadlLe
  panicIf (sz = 0#32)
  fwCfgSelect FW_CFG_INITRD_ADDR
  let mb ← fwCfgReadlLe
  fwCfgReadEntry (FW_CFG_INITRD_DATA.setWidth 32) mb sz
  storeMbMemory mb
  fwCfgSelect FW_CFG_KERNEL_ENTRY
  let kernelEntry ← fwCfgReadlLe
  throw (Stop.multiboot mb kernelEntry)

/-! ### The PVH map -/

def XEN_HVM_START_MAGIC_VALUE : BitVec 32 := 0x336ec578#32

/-- `sizeof(struct hvm_memmap_table_entry)` -/
def hvmMemmapEntryBytes : Nat := 24

/-- `&pvh_e820p[i]` -/
def pvhEntry (pvh : BitVec 32) (i : Nat) : BitVec 32 :=
  pvh + BitVec.ofNat 32 (hvmMemmapEntryBytes * i)

/-- The copy loop from entry `i` on, of at most `n` iterations. -/
def pvhLoop (pvh : BitVec 32) : Nat → Nat → Fw Unit
  | 0, _ => pure ()
  | n + 1, i => do
    let s ← get
    let count ← peek s.e820 4
    if i < ofLE count then do
      copyFields (mapEntry s.e820 i) (pvhEntry pvh i)
      pvhLoop pvh n (i + 1)
    else pure ()

def pvhE820Setup : Fw Unit := do
  let s ← get
  let count ← peek s.e820 4
  let size := BitVec.ofNat 32 (hvmMemmapEntryBytes * ofLE count)
  let pvh ← malloc size
  poke pvh (List.replicate size.toNat 0)
  pvhLoop pvh (2 ^ 32) 0
  let count ← peek s.e820 4
  modify fun t => { t with startInfo := { t.startInfo with
    memmapPaddr := pvh.setWidth 64
    memmapEntries := BitVec.ofNat 32 (ofLE count) } }

/-- The first module, if there is an initrd. -/
def loadRamdisk : Fw (Option HvmModlistEntry) := do
  fwCfgSelect FW_CFG_INITRD_SIZE
  let initrdSize ← fwCfgReadlLe
  if initrdSize ≠ 0#32 then do
    fwCfgSelect FW_CFG_INITRD_ADDR
    let initrdAddr ← fwCfgReadlLe
    fwCfgReadEntry (FW_CFG_INITRD_DATA.setWidth 32) initrdAddr initrdSize
    modify fun s => { s with startInfo := { s.startInfo with
      modlistPaddr := s.pvhFrame.setWidth 64
      nrModules := 1#32 } }
    pure (some { paddr := initrdAddr.setWidth 64, size := initrdSize.setWidth 64 })
  else pure none

def bootPvhFromFwCfg : Fw Unit := do
  modify fun s => { s with startInfo := { s.startInfo with
    magic := XEN_HVM_START_MAGIC_VALUE
    version := 1#32
    flags := 0#32
    nrModules := 0#32
    reserved := 0#32 } }
  fwCfgSelect FW_CFG_CMDLINE_SIZE
  let cmdlineSize ← fwCfgReadlLe
  let cmdlineAddr ← malloc cmdlineSize
  fwCfgReadEntry (FW_CFG_CMDLINE_DATA.setWidth 32) cmdlineAddr cmdlineSize
  modify fun s => { s with startInfo := { s.startInfo with
    cmdlinePaddr := cmdlineAddr.setWidth 64 } }
  let ramdisk ← loadRamdisk
  pvhE820Setup
  fwCfgSelect FW_CFG_KERNEL_SIZE
  let sz ← fwCfgReadlLe
  panicIf (sz = 0#32)
  fwCfgSelect FW_CFG_KERNEL_ENTRY
  let kernelEntry ← fwCfgReadlLe
  throw (Stop.pvh kernelEntry ramdisk)

/-! ### The bzImage -/

def HEADER_PEEK_SIZE : BitVec 32 := 8192#32

/-- `boot_from_fwcfg` after a successful `parse_bzimage`, up to and including
`boot_bzimage`. -/
def loadBzimage (args : LinuxbootArgs) (kernelSize : BitVec 32) : Fw Unit := do
  -- SETUP_DATA already selected
  if args.setupSize > HEADER_PEEK_SIZE then
    fwCfgRead (args.setupAddr + HEADER_PEEK_SIZE) (args.setupSize - HEADER_PEEK_SIZE)
  fwCfgSelect FW_CFG_KERNEL_DATA
  fwCfgReadEntry (FW_CFG_KERNEL_DATA.setWidth 32) args.kernelAddr kernelSize
  fwCfgReadEntry (FW_CFG_CMDLINE_DATA.setWidth 32) args.cmdlineAddr args.cmdlineSize
  if args.initrdSize ≠ 0#32 then
    fwCfgReadEntry (FW_CFG_INITRD_DATA.setWidth 32) args.initrdAddr args.initrdSize
  throw (Stop.bzImage args)

/-- `boot_from_fwcfg` for a machine that has a kernel. Neither of the ELF
boots returns. -/
def bootKernel (args : LinuxbootArgs) (kernelSize : BitVec 32) : Fw Unit := do
  fwCfgSelect FW_CFG_SETUP_DATA
  fwCfgRead args.setupAddr HEADER_PEEK_SIZE
  let parsed ← parseBzimage args
  match parsed with
  | some args => loadBzimage args kernelSize
  | none => do
    let magic ← ldlP args.setupAddr
    if magic = 0x464c457f#32 then
      bootPvhFromFwCfg
    bootMultibootFromFwCfg

/-- The fields of `args` that have no value yet are zero here; nothing reads
them before `parse_bzimage` sets them. -/
def bootFromFwcfg : Fw Unit := do
  fwCfgSelect FW_CFG_CMDLINE_SIZE
  let cmdlineSize ← fwCfgReadlLe
  fwCfgSelect FW_CFG_INITRD_SIZE
  let initrdSize ← fwCfgReadlLe
  fwCfgSelect FW_CFG_KERNEL_SIZE
  let kernelSize ← fwCfgReadlLe
  fwCfgSelect FW_CFG_SETUP_SIZE
  let setupSize ← fwCfgReadlLe
  let vmlinuzSize := kernelSize + setupSize
  fwCfgSelect FW_CFG_SETUP_ADDR
  let setupAddr ← fwCfgReadlLe
  if vmlinuzSize = 0#32 then pure ()
  else
    bootKernel
      { setupAddr := setupAddr, cmdlineAddr := 0#32, kernelAddr := 0#32, initrdAddr := 0#32,
        setupSize := 0#32, kernelSize := 0#32, cmdlineSize := cmdlineSize,
        vmlinuzSize := vmlinuzSize, initrdSize := initrdSize }
      kernelSize

end Qboot
