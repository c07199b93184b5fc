import Qboot.Lib.ByteMemory
import Qboot.Lib.StateRun

/-!
The machine state the firmware runs on: the 32-bit address space, the fw_cfg
device, and the global variables of the C files as fields. Globals and stack
variables live outside the modeled address space, so a wild pointer write
changes memory bytes but no global. Pointers are 32-bit words and every
address computation wraps at 4 GiB.
-/

namespace Qboot

open Bytes

abbrev Mem := ByteMemory.Memory 32

/-- `struct linuxboot_args`. -/
structure LinuxbootArgs where
  setupAddr : BitVec 32
  cmdlineAddr : BitVec 32
  kernelAddr : BitVec 32
  initrdAddr : BitVec 32
  setupSize : BitVec 32
  kernelSize : BitVec 32
  cmdlineSize : BitVec 32
  vmlinuzSize : BitVec 32
  initrdSize : BitVec 32
deriving DecidableEq

/-- `struct hvm_modlist_entry`. -/
structure HvmModlistEntry where
  paddr : BitVec 64
  size : BitVec 64
deriving DecidableEq

/-- `struct hvm_start_info`. -/
structure HvmStartInfo where
  magic : BitVec 32
  version : BitVec 32
  flags : BitVec 32
  nrModules : BitVec 32
  modlistPaddr : BitVec 64
  cmdlinePaddr : BitVec 64
  rsdpPaddr : BitVec 64
  memmapPaddr : BitVec 64
  memmapEntries : BitVec 32
  reserved : BitVec 32
deriving DecidableEq

/-- An access outside an array, to which C gives no meaning. -/
inductive Fault where
  /-- `file_address[id]` with `id` not in `[0, 20)`. -/
  | addressTable
  /-- `files[id]` with `id` not in the directory. -/
  | directory
  /-- A copy past the end of a local array or union. -/
  | stackBuffer
deriving DecidableEq

/-- Why the firmware no longer runs its own code. -/
inductive Stop where
  /-- `panic()`: interrupts off and halt. -/
  | panic
  | fault (cause : Fault)
  /-- `boot_bzimage` jumped to the real-mode kernel. -/
  | bzImage (args : LinuxbootArgs)
  /-- The multiboot trampoline jumped to `entry` with `mb` in EBX. -/
  | multiboot (mb entry : BitVec 32)
  /-- The PVH trampoline jumped to `entry`. -/
  | pvh (entry : BitVec 32) (ramdisk : Option HvmModlistEntry)
deriving DecidableEq

/-- The fw_cfg device: one entry selected, and a read position in it. -/
structure FwCfg where
  entry : BitVec 16 → List Byte
  key : BitVec 16
  pos : Nat

/-- `struct fw_cfg_file` after the byte swap of `fw_cfg_setup`. -/
structure FwCfgFile where
  size : BitVec 32
  select : BitVec 16
  name : Vector Byte 56

/-- The two areas `malloc_align` and `malloc_fseg_align` hand out. -/
inductive Zone where
  | low
  | fseg
deriving DecidableEq

/-- One allocation: its request, the pointer the allocator started from, and
the address it returned. No variable of the program holds this record. -/
structure Alloc where
  zone : Zone
  size : BitVec 32
  align : BitVec 32
  start : BitVec 32
  base : BitVec 32
deriving DecidableEq

structure Firmware where
  mem : Mem
  dev : FwCfg
  /-- `version`, `files` and `filecnt` of fw_cfg.c. -/
  version : BitVec 32
  files : List FwCfgFile
  /-- `fseg_base` and `malloc_top` of malloc.c. -/
  fsegBase : BitVec 32
  mallocTop : BitVec 32
  /-- Every allocation so far, the latest one first. -/
  allocs : List Alloc
  /-- `file_address` of tables.c. -/
  fileAddress : Fin 20 → BitVec 32
  startInfo : HvmStartInfo
  /-- `lowmem`, `e820`, `have_mmconfig` and `e820_seg`. -/
  lowmem : BitVec 32
  e820 : BitVec 32
  haveMmconfig : Bool
  e820Seg : BitVec 16
  /-- Address of the locals of `boot_pvh_from_fw_cfg`. -/
  pvhFrame : BitVec 32

/-- The machine when `main` starts: `fseg_base` is `&edata`, `malloc_top` is
`&stext`, and the other globals are zero. -/
def Firmware.initial (dev : FwCfg) (mem : Mem) (stext edata : BitVec 32) : Firmware where
  mem := mem
  dev := dev
  version := 0#32
  files := []
  fsegBase := edata
  mallocTop := stext
  allocs := []
  fileAddress := fun _ => 0#32
  startInfo :=
    { magic := 0#32, version := 0#32, flags := 0#32, nrModules := 0#32, modlistPaddr := 0#64,
      cmdlinePaddr := 0#64, rsdpPaddr := 0#64, memmapPaddr := 0#64, memmapEntries := 0#32,
      reserved := 0#32 }
  lowmem := 0#32
  e820 := 0#32
  haveMmconfig := false
  e820Seg := 0#16
  pvhFrame := 0#32

/-- Code of the firmware: it may change the machine and may stop. -/
abbrev Fw (α : Type) := EStateM Stop Firmware α

/-- `if (c) panic();` -/
def panicIf (c : Prop) [Decidable c] : Fw Unit :=
  if c then throw Stop.panic else pure ()

@[simp] theorem panicIf_ok {c : Prop} [Decidable c] {u : Unit} {s s' : Firmware} :
    panicIf c s = .ok u s' ↔ ¬ c ∧ s' = s := by
  unfold panicIf
  split
  · rename_i h
    simp [h]
  · rename_i h
    simp [h, eq_comm]

theorem panicIf_of_not {c : Prop} [Decidable c] (h : ¬ c) (s : Firmware) :
    panicIf c s = .ok () s := by
  simp [h]

theorem panicIf_of {c : Prop} [Decidable c] (h : c) (s : Firmware) :
    panicIf c s = .error Stop.panic s := by
  rw [panicIf, if_pos h]
  rfl

/-! ### Memory accesses -/

/-- Bytes stored by the processor at `p`. -/
def poke (p : BitVec 32) (bs : List Byte) : Fw Unit :=
  modify fun s => { s with mem := ByteMemory.store s.mem p bs }

/-- Bytes loaded by the processor from `p`. -/
def peek (p : BitVec 32) (n : Nat) : Fw (List Byte) := do
  let s ← get
  pure (ByteMemory.load s.mem p n)

/-- `memset(p, 0, n)` and assignments to fields, given by their positions. -/
def fillStruct (p : BitVec 32) (n : Nat) (fields : List (Nat × List Byte)) : Fw Unit :=
  modify fun s => { s with
    mem := ByteMemory.storeFields (ByteMemory.store s.mem p (List.replicate n 0)) p fields }

/-- The little-endian number in `n` bytes at `p`. -/
def loadLE (m : Mem) (p : BitVec 32) (n : Nat) : Nat := ofLE (ByteMemory.load m p n)

theorem loadLE_lt (m : Mem) (p : BitVec 32) (n : Nat) : loadLE m p n < 256 ^ n := by
  have h := ofLE_lt (ByteMemory.load m p n)
  rwa [ByteMemory.length_load] at h

@[simp] theorem poke_apply (p : BitVec 32) (bs : List Byte) (s : Firmware) :
    poke p bs s = .ok () { s with mem := ByteMemory.store s.mem p bs } := rfl

@[simp] theorem peek_apply (p : BitVec 32) (n : Nat) (s : Firmware) :
    peek p n s = .ok (ByteMemory.load s.mem p n) s := rfl

/-- The machine with the bytes `bs` at `p`. -/
def Firmware.withBlock (s : Firmware) (p : BitVec 32) (bs : List Byte) : Firmware :=
  { s with mem := ByteMemory.store s.mem p bs }

section Block

variable (s : Firmware) (p : BitVec 32) {bs : List Byte} {k : Nat}

/-- Inside a block, memory is the block's bytes. -/
theorem load_withBlock {n : Nat} (hk : k + n ≤ bs.length) (hlen : bs.length ≤ 2 ^ 32) :
    ByteMemory.load (s.withBlock p bs).mem (p + BitVec.ofNat 32 k) n = slice bs k n :=
  ByteMemory.load_store_inside s.mem p hk hlen

theorem peek_withBlock {n : Nat} (hk : k + n ≤ bs.length) (hlen : bs.length ≤ 2 ^ 32) :
    peek (p + BitVec.ofNat 32 k) n (s.withBlock p bs) = .ok (slice bs k n) (s.withBlock p bs) := by
  rw [peek_apply, load_withBlock s p hk hlen]

theorem poke_withBlock {cs : List Byte} (hk : k + cs.length ≤ bs.length)
    (hlen : bs.length ≤ 2 ^ 32) :
    poke (p + BitVec.ofNat 32 k) cs (s.withBlock p bs) =
      .ok () (s.withBlock p (patch bs k cs)) := by
  rw [poke_apply]
  exact congrArg (fun m => EStateM.Result.ok () { s with mem := m })
    (ByteMemory.store_store_inside s.mem p hk hlen)

end Block

/-- A string constant of the C code, with its terminating NUL. -/
def cstring (cs : List Char) : List Byte := cs.map (fun c => BitVec.ofNat 8 c.toNat) ++ [0]

/-- Bytes at the start of a field of `n` bytes that is zero behind them. -/
def padTo (n : Nat) (bs : List Byte) : List Byte := (bs ++ List.replicate n 0).take n

@[simp] theorem length_padTo (n : Nat) (bs : List Byte) : (padTo n bs).length = n := by
  simp [padTo]

/-- A file name in the field that `struct fw_cfg_file` has for it. -/
def paddedName (name : List Byte) : Vector Byte 56 := ⟨(padTo 56 name).toArray, by simp⟩

end Qboot
