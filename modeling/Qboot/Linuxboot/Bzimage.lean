import Qboot.FwCfg.Files

/-!
`parse_bzimage` of linuxboot.c: it reads the header of a Linux kernel in
memory, decides where everything goes, and writes its decisions back into the
header. The second part says which bytes of the header it changes.
-/

namespace Qboot

open Bytes ByteMemory

/-- `ldl_p` and `lduw_p` of memaccess.h, and `p[0]` of a byte pointer. -/
def ldlP (p : BitVec 32) : Fw (BitVec 32) := do
  let bs ← peek p 4
  pure (BitVec.ofNat 32 (ofLE bs))

def lduwP (p : BitVec 32) : Fw (BitVec 16) := do
  let bs ← peek p 2
  pure (BitVec.ofNat 16 (ofLE bs))

def ldubP (p : BitVec 32) : Fw Byte := do
  let bs ← peek p 1
  pure (BitVec.ofNat 8 (ofLE bs))

/-- `stl_p` and `stw_p` of memaccess.h; a 32-bit argument of `stw_p` is
truncated. -/
def stlP (p val : BitVec 32) : Fw Unit := poke p (toLE 4 val.toNat)

def stwP (p val : BitVec 32) : Fw Unit := poke p (toLE 2 val.toNat)

/-- `real_addr`, `cmdline_addr` and `prot_addr` of `parse_bzimage`. -/
structure BzimageLayout where
  realAddr : BitVec 32
  cmdlineAddr : BitVec 32
  protAddr : BitVec 32
deriving DecidableEq

def bzimageLayout (protocol : BitVec 16) (loadflags : Byte) (cmdlineSize : BitVec 32) :
    BzimageLayout :=
  if protocol < 0x200#16 ∨ loadflags &&& 0x01#8 = 0#8 then
    -- Low kernel
    { realAddr := 0x90000#32
      cmdlineAddr := (0x9a000#32 - cmdlineSize) &&& ~~~15#32
      protAddr := 0x10000#32 }
  else if protocol < 0x202#16 then
    -- High but ancient kernel
    { realAddr := 0x90000#32
      cmdlineAddr := (0x9a000#32 - cmdlineSize) &&& ~~~15#32
      protAddr := 0x100000#32 }
  else
    -- High and recent kernel
    { realAddr := 0x10000#32, cmdlineAddr := 0x20000#32, protAddr := 0x100000#32 }

/-- `initrd_max`, before the comparison with `lowmem`. -/
def initrdMaxOf (header : BitVec 32) (protocol : BitVec 16) : Fw (BitVec 32) :=
  if protocol ≥ 0x203#16 then ldlP (header + 0x22c#32) else pure 0x37ffffff#32

def capInitrdMax (lowmem initrdMax : BitVec 32) : BitVec 32 :=
  if initrdMax > lowmem - 1#32 then lowmem - 1#32 else initrdMax

def initrdAddrOf (initrdMax initrdSize : BitVec 32) : BitVec 32 :=
  if initrdSize ≠ 0#32 then (initrdMax - initrdSize) &&& ~~~4095#32 else 0#32

/-- The command line pointer of the header. -/
def storeCmdline (header : BitVec 32) (protocol : BitVec 16) (r : BzimageLayout) : Fw Unit :=
  if protocol ≥ 0x202#16 then stlP (header + 0x228#32) r.cmdlineAddr
  else do
    stwP (header + 0x20#32) 0xA33F#32
    stwP (header + 0x22#32) (r.cmdlineAddr - r.realAddr)

/-- The boot loader version of the header. -/
def storeLoader (header : BitVec 32) (protocol : BitVec 16) : Fw Unit :=
  if protocol ≥ 0x200#16 then poke (header + 0x210#32) [0xB0#8] else pure ()

/-- The heap of the header. -/
def storeHeap (header : BitVec 32) (protocol : BitVec 16) (r : BzimageLayout) : Fw Unit :=
  if protocol ≥ 0x201#16 then do
    let loadflags ← ldubP (header + 0x211#32)
    poke (header + 0x211#32) [loadflags ||| 0x80#8]
    stwP (header + 0x224#32) (r.cmdlineAddr - r.realAddr - 0x200#32)
  else pure ()

/-- The outputs of `parse_bzimage`, from its last local variables. -/
def LinuxbootArgs.parsed (args : LinuxbootArgs) (r : BzimageLayout) (initrdAddr : BitVec 32)
    (setupSects : Byte) : LinuxbootArgs :=
  let setupSize : BitVec 32 := if setupSects = 0#8 then 4#32 else setupSects.setWidth 32
  { args with
    setupSize := (setupSize + 1#32) * 512#32
    kernelSize := args.vmlinuzSize - setupSize
    initrdAddr := initrdAddr
    kernelAddr := r.protAddr
    cmdlineAddr := r.cmdlineAddr }

/-- `parse_bzimage`; `none` is a return value of false, which leaves the
arguments as they are. -/
def parseBzimage (args : LinuxbootArgs) : Fw (Option LinuxbootArgs) := do
  let header := args.setupAddr
  let magic ← ldlP (header + 0x202#32)
  if magic = 0x53726448#32 then do
    let protocol ← lduwP (header + 0x206#32)
    let loadflags ← ldubP (header + 0x211#32)
    let r := bzimageLayout protocol loadflags args.cmdlineSize
    let initrdMax ← initrdMaxOf header protocol
    let s ← get
    storeCmdline header protocol r
    storeLoader header protocol
    storeHeap header protocol r
    let initrdAddr := initrdAddrOf (capInitrdMax s.lowmem initrdMax) args.initrdSize
    stlP (header + 0x218#32) initrdAddr
    stlP (header + 0x21c#32) args.initrdSize
    let setupSects ← ldubP (header + 0x1f1#32)
    pure (some (args.parsed r initrdAddr setupSects))
  else pure none

/-! ### The header as bytes -/

/-- A header that `parse_bzimage` takes for a bzImage. -/
def IsBzimage (bs : List Byte) : Prop := BitVec.ofNat 32 (ofLE (slice bs 0x202 4)) = 0x53726448#32

instance (bs : List Byte) : Decidable (IsBzimage bs) := by
  unfold IsBzimage
  infer_instance

def bzProtocol (bs : List Byte) : BitVec 16 := BitVec.ofNat 16 (ofLE (slice bs 0x206 2))

def bzLoadflags (bs : List Byte) : Byte := BitVec.ofNat 8 (ofLE (slice bs 0x211 1))

def bzSetupSects (bs : List Byte) : Byte := BitVec.ofNat 8 (ofLE (slice bs 0x1f1 1))

def bzInitrdMax (bs : List Byte) : BitVec 32 :=
  if bzProtocol bs ≥ 0x203#16 then BitVec.ofNat 32 (ofLE (slice bs 0x22c 4)) else 0x37ffffff#32

def bzLayout (bs : List Byte) (cmdlineSize : BitVec 32) : BzimageLayout :=
  bzimageLayout (bzProtocol bs) (bzLoadflags bs) cmdlineSize

def bzInitrdAddr (bs : List Byte) (lowmem initrdSize : BitVec 32) : BitVec 32 :=
  initrdAddrOf (capInitrdMax lowmem (bzInitrdMax bs)) initrdSize

def cmdlinePatches (protocol : BitVec 16) (r : BzimageLayout) : List (Nat × List Byte) :=
  if protocol ≥ 0x202#16 then [(0x228, toLE 4 r.cmdlineAddr.toNat)]
  else [(0x20, toLE 2 0xA33F), (0x22, toLE 2 (r.cmdlineAddr - r.realAddr).toNat)]

def loaderPatches (protocol : BitVec 16) : List (Nat × List Byte) :=
  if protocol ≥ 0x200#16 then [(0x210, [0xB0#8])] else []

def heapPatches (protocol : BitVec 16) (loadflags : Byte) (r : BzimageLayout) :
    List (Nat × List Byte) :=
  if protocol ≥ 0x201#16 then
    [(0x211, [loadflags ||| 0x80#8]),
     (0x224, toLE 2 (r.cmdlineAddr - r.realAddr - 0x200#32).toNat)]
  else []

/-- What `parse_bzimage` writes into the header `bs`, field by field. -/
def headerPatches (bs : List Byte) (lowmem cmdlineSize initrdSize : BitVec 32) :
    List (Nat × List Byte) :=
  cmdlinePatches (bzProtocol bs) (bzLayout bs cmdlineSize) ++ loaderPatches (bzProtocol bs) ++
    heapPatches (bzProtocol bs) (bzLoadflags bs) (bzLayout bs cmdlineSize) ++
    [(0x218, toLE 4 (bzInitrdAddr bs lowmem initrdSize).toNat), (0x21c, toLE 4 initrdSize.toNat)]

end Qboot
