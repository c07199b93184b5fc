import Qboot.FwCfg.Files
import Qboot.StringOps

/-!
`extract_smbios` of smbios.c: copy QEMU's anchor and tables to the F-segment,
look for a BIOS information structure, write one below the tables if there is
none, and fix the checksums.
-/

namespace Qboot

open Bytes ByteMemory

/-- `sizeof(struct smbios_entry_point)` and `sizeof(struct smbios_type_0)`. -/
def smbiosEntryPointBytes : Nat := 31
def smbiosType0Bytes : Nat := 24

/-- Addresses of the fields of `struct smbios_entry_point`. -/
def epChecksum (ep : BitVec 32) : BitVec 32 := ep + 4#32
def epLength (ep : BitVec 32) : BitVec 32 := ep + 5#32
def epMaxStructureSize (ep : BitVec 32) : BitVec 32 := ep + 8#32
def epIntermediateChecksum (ep : BitVec 32) : BitVec 32 := ep + 21#32
def epStructureTableLength (ep : BitVec 32) : BitVec 32 := ep + 22#32
def epStructureTableAddress (ep : BitVec 32) : BitVec 32 := ep + 24#32
def epNumberOfStructures (ep : BitVec 32) : BitVec 32 := ep + 28#32

def BIOS_NAME : List Byte := [0x71#8, 0x62#8, 0x6f#8, 0x6f#8, 0x74#8]
def VERSION : List Byte := [0x30#8, 0x2e#8, 0x31#8]
def BIOS_DATE : List Byte :=
  [0x31#8, 0x31#8, 0x2f#8, 0x31#8, 0x31#8, 0x2f#8, 0x32#8, 0x30#8, 0x31#8, 0x39#8]

/-- `set_str_field_or_skip`, on `end` and `str_index`. A NULL argument is
`none`; a string is its characters without the NUL. -/
def setStrFieldOrSkip (start : BitVec 32) (field : Nat) (value : Option (List Byte))
    (end_ : BitVec 32) (strIndex : Nat) : Fw (BitVec 32 × Nat) :=
  match value with
  | none => do
    poke (start + BitVec.ofNat 32 field) [0#8]
    pure (end_, strIndex)
  | some [] => do
    poke (start + BitVec.ofNat 32 field) [0#8]
    pure (end_, strIndex)
  | some (c :: cs) => do
    poke end_ (c :: cs ++ [0#8])
    poke (start + BitVec.ofNat 32 field) [BitVec.ofNat 8 (strIndex + 1)]
    pure (end_ + BitVec.ofNat 32 (cs.length + 2), strIndex + 1)

def smbiosNewType0 (start : BitVec 32) (vendor version date : Option (List Byte)) : Fw Unit := do
  poke start [0#8]
  poke (start + 1#32) [BitVec.ofNat 8 smbiosType0Bytes]
  poke (start + 2#32) (toLE 2 0)
  let r ← setStrFieldOrSkip start 4 vendor (start + BitVec.ofNat 32 smbiosType0Bytes) 0
  let r ← setStrFieldOrSkip start 5 version r.1 r.2
  poke (start + 6#32) (toLE 2 0xe800)
  let r ← setStrFieldOrSkip start 8 date r.1 r.2
  poke (start + 9#32) [0#8]
  poke (start + 10#32) (List.replicate 8 0)
  poke (start + 10#32) [0x08#8]
  poke (start + 18#32) [0#8]
  poke (start + 19#32) [4#8]
  poke (start + 20#32) [0#8]
  poke (start + 21#32) [0#8]
  poke (start + 22#32) [0xff#8]
  poke (start + 23#32) [0xff#8]
  poke r.1 [0#8]
  if r.2 = 0 then poke (r.1 + 1#32) [0#8] else pure ()

/-- The loop of `smbios_next` that looks for two NULs; at most `n` steps lie
between `ptr` and `end`. -/
def skipStrings (m : Mem) (end_ : BitVec 32) : Nat → BitVec 32 → BitVec 32
  | 0, ptr => ptr
  | n + 1, ptr =>
    if ptr < end_ ∧ (m (ptr - 1#32) ≠ 0#8 ∨ m (ptr - 2#32) ≠ 0#8) then
      skipStrings m end_ n (ptr + 1#32)
    else ptr

/-- The last test of `smbios_next`: `ptr` if a header and its formatted area
end before `end`, else NULL. -/
def headerOrNull (m : Mem) (end_ ptr : BitVec 32) : BitVec 32 :=
  if ptr ≥ end_ ∨ ptr + 4#32 ≥ end_ ∨ ptr + (m (ptr + 1#32)).setWidth 32 ≥ end_ then 0#32
  else ptr

/-- `smbios_next`, which only reads memory. NULL is address zero. -/
def smbiosNext (m : Mem) (ep hdr : BitVec 32) : BitVec 32 :=
  if ep = 0#32 then 0#32
  else
    let start := BitVec.ofNat 32 (loadLE m (epStructureTableAddress ep) 4)
    let end_ := start + BitVec.ofNat 32 (loadLE m (epStructureTableLength ep) 2)
    if hdr = 0#32 then headerOrNull m end_ start
    else if hdr + 4#32 > end_ then 0#32
    else
      let ptr := hdr + ((m (hdr + 1#32)).setWidth 32 + 2#32)
      headerOrNull m end_ (skipStrings m end_ (end_.toNat - ptr.toNat) ptr)

/-- The loop of `extract_smbios`. Headers move up in a table of less than
64 KiB, so `n` calls are enough. -/
def needT0 (m : Mem) (ep : BitVec 32) : Nat → BitVec 32 → Bool
  | 0, _ => true
  | n + 1, hdr =>
    let tableHeader := smbiosNext m ep hdr
    if tableHeader = 0#32 then true
    else if m tableHeader = 0#8 then false
    else needT0 m ep n tableHeader

def t0Len : Nat := smbiosType0Bytes + BIOS_NAME.length + VERSION.length + BIOS_DATE.length + 4

/-- A `uint16_t` field at `p` is changed by `f`. -/
def updateHalf (p : BitVec 32) (f : BitVec 16 → BitVec 16) : Fw Unit := do
  let bs ← peek p 2
  poke p (toLE 2 (f (BitVec.ofNat 16 (ofLE bs))).toNat)

/-- Write a BIOS information structure below the tables at `qtables` and count
it in the entry point. -/
def addType0 (ep qtables : BitVec 32) : Fw Unit := do
  smbiosNewType0 (qtables - BitVec.ofNat 32 t0Len) (some BIOS_NAME) (some VERSION) (some BIOS_DATE)
  updateHalf (epNumberOfStructures ep) fun n => n + 1#16
  let bs ← peek (epStructureTableAddress ep) 4
  poke (epStructureTableAddress ep)
    (toLE 4 (BitVec.ofNat 32 (ofLE bs) - BitVec.ofNat 32 t0Len).toNat)
  updateHalf (epStructureTableLength ep) fun n => n + BitVec.ofNat 16 t0Len
  updateHalf (epMaxStructureSize ep) fun n =>
    if BitVec.ofNat 16 t0Len > n then BitVec.ofNat 16 t0Len else n

/-- Both checksums of the entry point. -/
def fixChecksums (ep : BitVec 32) : Fw Unit := do
  let s ← get
  poke (epChecksum ep) [s.mem (epChecksum ep) - csum8 s.mem ep 0x10#32]
  let s ← get
  poke (epIntermediateChecksum ep) [s.mem (epIntermediateChecksum ep) -
    csum8 s.mem (ep + 0x10#32) ((s.mem (epLength ep)).setWidth 32 - 0x10#32)]

/-- `extract_smbios` once the tables are in memory at `qtables`. -/
def publishSmbios (ep qtables : BitVec 32) (qtablesLength : BitVec 16) : Fw Unit := do
  poke (epStructureTableAddress ep) (toLE 4 qtables.toNat)
  poke (epStructureTableLength ep) (toLE 2 qtablesLength.toNat)
  let s ← get
  if needT0 s.mem ep 65536 0#32 then addType0 ep qtables else pure ()
  fixChecksums ep

def smbiosAnchorName : List Byte :=
  cstring ['e', 't', 'c', '/', 's', 'm', 'b', 'i', 'o', 's', '/', 's', 'm', 'b', 'i', 'o', 's',
    '-', 'a', 'n', 'c', 'h', 'o', 'r']

def smbiosTablesName : List Byte :=
  cstring ['e', 't', 'c', '/', 's', 'm', 'b', 'i', 'o', 's', '/', 's', 'm', 'b', 'i', 'o', 's',
    '-', 't', 'a', 'b', 'l', 'e', 's']

/-- `extract_smbios` once the anchor is in memory at `ep`. -/
def readSmbiosTables (ep : BitVec 32) : Fw Unit := do
  let bs ← peek (epStructureTableLength ep) 2
  let qtablesLength : BitVec 16 := BitVec.ofNat 16 (ofLE bs)
  let id ← fwCfgFileId smbiosTablesName
  let size ← fwCfgFileSize id
  if id = -1 ∨ qtablesLength.setWidth 32 ≠ size then pure ()
  else do
    let qtables ← mallocFseg (qtablesLength.setWidth 32 + BitVec.ofNat 32 t0Len)
    if qtables = 0#32 then pure ()
    else do
      let qtables := qtables + BitVec.ofNat 32 t0Len
      fwCfgReadFile id qtables (qtablesLength.setWidth 32)
      publishSmbios ep qtables qtablesLength

def extractSmbios : Fw Unit := do
  let id ← fwCfgFileId smbiosAnchorName
  let size ← fwCfgFileSize id
  if id = -1 ∨ BitVec.ofNat 32 smbiosEntryPointBytes ≠ size then pure ()
  else do
    let ep ← mallocFseg (BitVec.ofNat 32 smbiosEntryPointBytes)
    if ep = 0#32 then pure ()
    else do
      fwCfgReadFile id ep (BitVec.ofNat 32 smbiosEntryPointBytes)
      readSmbiosTables ep

end Qboot
