import Qboot.Acpi.Loader

/-!
What the table loader is for: each file has its own byte string, a pointer
command adds an address to a little-endian field of one string, and a
checksum command subtracts a byte sum from one byte of one string. Nothing
here knows where in memory a file lies.
-/

namespace Qboot

open Bytes

/-- `bs` with `a` added to the little-endian field of `size` bytes at `offset`. -/
def addField (bs : List Byte) (offset size a : Nat) : List Byte :=
  patch bs offset (toLE size (ofLE (slice bs offset size) + a))

/-- `bs` with the sum of the `len` bytes at `start` subtracted from the byte
at `offset`. -/
def subtractSum (bs : List Byte) (offset start len : Nat) : List Byte :=
  patch bs offset [bs.getD offset 0 - (slice bs start len).sum]

/-- The directory position of the file a command places. -/
def LoaderCmd.allocates (files : List FwCfgFile) : LoaderCmd → Option Nat
  | .alloc file _ _ => fileIndex files file
  | _ => none

/-- The files whose address a command reads. -/
def LoaderCmd.sources : LoaderCmd → List (List Byte)
  | .ptr _ src _ _ => [src]
  | _ => []

/-- A pointer field lies in the file it belongs to. -/
def LoaderCmd.FieldInFile (files : List FwCfgFile) (size : Nat → Nat) : LoaderCmd → Prop
  | .ptr dest _ offset n => ∀ i, fileIndex files dest = some i → offset.toNat + n.toNat ≤ size i
  | _ => True

/-- What a command does to the bytes of the file at directory position `i`,
given the address of every file. -/
def LoaderCmd.onFile (files : List FwCfgFile) (addr : List Byte → BitVec 32) (i : Nat)
    (bs : List Byte) : LoaderCmd → List Byte
  | .alloc _ _ _ => bs
  | .ptr dest src offset size =>
    if fileIndex files dest = some i then
      addField bs offset.toNat size.toNat (addr src).toNat
    else bs
  | .checksum file offset start len =>
    if fileIndex files file = some i then
      subtractSum bs offset.toNat start.toNat len.toNat
    else bs
  | .quit => bs
  | .unknown _ => bs

/-- The commands that run: those before the first `CMD_QUIT`. -/
def executed (script : List LoaderCmd) : List LoaderCmd :=
  script.takeWhile fun cmd => decide (cmd ≠ .quit)

/-- The directory positions of the files the commands place. -/
def allocatedFiles (files : List FwCfgFile) (cmds : List LoaderCmd) : List Nat :=
  cmds.filterMap fun cmd => cmd.allocates files

/-- The bytes of file `i` after all commands. -/
def fileImage (files : List FwCfgFile) (addr : List Byte → BitVec 32) (i : Nat)
    (cmds : List LoaderCmd) (bs : List Byte) : List Byte :=
  cmds.foldl (fun bs cmd => cmd.onFile files addr i bs) bs

/-- A command only depends on the addresses it reads. -/
theorem onFile_congr {files : List FwCfgFile} {addr addr' : List Byte → BitVec 32}
    {cmd : LoaderCmd} (h : ∀ src ∈ cmd.sources, addr src = addr' src) (i : Nat)
    (bs : List Byte) : cmd.onFile files addr i bs = cmd.onFile files addr' i bs := by
  cases cmd with
  | ptr dest src offset size =>
    have hsrc : addr src = addr' src := h src (by simp [LoaderCmd.sources])
    simp only [LoaderCmd.onFile, hsrc]
  | _ => rfl

theorem length_addField {bs : List Byte} {offset size a : Nat}
    (h : offset + size ≤ bs.length) : (addField bs offset size a).length = bs.length :=
  length_patch (by simpa using h)

theorem length_subtractSum {bs : List Byte} {offset start len : Nat}
    (h : offset < bs.length) : (subtractSum bs offset start len).length = bs.length :=
  length_patch (by simpa using h)

/-- The new value of the field is the sum modulo `256 ^ size`. -/
theorem addField_value {bs : List Byte} {offset size a : Nat} (h : offset + size ≤ bs.length) :
    ofLE (slice (addField bs offset size a) offset size) =
      (ofLE (slice bs offset size) + a) % 256 ^ size := by
  have hslice : slice (addField bs offset size a) offset size =
      toLE size (ofLE (slice bs offset size) + a) := by
    have htake : (bs.take offset).length = offset := by
      rw [List.length_take]
      omega
    simp [slice, addField, patch, htake]
  rw [hslice, ofLE_toLE]

/-- A checksum command whose byte lies in its range makes the range sum to
zero. -/
theorem subtractSum_sum {bs : List Byte} {offset start len : Nat}
    (hlo : start ≤ offset) (hhi : offset < start + len) (hlen : start + len ≤ bs.length) :
    (slice (subtractSum bs offset start len) start len).sum = 0 := by
  have hoff : offset < bs.length := by omega
  have hpos : offset - start < (slice bs start len).length := by
    rw [length_slice hlen]
    omega
  have hbyte : (slice bs start len)[offset - start] = bs[offset] := by
    simp only [slice, List.getElem_take, List.getElem_drop]
    congr 1
    omega
  have hget : bs.getD offset 0 = bs[offset] := by simp [hoff]
  rw [subtractSum, slice_patch hlo (by simpa using hhi) hlen, sum_patch_byte hpos, hbyte, hget]
  ring

end Qboot
