import Qboot.FwCfg.Files

/-!
The directory where it lies. `fw_cfg_setup` leaves the records in memory, and
every lookup reads them there; the field `files` is what the last lookup saw. A
program that may have written to the directory is run with the records read
again in front of each lookup.
-/

namespace Qboot

open Bytes ByteMemory

/-- The globals `files` and `filecnt` of fw_cfg.c. -/
structure FileTable where
  files : BitVec 32
  filecnt : Nat

/-- The byte is part of a record. -/
def FileTable.Holds (d : FileTable) (a : BitVec 32) : Prop :=
  Within d.files (fwCfgFileBytes * d.filecnt) a

/-- The records in memory. -/
def FileTable.read (d : FileTable) (m : Mem) : List FwCfgFile :=
  (List.range d.filecnt).map fun i =>
    decodeFile m (d.files + BitVec.ofNat 32 (fwCfgFileBytes * i))

/-- The next lookup sees the records as they are now. -/
def rereadFiles (d : FileTable) : Fw Unit :=
  modify fun s => { s with files := d.read s.mem }

/-- `fw_cfg_setup`, with the two globals as its result. -/
def fwCfgSetupTable : Fw FileTable := do
  fwCfgSelect FW_CFG_ID
  let version ← fwCfgReadlLe
  modify fun s => { s with version := version }
  fwCfgSelect FW_CFG_FILE_DIR
  let n ← fwCfgReadlBe
  let filecnt := n.toInt.toNat
  let files ← mallocFseg (64#32 * n)
  fwCfgRead files (64#32 * n)
  forM (List.range filecnt) fun i => swapFile (files + BitVec.ofNat 32 (fwCfgFileBytes * i))
  pure { files := files, filecnt := filecnt }

/-- `fwCfgSetup` is this and the first look at the records. -/
theorem fwCfgSetup_eq_reread : fwCfgSetup = fwCfgSetupTable >>= rereadFiles := by
  simp only [fwCfgSetupTable, bind_assoc, pure_bind]
  rfl

@[simp] theorem rereadFiles_apply (d : FileTable) (s : Firmware) :
    rereadFiles d s = .ok () { s with files := d.read s.mem } := rfl

theorem rereadFiles_keepsHeap (d : FileTable) : KeepsHeap (rereadFiles d) :=
  KeepsHeap.modify fun _ => rfl

section Read

variable {d : FileTable} {m m' : Mem}

theorem decodeFile_congr {p : BitVec 32} (h : ∀ a, Within p fwCfgFileBytes a → m' a = m a) :
    decodeFile m' p = decodeFile m p := by
  have hrecord : load m' p 64 = load m p 64 := load_congr (by decide) h
  have hpart {k n : Nat} (hk : k + n ≤ 64) :
      load m' (p + BitVec.ofNat 32 k) n = load m (p + BitVec.ofNat 32 k) n := by
    rw [← slice_load m' p hk, ← slice_load m p hk, hrecord]
  have hsize := @hpart 0 4 (by decide)
  rw [BitVec.add_zero] at hsize
  have hselect : load m' (p + 4#32) 2 = load m (p + 4#32) 2 := hpart (by decide)
  have hname : load m' (p + 8#32) 56 = load m (p + 8#32) 56 := hpart (by decide)
  simp only [decodeFile, loadLE, hsize, hselect, hname]

/-- Memory outside the records is no part of the directory. -/
theorem FileTable.read_congr (hlen : fwCfgFileBytes * d.filecnt ≤ 2 ^ 32)
    (h : ∀ a, d.Holds a → m' a = m a) : d.read m' = d.read m := by
  refine List.map_congr_left fun i hi => decodeFile_congr fun a ha => h a ?_
  have hlt : i < d.filecnt := List.mem_range.mp hi
  have hend : fwCfgFileBytes * i + fwCfgFileBytes ≤ fwCfgFileBytes * d.filecnt := by
    rw [← Nat.mul_succ]
    exact Nat.mul_le_mul_left _ hlt
  have hshift := (within_shift (hend.trans hlen) (by decide)).mp ha
  unfold FileTable.Holds Within
  omega

theorem rereadFiles_of_intact {s : Firmware} (h : d.read s.mem = s.files) :
    rereadFiles d s = .ok () s := by
  rw [rereadFiles_apply, h]

end Read

/-- A record of the directory, as the device holds it. -/
def dirRecord (size : BitVec 32) (select : BitVec 16) (name : List Byte) : List Byte :=
  toBE 4 size.toNat ++ toBE 2 select.toNat ++ [0#8, 0#8] ++ padTo 56 name

end Qboot
