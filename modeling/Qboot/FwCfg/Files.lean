import Qboot.FwCfg.Transport
import Qboot.Malloc

/-!
The fw_cfg file directory: reading it at boot, finding a file by name, and
reading a file. The directory is kept as the list of its decoded records, a
snapshot of the array in memory that stands for it as long as nothing else writes
there.
-/

namespace Qboot

open Bytes ByteMemory

def FW_CFG_ID : BitVec 16 := 0x01#16
def FW_CFG_FILE_DIR : BitVec 16 := 0x19#16

/-- `sizeof(struct fw_cfg_file)` -/
def fwCfgFileBytes : Nat := 64

/-- The directory record at `p`, with its fields as the processor reads them. -/
def decodeFile (m : Mem) (p : BitVec 32) : FwCfgFile where
  size := BitVec.ofNat 32 (loadLE m p 4)
  select := BitVec.ofNat 16 (loadLE m (p + 4#32) 2)
  name := ⟨(load m (p + 8#32) 56).toArray, by simp⟩

/-- Swap the size and the selector of the record at `p` in place. -/
def swapFile (p : BitVec 32) : Fw Unit := do
  let s ← get
  let f := decodeFile s.mem p
  poke p (toLE 4 (bswap32 f.size).toNat)
  poke (p + 4#32) (toLE 2 (bswap16 f.select).toNat)

def fwCfgSetup : Fw Unit := do
  fwCfgSelect FW_CFG_ID
  let version ← fwCfgReadlLe
  modify fun s => { s with version := version }
  fwCfgSelect FW_CFG_FILE_DIR
  let n ← fwCfgReadlBe
  -- `i < n` compares ints: a count with the top bit set gives no records
  let filecnt := n.toInt.toNat
  let files ← mallocFseg (64#32 * n)
  fwCfgRead files (64#32 * n)
  forM (List.range filecnt) fun i => swapFile (files + BitVec.ofNat 32 (fwCfgFileBytes * i))
  modify fun s => { s with
    files := (List.range filecnt).map fun i =>
      decodeFile s.mem (files + BitVec.ofNat 32 (fwCfgFileBytes * i)) }

/-- The loop of `filenamecmp` with `k + 1` bytes of the name field left.
`char` is signed; the callers only ask for a zero result. -/
def filenamecmpFrom : Nat → List Byte → List Byte → Int
  | k, a, b =>
    let x := a.headD 0
    let y := b.headD 0
    if x = y then
      if x = 0 then x.toInt - y.toInt
      else
        match k with
        | 0 => x.toInt
        | k + 1 => filenamecmpFrom k a.tail b.tail
    else x.toInt - y.toInt

def filenamecmp (a : List Byte) (f : FwCfgFile) : Int := filenamecmpFrom 55 a f.name.toList

/-- Directory position of the first file with this name. -/
def fileIndex (files : List FwCfgFile) (name : List Byte) : Option Nat :=
  files.findIdx? fun f => filenamecmp name f = 0

def fwCfgFileId (name : List Byte) : Fw Int := do
  let s ← get
  match fileIndex s.files name with
  | some i => pure i
  | none => pure (-1)

/-- `files[id]` -/
def fileAt (id : Int) : Fw FwCfgFile := do
  let s ← get
  if 0 ≤ id then
    match s.files[id.toNat]? with
    | some f => pure f
    | none => throw (Stop.fault .directory)
  else throw (Stop.fault .directory)

def fwCfgFileSize (id : Int) : Fw (BitVec 32) := do
  if id = -1 then pure 0#32
  else do
    let f ← fileAt id
    pure f.size

def fwCfgReadFile (id : Int) (buf len : BitVec 32) : Fw Unit := do
  let f ← fileAt id
  fwCfgReadEntry (f.select.setWidth 32) buf len

/-- Reading a file into a local array. Locals are no part of the modeled
memory, so the read runs on a memory of its own. -/
def fwCfgReadFileLocal (id : Int) (len : BitVec 32) : Fw (List Byte) := do
  let s ← get
  modify fun t => { t with mem := fun _ => 0#8 }
  fwCfgReadFile id 0#32 len
  let t ← get
  modify fun t => { t with mem := s.mem }
  pure (load t.mem 0#32 len.toNat)

/-! ### What the directory functions return -/

/-- The bytes that reading `n` bytes of a file gives. -/
def FwCfg.fileBytes (d : FwCfg) (f : FwCfgFile) (n : Nat) : List Byte :=
  entryBytes (d.entry f.select) 0 n

@[simp] theorem FwCfg.length_fileBytes (d : FwCfg) (f : FwCfgFile) (n : Nat) :
    (d.fileBytes f n).length = n := by
  simp [FwCfg.fileBytes]

theorem fileIndex_lt {files : List FwCfgFile} {name : List Byte} {i : Nat}
    (h : fileIndex files name = some i) : i < files.length := by
  have hfound := List.findIdx?_eq_some_iff_getElem.mp h
  exact hfound.1

theorem fwCfgFileId_some {name : List Byte} {s : Firmware} {i : Nat}
    (h : fileIndex s.files name = some i) : fwCfgFileId name s = .ok (i : Int) s := by
  simp [fwCfgFileId, StateRun.bind_apply, h]

theorem fwCfgFileId_none {name : List Byte} {s : Firmware}
    (h : fileIndex s.files name = none) : fwCfgFileId name s = .ok (-1) s := by
  simp [fwCfgFileId, StateRun.bind_apply, h]

theorem fileAt_lt {s : Firmware} {i : Nat} (h : i < s.files.length) :
    fileAt i s = .ok s.files[i] s := by
  simp [fileAt, StateRun.bind_apply, List.getElem?_eq_getElem h]

theorem fwCfgFileSize_lt {s : Firmware} {i : Nat} (h : i < s.files.length) :
    fwCfgFileSize i s = .ok s.files[i].size s := by
  have hne : ¬ (i : Int) = -1 := by omega
  simp only [fwCfgFileSize, if_neg hne, StateRun.bind_apply, fileAt_lt h,
    StateRun.pure_apply]

theorem fwCfgFileSize_neg_one (s : Firmware) : fwCfgFileSize (-1) s = .ok 0#32 s := by
  simp [fwCfgFileSize]

theorem fwCfgReadFile_lt {s : Firmware} {i : Nat} (buf len : BitVec 32)
    (h : i < s.files.length) :
    fwCfgReadFile i buf len s = .ok () { s with
      mem := store s.mem buf (s.dev.fileBytes s.files[i] len.toNat)
      dev := (s.dev.select s.files[i].select).skip len.toNat } := by
  have hkey : (s.files[i].select.setWidth 32).setWidth 16 = s.files[i].select := by
    apply BitVec.eq_of_toNat_eq
    simp
  rw [fwCfgReadFile, StateRun.bind_of_ok (fileAt_lt h), fwCfgReadEntry_apply, hkey]
  rfl

theorem fwCfgReadFileLocal_lt {s : Firmware} {i : Nat} (len : BitVec 32)
    (h : i < s.files.length) :
    fwCfgReadFileLocal i len s = .ok (s.dev.fileBytes s.files[i] len.toNat)
      { s with dev := (s.dev.select s.files[i].select).skip len.toNat } := by
  have hread := fwCfgReadFile_lt (s := { s with mem := fun _ => 0#8 }) 0#32 len h
  have hlen : len.toNat ≤ 2 ^ 32 := len.isLt.le
  have hload := load_store (w := 32) (fun _ => 0#8) 0#32
    (by simpa using hlen : (s.dev.fileBytes s.files[i] len.toNat).length ≤ 2 ^ 32)
  rw [FwCfg.length_fileBytes] at hload
  simp only [fwCfgReadFileLocal, StateRun.bind_apply, StateRun.get_apply, StateRun.modify_apply,
    hread, hload, StateRun.pure_apply]

/-! ### The files of a directory -/

/-- Size of the file at directory position `i`. -/
def Firmware.fileSize (s : Firmware) (i : Nat) : Nat :=
  match s.files[i]? with
  | some f => f.size.toNat
  | none => 0

/-- The fw_cfg bytes of the file at directory position `i`. -/
def Firmware.fileContent (s : Firmware) (i : Nat) : List Byte :=
  match s.files[i]? with
  | some f => s.dev.fileBytes f f.size.toNat
  | none => []

theorem fileSize_eq {s : Firmware} {i : Nat} (h : i < s.files.length) :
    s.fileSize i = s.files[i].size.toNat := by
  simp [Firmware.fileSize, List.getElem?_eq_getElem h]

theorem fileContent_eq {s : Firmware} {i : Nat} (h : i < s.files.length) :
    s.fileContent i = s.dev.fileBytes s.files[i] s.files[i].size.toNat := by
  simp [Firmware.fileContent, List.getElem?_eq_getElem h]

theorem length_fileContent {s : Firmware} {i : Nat} (h : i < s.files.length) :
    (s.fileContent i).length = s.fileSize i := by
  rw [fileContent_eq h, FwCfg.length_fileBytes, fileSize_eq h]

/-! ### Reading files does not allocate -/

theorem fwCfgFileId_keepsHeap (name : List Byte) : KeepsHeap (fwCfgFileId name) := by
  refine KeepsHeap.get.bind fun s => ?_
  cases fileIndex s.files name with
  | none => exact KeepsHeap.pure _
  | some i => exact KeepsHeap.pure _

theorem fileAt_keepsHeap (id : Int) : KeepsHeap (fileAt id) := by
  refine KeepsHeap.get.bind fun s => KeepsHeap.ite ?_ (KeepsHeap.throw _)
  cases s.files[id.toNat]? with
  | none => exact KeepsHeap.throw _
  | some f => exact KeepsHeap.pure _

theorem fwCfgFileSize_keepsHeap (id : Int) : KeepsHeap (fwCfgFileSize id) :=
  KeepsHeap.ite (KeepsHeap.pure _) ((fileAt_keepsHeap id).bind fun _ => KeepsHeap.pure _)

theorem fwCfgReadEntry_keepsHeap (e buf len : BitVec 32) : KeepsHeap (fwCfgReadEntry e buf len) :=
  KeepsHeap.of_apply (fwCfgReadEntry_apply e buf len) fun _ => rfl

theorem fwCfgRead_keepsHeap (buf len : BitVec 32) : KeepsHeap (fwCfgRead buf len) :=
  KeepsHeap.of_apply (fwCfgRead_apply buf len) fun _ => rfl

theorem fwCfgReadFile_keepsHeap (id : Int) (buf len : BitVec 32) :
    KeepsHeap (fwCfgReadFile id buf len) :=
  (fileAt_keepsHeap id).bind fun _ => fwCfgReadEntry_keepsHeap _ _ _

theorem fwCfgReadFileLocal_keepsHeap (id : Int) (len : BitVec 32) :
    KeepsHeap (fwCfgReadFileLocal id len) := by
  refine KeepsHeap.get.bind fun s => KeepsHeap.bind ?_ fun _ => ?_
  · exact KeepsHeap.modify fun _ => rfl
  · refine (fwCfgReadFile_keepsHeap id 0#32 len).bind fun _ => KeepsHeap.get.bind fun t => ?_
    refine KeepsHeap.bind ?_ fun _ => KeepsHeap.pure _
    exact KeepsHeap.modify fun _ => rfl

end Qboot
