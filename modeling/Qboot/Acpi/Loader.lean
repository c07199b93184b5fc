import Qboot.FwCfg.Files
import Qboot.StringOps

/-!
The ACPI table loader of tables.c. QEMU's script in `etc/table-loader` is a
list of 128-byte commands that place files in memory, add the address of one
file to a field of another, and fix checksums.
-/

namespace Qboot

open Bytes ByteMemory

/-- `struct loader_cmd`, read by its command word. File names are the 56-byte
fields of the record, which need not hold a NUL. -/
inductive LoaderCmd where
  | quit
  | alloc (file : List Byte) (align : BitVec 32) (zone : Byte)
  | ptr (dest src : List Byte) (offset : BitVec 32) (size : Byte)
  | checksum (file : List Byte) (offset start len : BitVec 32)
  | unknown (cmd : BitVec 32)
deriving DecidableEq

/-- `sizeof(struct loader_cmd)` -/
def loaderCmdBytes : Nat := 128

def CMD_QUIT : BitVec 32 := 0#32
def CMD_ALLOC : BitVec 32 := 1#32
def CMD_PTR : BitVec 32 := 2#32
def CMD_CHECKSUM : BitVec 32 := 3#32

def ALLOC_FSEG : Byte := 2#8

private def word (bs : List Byte) (k : Nat) : BitVec 32 := BitVec.ofNat 32 (ofLE (slice bs k 4))

/-- The command in a 128-byte record. -/
def LoaderCmd.decode (bs : List Byte) : LoaderCmd :=
  let cmd := word bs 0
  if cmd = CMD_ALLOC then
    .alloc (slice bs 4 56) (word bs 60) (bs.getD 64 0)
  else if cmd = CMD_PTR then
    .ptr (slice bs 4 56) (slice bs 60 56) (word bs 116) (bs.getD 120 0)
  else if cmd = CMD_CHECKSUM then
    .checksum (slice bs 4 56) (word bs 60) (word bs 64) (word bs 68)
  else if cmd = CMD_QUIT then .quit
  else .unknown cmd

/-- `file_address[fw_cfg_id]` -/
def idToAddr (id : Int) : Fw (BitVec 32) := do
  let s ← get
  if h : 0 ≤ id ∧ id.toNat < 20 then pure (s.fileAddress ⟨id.toNat, h.2⟩)
  else throw (Stop.fault .addressTable)

/-- `file_address[fw_cfg_id] = p` -/
def setFileAddr (id : Int) (p : BitVec 32) : Fw Unit := do
  let s ← get
  if h : 0 ≤ id ∧ id.toNat < 20 then
    set { s with fileAddress := Function.update s.fileAddress ⟨id.toNat, h.2⟩ p }
  else throw (Stop.fault .addressTable)

/-- The RSDP is looked for in the first 8 bytes of an F-segment file. -/
def saveRsdp (zone : Byte) (id : Int) (p : BitVec 32) : Fw Unit := do
  if zone = ALLOC_FSEG then do
    let bs ← peek p 8
    if memcmp bs [0x52, 0x53, 0x44, 0x20, 0x50, 0x54, 0x52, 0x20] = 0 then do
      let addr ← idToAddr id
      modify fun s => { s with
        startInfo := { s.startInfo with rsdpPaddr := addr.setWidth 64 } }
    else pure ()
  else pure ()

/-- The zone `do_alloc` asks for. -/
def zoneOf (zone : Byte) : Zone := if zone = ALLOC_FSEG then .fseg else .low

/-- Alignments below 16 are raised. -/
def tableAlign (align : BitVec 32) : BitVec 32 := if align < 16#32 then 16#32 else align

theorem tableAlign_pos (align : BitVec 32) : 0 < (tableAlign align).toNat := by
  unfold tableAlign
  split
  · decide
  · rename_i hge
    simp only [BitVec.lt_def, not_lt] at hge
    exact lt_of_lt_of_le (by decide) hge

def doAlloc (file : List Byte) (align : BitVec 32) (zone : Byte) : Fw Unit := do
  let id ← fwCfgFileId file
  let n ← fwCfgFileSize id
  panicIf (id = -1)
  let p ← mallocIn (zoneOf zone) n (tableAlign align)
  setFileAddr id p
  fwCfgReadFile id p n
  saveRsdp zone id p

/-- The field is copied to an 8-byte union on the stack; more than 8 bytes
overrun it. -/
def doPtr (dest src : List Byte) (offset : BitVec 32) (size : Byte) : Fw Unit := do
  let id ← fwCfgFileId src
  let p ← idToAddr id
  panicIf (p = 0#32)
  let id ← fwCfgFileId dest
  let q ← idToAddr id
  panicIf (q = 0#32)
  let q := q + offset
  if 8#8 < size then throw (Stop.fault .stackBuffer)
  else do
    let bs ← peek q size.toNat
    let ll := BitVec.ofNat 64 (ofLE bs) + p.setWidth 64
    poke q (toLE size.toNat ll.toNat)

/-- `n` is an int, but each comparison with a `uint32_t` makes it unsigned. -/
def doChecksum (file : List Byte) (offset start len : BitVec 32) : Fw Unit := do
  let id ← fwCfgFileId file
  let p ← idToAddr id
  panicIf (p = 0#32)
  let n ← fwCfgFileSize id
  panicIf (offset ≥ n ∨ n < start ∨ len > n - start)
  let s ← get
  let sum := csum8 s.mem (p + start) len
  poke (p + offset) [s.mem (p + offset) - sum]

def LoaderCmd.run : LoaderCmd → Fw Unit
  | .alloc file align zone => doAlloc file align zone
  | .ptr dest src offset size => doPtr dest src offset size
  | .checksum file offset start len => doChecksum file offset start len
  | .quit => pure ()
  | .unknown _ => throw Stop.panic

/-- The command loop: `CMD_QUIT` returns from it. -/
def runScript : List LoaderCmd → Fw Unit
  | [] => pure ()
  | .quit :: _ => pure ()
  | cmd :: rest => do
    cmd.run
    runScript rest

/-- The commands in the bytes of a script. -/
def scriptOf (bs : List Byte) : List LoaderCmd :=
  (records loaderCmdBytes bs).map LoaderCmd.decode

def tableLoaderName : List Byte :=
  cstring ['e', 't', 'c', '/', 't', 'a', 'b', 'l', 'e', '-', 'l', 'o', 'a', 'd', 'e', 'r']

/-- The script array has room for whole commands only, but all `n` bytes of
the file are read into it. -/
def extractAcpi : Fw Unit := do
  let id ← fwCfgFileId tableLoaderName
  let n ← fwCfgFileSize id
  if n = 0#32 then pure ()
  else if n.toNat % loaderCmdBytes ≠ 0 then throw (Stop.fault .stackBuffer)
  else do
    let script ← fwCfgReadFileLocal id n
    runScript (scriptOf script)

/-! ### What a command that returns has done -/

theorem idToAddr_ok {id : Int} {s s' : Firmware} {p : BitVec 32} :
    idToAddr id s = .ok p s' ↔
      ∃ i : Fin 20, id = (i.val : Int) ∧ p = s.fileAddress i ∧ s' = s := by
  unfold idToAddr
  rw [StateRun.bind_of_ok (StateRun.get_apply s)]
  split
  · rename_i h
    simp only [StateRun.pure_apply, EStateM.Result.ok.injEq]
    constructor
    · rintro ⟨rfl, rfl⟩
      exact ⟨⟨id.toNat, h.2⟩, (Int.toNat_of_nonneg h.1).symm, rfl, rfl⟩
    · rintro ⟨i, rfl, rfl, rfl⟩
      exact ⟨rfl, rfl⟩
  · rename_i h
    simp only [StateRun.throw_apply, reduceCtorEq, false_iff]
    rintro ⟨i, rfl, -⟩
    exact h ⟨Int.natCast_nonneg _, i.isLt⟩

theorem setFileAddr_ok {id : Int} {p : BitVec 32} {s s' : Firmware} :
    setFileAddr id p s = .ok () s' ↔
      ∃ i : Fin 20, id = (i.val : Int) ∧
        s' = { s with fileAddress := Function.update s.fileAddress i p } := by
  unfold setFileAddr
  rw [StateRun.bind_of_ok (StateRun.get_apply s)]
  split
  · rename_i h
    simp only [StateRun.set_apply, EStateM.Result.ok.injEq, true_and]
    constructor
    · rintro rfl
      exact ⟨⟨id.toNat, h.2⟩, (Int.toNat_of_nonneg h.1).symm, rfl⟩
    · rintro ⟨i, rfl, rfl⟩
      rfl
  · rename_i h
    simp only [StateRun.throw_apply, reduceCtorEq, false_iff]
    rintro ⟨i, rfl, -⟩
    exact h ⟨Int.natCast_nonneg _, i.isLt⟩

/-- A lookup that an id-indexed access accepts found a file. -/
theorem fwCfgFileId_nat {name : List Byte} {s s' : Firmware} {id : Int} {i : Nat}
    (hid : id = (i : Int)) (h : fwCfgFileId name s = .ok id s') :
    fileIndex s.files name = some i ∧ s' = s := by
  cases hfound : fileIndex s.files name with
  | none =>
    rw [fwCfgFileId_none hfound] at h
    simp only [EStateM.Result.ok.injEq] at h
    omega
  | some j =>
    rw [fwCfgFileId_some hfound] at h
    simp only [EStateM.Result.ok.injEq] at h
    obtain ⟨hj, rfl⟩ := h
    have hij : i = j := by omega
    exact ⟨congrArg some hij.symm, rfl⟩

/-- A name that is looked up and then used as an index of the address table. -/
theorem addrOfName_ok {name : List Byte} {s s' : Firmware} {p : BitVec 32} :
    (fwCfgFileId name >>= idToAddr) s = .ok p s' ↔
      ∃ i : Fin 20, fileIndex s.files name = some i.val ∧ p = s.fileAddress i ∧ s' = s := by
  rw [StateRun.bind_ok]
  constructor
  · rintro ⟨id, t, hid, haddr⟩
    obtain ⟨i, hi, rfl, rfl⟩ := idToAddr_ok.mp haddr
    obtain ⟨hfound, rfl⟩ := fwCfgFileId_nat hi hid
    exact ⟨i, hfound, rfl, rfl⟩
  · rintro ⟨i, hfound, rfl, rfl⟩
    exact ⟨_, _, fwCfgFileId_some hfound, idToAddr_ok.mpr ⟨i, rfl, rfl, rfl⟩⟩

/-- The address of an RSDP only goes to `start_info`. -/
theorem saveRsdp_ok {zone : Byte} {id : Int} {p : BitVec 32} {s s' : Firmware}
    (h : saveRsdp zone id p s = .ok () s') :
    ∃ rsdp, s' = { s with startInfo := { s.startInfo with rsdpPaddr := rsdp } } := by
  unfold saveRsdp at h
  split at h
  · rw [StateRun.bind_of_ok (peek_apply p 8 s)] at h
    split at h
    · obtain ⟨addr, t, haddr, hset⟩ := StateRun.bind_ok.mp h
      obtain ⟨i, -, -, rfl⟩ := idToAddr_ok.mp haddr
      simp only [StateRun.modify_apply, EStateM.Result.ok.injEq, true_and] at hset
      exact ⟨_, hset.symm⟩
    · simp only [StateRun.pure_apply, EStateM.Result.ok.injEq, true_and] at h
      exact ⟨s.startInfo.rsdpPaddr, h.symm⟩
  · simp only [StateRun.pure_apply, EStateM.Result.ok.injEq, true_and] at h
    exact ⟨s.startInfo.rsdpPaddr, h.symm⟩

/-- The allocation `do_alloc` makes for a file. -/
def Firmware.tableAlloc (s : Firmware) (f : FwCfgFile) (align : BitVec 32) (zone : Byte) :
    Alloc :=
  s.request (zoneOf zone) f.size (tableAlign align)

theorem doAlloc_ok {file : List Byte} {align : BitVec 32} {zone : Byte} {s s' : Firmware}
    (h : doAlloc file align zone s = .ok () s') :
    ∃ i : Fin 20, ∃ hi : i.val < s.files.length, ∃ rsdp,
      fileIndex s.files file = some i.val ∧
      s' = { s.allocate (s.tableAlloc s.files[i.val] align zone) with
        mem := store s.mem (s.tableAlloc s.files[i.val] align zone).base
          (s.dev.fileBytes s.files[i.val] s.files[i.val].size.toNat)
        dev := (s.dev.select s.files[i.val].select).skip s.files[i.val].size.toNat
        fileAddress := Function.update s.fileAddress i
          (s.tableAlloc s.files[i.val] align zone).base
        startInfo := { s.startInfo with rsdpPaddr := rsdp } } := by
  cases hfound : fileIndex s.files file with
  | none =>
    rw [doAlloc, StateRun.bind_of_ok (fwCfgFileId_none hfound),
      StateRun.bind_of_ok (fwCfgFileSize_neg_one s),
      StateRun.bind_of_error (panicIf_of rfl s)] at h
    cases h
  | some j =>
    have hj : j < s.files.length := fileIndex_lt hfound
    have hne : ¬ (j : Int) = -1 := by omega
    rw [doAlloc, StateRun.bind_of_ok (fwCfgFileId_some hfound),
      StateRun.bind_of_ok (fwCfgFileSize_lt hj),
      StateRun.bind_of_ok (panicIf_of_not hne s)] at h
    rw [StateRun.bind_of_ok (mallocIn_apply _ _ _ s)] at h
    obtain ⟨u, t, hset, h⟩ := StateRun.bind_ok.mp h
    obtain ⟨i, hi, rfl⟩ := setFileAddr_ok.mp hset
    obtain rfl : j = i.val := by omega
    rw [StateRun.bind_of_ok (fwCfgReadFile_lt _ _ (by simpa using hj))] at h
    obtain ⟨rsdp, rfl⟩ := saveRsdp_ok h
    exact ⟨i, hj, rsdp, rfl, by simp [Firmware.tableAlloc]⟩

/-- The size byte of a `CMD_PTR` that returned is at most 8, and both files
had an address. -/
theorem doPtr_ok {dest src : List Byte} {offset : BitVec 32} {size : Byte} {s s' : Firmware}
    (h : doPtr dest src offset size s = .ok () s') :
    ∃ i j : Fin 20, fileIndex s.files src = some i.val ∧ fileIndex s.files dest = some j.val ∧
      s.fileAddress i ≠ 0#32 ∧ s.fileAddress j ≠ 0#32 ∧ size.toNat ≤ 8 ∧
      s' = { s with
        mem := store s.mem (s.fileAddress j + offset)
          (toLE size.toNat
            (loadLE s.mem (s.fileAddress j + offset) size.toNat + (s.fileAddress i).toNat)) } := by
  rw [doPtr, ← bind_assoc] at h
  obtain ⟨p, t, hp, h⟩ := StateRun.bind_ok.mp h
  obtain ⟨i, hi, rfl, rfl⟩ := addrOfName_ok.mp hp
  obtain ⟨u, t, hp0, h⟩ := StateRun.bind_ok.mp h
  obtain ⟨hpne, rfl⟩ := panicIf_ok.mp hp0
  rw [← bind_assoc] at h
  obtain ⟨q, t, hq, h⟩ := StateRun.bind_ok.mp h
  obtain ⟨j, hj, rfl, rfl⟩ := addrOfName_ok.mp hq
  obtain ⟨u, t, hq0, h⟩ := StateRun.bind_ok.mp h
  obtain ⟨hqne, rfl⟩ := panicIf_ok.mp hq0
  rw [StateRun.ite_apply] at h
  split at h
  · cases h
  · rename_i hsize
    have hsize8 : size.toNat ≤ 8 := by
      simpa [BitVec.lt_def] using hsize
    refine ⟨i, j, hi, hj, hpne, hqne, hsize8, ?_⟩
    rw [StateRun.bind_of_ok (peek_apply _ _ _), poke_apply] at h
    simp only [EStateM.Result.ok.injEq, true_and] at h
    have hsum : (BitVec.ofNat 64 (ofLE (load t.mem (t.fileAddress j + offset) size.toNat)) +
        (t.fileAddress i).setWidth 64).toNat =
        (loadLE t.mem (t.fileAddress j + offset) size.toNat + (t.fileAddress i).toNat) %
          256 ^ 8 := by
      simp [loadLE]
    rw [← h, hsum, toLE_mod_of_le hsize8]

theorem doChecksum_ok {file : List Byte} {offset start len : BitVec 32} {s s' : Firmware}
    (h : doChecksum file offset start len s = .ok () s') :
    ∃ i : Fin 20, ∃ hi : i.val < s.files.length, fileIndex s.files file = some i.val ∧
      s.fileAddress i ≠ 0#32 ∧
      offset.toNat < s.files[i.val].size.toNat ∧
      start.toNat + len.toNat ≤ s.files[i.val].size.toNat ∧
      s' = { s with
        mem := store s.mem (s.fileAddress i + offset)
          [s.mem (s.fileAddress i + offset) -
            (load s.mem (s.fileAddress i + start) len.toNat).sum] } := by
  rw [doChecksum] at h
  obtain ⟨id, t, hid, h⟩ := StateRun.bind_ok.mp h
  obtain ⟨p, t', hp, h⟩ := StateRun.bind_ok.mp h
  obtain ⟨i, hi, rfl, rfl⟩ := idToAddr_ok.mp hp
  obtain ⟨hfound, rfl⟩ := fwCfgFileId_nat hi hid
  subst hi
  have hlt := fileIndex_lt hfound
  obtain ⟨u, t, hp0, h⟩ := StateRun.bind_ok.mp h
  obtain ⟨hpne, rfl⟩ := panicIf_ok.mp hp0
  rw [StateRun.bind_of_ok (fwCfgFileSize_lt hlt)] at h
  obtain ⟨u, t', hrange, h⟩ := StateRun.bind_ok.mp h
  obtain ⟨hrange, rfl⟩ := panicIf_ok.mp hrange
  rw [StateRun.bind_of_ok (StateRun.get_apply _), poke_apply] at h
  simp only [EStateM.Result.ok.injEq, true_and, csum8_eq_sum] at h
  simp only [ge_iff_le, gt_iff_lt, not_or, BitVec.le_def, BitVec.lt_def, not_le,
    not_lt] at hrange
  obtain ⟨hoff, hstart, hlen⟩ := hrange
  have hsub : (t'.files[i.val].size - start).toNat = t'.files[i.val].size.toNat - start.toNat :=
    BitVec.toNat_sub_of_le hstart
  exact ⟨i, hlt, hfound, hpne, hoff, by omega, h.symm⟩

end Qboot
