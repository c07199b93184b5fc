import Qboot.FwCfg.Reread

/-!
File access by name, from the directory that the device holds to the bytes
that `fw_cfg_read_file` leaves in memory. `fw_cfg_setup` reads the records of
the directory and swaps the byte order of two of their fields in place; a name
is then found by a bounded comparison with the name fields.
-/

namespace Qboot

open Bytes ByteMemory

/-! ### The directory of the device -/

/-- A record of the device's directory, with big-endian numbers and a
NUL-terminated name in a field of 56 bytes. -/
structure DirectoryRecord where
  size : BitVec 32
  select : BitVec 16
  unused : BitVec 16
  name : List Byte
  /-- What follows the NUL in the name field. -/
  pad : List Byte
  noNul : 0 ∉ name
  fits : name.length + 1 + pad.length = 56

namespace DirectoryRecord

variable (d : DirectoryRecord)

def nameField : List Byte := d.name ++ 0 :: d.pad

/-- The bytes that `fw_cfg_setup` does not change. -/
def tail : List Byte := toLE 2 d.unused.toNat ++ d.nameField

def bytes : List Byte := toBE 4 d.size.toNat ++ (toBE 2 d.select.toNat ++ d.tail)

@[simp] theorem length_nameField : d.nameField.length = 56 := by
  rw [nameField, List.length_append, List.length_cons, ← d.fits]
  omega

@[simp] theorem length_tail : d.tail.length = 58 := by
  simp [tail]

@[simp] theorem length_bytes : d.bytes.length = 64 := by
  simp [bytes]

def file : FwCfgFile where
  size := d.size
  select := d.select
  name := ⟨d.nameField.toArray, by simp⟩

end DirectoryRecord

/-- The records one after the other. -/
def rawBytes (ds : List DirectoryRecord) : List Byte := (ds.map DirectoryRecord.bytes).flatten

/-- The device's directory: a big-endian count and the records. -/
def directoryBytes (ds : List DirectoryRecord) : List Byte := toBE 4 ds.length ++ rawBytes ds

@[simp] theorem length_rawBytes (ds : List DirectoryRecord) :
    (rawBytes ds).length = 64 * ds.length := by
  have h : ∀ r ∈ ds.map DirectoryRecord.bytes, r.length = 64 := by
    simp
  rw [rawBytes, length_flatten_records h, List.length_map]

/-! ### Swapping one record -/

/-- A record of any device: two numbers and 58 bytes that `fw_cfg_setup` does not
look at. -/
structure RawRecord where
  size : BitVec 32
  select : BitVec 16
  tail : List Byte
  length_tail : tail.length = 58

namespace RawRecord

variable (r : RawRecord)

def bytes : List Byte := toBE 4 r.size.toNat ++ (toBE 2 r.select.toNat ++ r.tail)

/-- The record after the byte swap. -/
def swapped : List Byte := toLE 4 r.size.toNat ++ (toLE 2 r.select.toNat ++ r.tail)

def file : FwCfgFile where
  size := r.size
  select := r.select
  name := ⟨(r.tail.drop 2).toArray, by simp [r.length_tail]⟩

@[simp] theorem length_bytes : r.bytes.length = 64 := by
  simp [bytes, r.length_tail]

@[simp] theorem length_swapped : r.swapped.length = 64 := by
  simp [swapped, r.length_tail]

end RawRecord

def DirectoryRecord.raw (d : DirectoryRecord) : RawRecord where
  size := d.size
  select := d.select
  tail := d.tail
  length_tail := d.length_tail

theorem DirectoryRecord.raw_file (d : DirectoryRecord) : d.raw.file = d.file := by
  have hname : d.tail.drop 2 = d.nameField := by simp [DirectoryRecord.tail]
  simp [RawRecord.file, DirectoryRecord.file, DirectoryRecord.raw, hname]

section Record

variable {m : Mem} {q : BitVec 32} {bs cs : List Byte}

/-- The fields of a record in memory. -/
theorem load_fields (h : load m q 64 = bs) :
    load m q 4 = slice bs 0 4 ∧ load m (q + 4#32) 2 = slice bs 4 2 ∧
      load m (q + 6#32) 58 = slice bs 6 58 ∧ load m (q + 8#32) 56 = slice bs 8 56 := by
  have hfield {k n : Nat} (hk : k + n ≤ 64) : load m (q + BitVec.ofNat 32 k) n = slice bs k n := by
    rw [← h, slice_load m q hk]
  have hfirst := @hfield 0 4 (by decide)
  rw [BitVec.add_zero] at hfirst
  exact ⟨hfirst, hfield (by decide), hfield (by decide), hfield (by decide)⟩

variable (r : RawRecord)

theorem decodeFile_bytes (h : load m q 64 = r.bytes) :
    (decodeFile m q).size = bswap32 r.size ∧ (decodeFile m q).select = bswap16 r.select := by
  obtain ⟨hsize, hselect, -, -⟩ := load_fields h
  have hsize' : slice r.bytes 0 4 = toBE 4 r.size.toNat := by simp [slice, RawRecord.bytes]
  have hselect' : slice r.bytes 4 2 = toBE 2 r.select.toNat := by
    have h := slice_append_middle (toBE 4 r.size.toNat) (toBE 2 r.select.toNat) r.tail
    simpa [RawRecord.bytes] using h
  constructor
  · change BitVec.ofNat 32 (ofLE (load m q 4)) = _
    rw [hsize, hsize']
    rfl
  · change BitVec.ofNat 16 (ofLE (load m (q + 4#32) 2)) = _
    rw [hselect, hselect']
    rfl

theorem decodeFile_swapped (h : load m q 64 = r.swapped) : decodeFile m q = r.file := by
  obtain ⟨hsize, hselect, -, hname⟩ := load_fields h
  have hsize' : slice r.swapped 0 4 = toLE 4 r.size.toNat := by
    simp [slice, RawRecord.swapped]
  have hselect' : slice r.swapped 4 2 = toLE 2 r.select.toNat := by
    have h := slice_append_middle (toLE 4 r.size.toNat) (toLE 2 r.select.toNat) r.tail
    simpa [RawRecord.swapped] using h
  have hname' : slice r.swapped 8 56 = r.tail.drop 2 := by
    have hsize : (toLE 4 r.size.toNat).drop 8 = [] := List.drop_eq_nil_of_le (by simp)
    have hselect : (toLE 2 r.select.toNat).drop 4 = [] := List.drop_eq_nil_of_le (by simp)
    simp [RawRecord.swapped, slice, List.drop_append, r.length_tail, List.take_of_length_le, hsize,
      hselect]
  have h1 : BitVec.ofNat 32 (loadLE m q 4) = r.size := by
    rw [loadLE, hsize, hsize']
    exact ofNat_ofLE_toLE 4 r.size
  have h2 : BitVec.ofNat 16 (loadLE m (q + 4#32) 2) = r.select := by
    rw [loadLE, hselect, hselect']
    exact ofNat_ofLE_toLE 2 r.select
  simp only [decodeFile, RawRecord.file, h1, h2, hname, hname']

/-- Swapping a record in place writes its swapped bytes. -/
theorem swapFile_record {s : Firmware} (h : load s.mem q 64 = r.bytes) :
    swapFile q s = .ok () { s with mem := store s.mem q r.swapped } := by
  obtain ⟨hsize, hselect⟩ := decodeFile_bytes r h
  have htail : load s.mem (q + 6#32) 58 = r.tail := by
    have htail := slice_append_right (toBE 4 r.size.toNat ++ toBE 2 r.select.toNat) r.tail
    rw [(load_fields h).2.2.1]
    simpa [RawRecord.bytes, r.length_tail] using htail
  have hpair : (toLE 4 r.size.toNat ++ toLE 2 r.select.toNat).length = 6 := by simp
  have hmem : store (store s.mem q (toLE 4 r.size.toNat)) (q + 4#32) (toLE 2 r.select.toNat) =
      store s.mem q r.swapped := by
    have hboth : store (store s.mem q (toLE 4 r.size.toNat))
        (q + BitVec.ofNat 32 (toLE 4 r.size.toNat).length) (toLE 2 r.select.toNat) =
        store s.mem q (toLE 4 r.size.toNat ++ toLE 2 r.select.toNat) :=
      store_append s.mem q (by simp)
    have hrest : store s.mem q (toLE 4 r.size.toNat ++ toLE 2 r.select.toNat) =
        store s.mem q ((toLE 4 r.size.toNat ++ toLE 2 r.select.toNat) ++ r.tail) :=
      store_load_append (by rw [hpair, r.length_tail]; exact htail) (by simp [r.length_tail])
    rw [length_toLE] at hboth
    rw [List.append_assoc] at hrest
    exact hboth.trans hrest
  rw [swapFile, StateRun.bind_of_ok (StateRun.get_apply s), hsize, hselect, bswap32_bswap32,
    bswap16_bswap16, StateRun.bind_of_ok (poke_apply _ _ s), poke_apply]
  exact congrArg (fun m => EStateM.Result.ok () { s with mem := m }) hmem

end Record

/-! ### Swapping all records -/

/-- The records as the device holds them. -/
def rawRecordBytes (rs : List RawRecord) : List Byte := (rs.map RawRecord.bytes).flatten

def swappedBytes (rs : List RawRecord) : List Byte := (rs.map RawRecord.swapped).flatten

@[simp] theorem length_rawRecordBytes (rs : List RawRecord) :
    (rawRecordBytes rs).length = 64 * rs.length := by
  have h : ∀ r ∈ rs.map RawRecord.bytes, r.length = 64 := by
    simp
  rw [rawRecordBytes, length_flatten_records h, List.length_map]

theorem length_of_mem_swapped {rs : List RawRecord} :
    ∀ r ∈ rs.map RawRecord.swapped, r.length = 64 := by
  simp

@[simp] theorem length_swappedBytes (rs : List RawRecord) :
    (swappedBytes rs).length = 64 * rs.length := by
  rw [swappedBytes, length_flatten_records length_of_mem_swapped, List.length_map]

theorem rawBytes_eq (ds : List DirectoryRecord) :
    rawRecordBytes (ds.map DirectoryRecord.raw) = rawBytes ds := by
  rw [rawRecordBytes, List.map_map]
  rfl

/-- The loop of `fw_cfg_setup`: what is done is swapped, the rest is as read. -/
theorem swapFiles (s : Firmware) (p : BitVec 32) (todo : List RawRecord) :
    ∀ done : List RawRecord, 64 * (done.length + todo.length) ≤ 2 ^ 32 →
      forM (List.range' done.length todo.length)
          (fun i => swapFile (p + BitVec.ofNat 32 (fwCfgFileBytes * i)))
          (s.withBlock p (swappedBytes done ++ rawRecordBytes todo)) =
        .ok () (s.withBlock p (swappedBytes (done ++ todo))) := by
  induction todo with
  | nil =>
    intro done hlen
    simp [rawRecordBytes, List.forM_nil]
  | cons r rest ih =>
    intro done hlen
    rw [List.length_cons] at hlen
    have hblock : swappedBytes done ++ rawRecordBytes (r :: rest) =
        swappedBytes done ++ r.bytes ++ rawRecordBytes rest := by
      simp [rawRecordBytes]
    have hlength : (swappedBytes done ++ r.bytes ++ rawRecordBytes rest).length ≤ 2 ^ 32 := by
      simp only [List.length_append, length_swappedBytes, length_rawRecordBytes,
        RawRecord.length_bytes]
      omega
    have hin : 64 * done.length + 64 ≤
        (swappedBytes done ++ r.bytes ++ rawRecordBytes rest).length := by
      simp only [List.length_append, length_swappedBytes, length_rawRecordBytes,
        RawRecord.length_bytes]
      omega
    have hrecord : slice (swappedBytes done ++ r.bytes ++ rawRecordBytes rest)
        (64 * done.length) 64 = r.bytes := by
      have h := slice_append_middle (swappedBytes done) r.bytes (rawRecordBytes rest)
      rwa [length_swappedBytes, r.length_bytes] at h
    have hload := load_withBlock s p hin hlength
    rw [hrecord] at hload
    have hpatch : patch (swappedBytes done ++ r.bytes ++ rawRecordBytes rest) (64 * done.length)
        r.swapped = swappedBytes (done ++ [r]) ++ rawRecordBytes rest := by
      have h := patch_append_right (swappedBytes done) (r.bytes ++ rawRecordBytes rest) r.swapped 0
      rw [length_swappedBytes, Nat.add_zero] at h
      have hfirst : patch (r.bytes ++ rawRecordBytes rest) 0 r.swapped =
          r.swapped ++ rawRecordBytes rest := by
        simp [patch]
      rw [List.append_assoc, h, hfirst]
      simp [swappedBytes]
    have hstep : swapFile (p + BitVec.ofNat 32 (fwCfgFileBytes * done.length))
        (s.withBlock p (swappedBytes done ++ r.bytes ++ rawRecordBytes rest)) =
          .ok () (s.withBlock p (swappedBytes (done ++ [r]) ++ rawRecordBytes rest)) := by
      have hstore := store_store_inside s.mem p (by rwa [r.length_swapped]) hlength
      rw [hpatch] at hstore
      exact (swapFile_record r hload).trans
        (congrArg (fun m => EStateM.Result.ok () { s with mem := m }) hstore)
    have hrest := ih (done ++ [r]) (by rw [List.length_append, List.length_singleton]; omega)
    rw [List.length_append, List.length_singleton, List.append_assoc] at hrest
    rw [List.length_cons, List.range'_succ, List.forM_cons, hblock, StateRun.bind_of_ok hstep]
    exact hrest

/-- After the loop the records are the files of the directory. -/
theorem decodeFiles (s : Firmware) (p : BitVec 32) {rs : List RawRecord}
    (hlen : 64 * rs.length ≤ 2 ^ 32) :
    ({ files := p, filecnt := rs.length } : FileTable).read (s.withBlock p (swappedBytes rs)).mem =
      rs.map RawRecord.file := by
  rw [FileTable.read]
  apply List.ext_getElem
  · simp
  · intro i hi hi'
    have hin : i < rs.length := by simpa using hi
    have hrecord : slice (swappedBytes rs) (64 * i) 64 = rs[i].swapped := by
      have hmap : i < (rs.map RawRecord.swapped).length := by simpa using hin
      have h := slice_flatten (by decide) length_of_mem_swapped hmap
      rwa [List.getElem_map] at h
    have hend : 64 * i + 64 ≤ (swappedBytes rs).length := by
      rw [length_swappedBytes]
      omega
    have hload := load_withBlock s p hend (by rwa [length_swappedBytes])
    rw [hrecord] at hload
    rw [List.getElem_map, List.getElem_map, List.getElem_range]
    exact decodeFile_swapped rs[i] hload

/-! ### The directory of a device -/

/-- The number of records in the directory. -/
def FwCfg.fileCount (d : FwCfg) : BitVec 32 :=
  BitVec.ofNat 32 (ofLE (entryBytes (d.entry FW_CFG_FILE_DIR) 0 4).reverse)

/-- The block that `fw_cfg_setup` allocates. -/
def Firmware.directoryBlock (s : Firmware) : Alloc :=
  s.request .fseg (64#32 * s.dev.fileCount) 16#32

/-- The machine when the directory has been read and not yet swapped. -/
def Firmware.directoryRead (s : Firmware) : Firmware :=
  { s.allocate s.directoryBlock with
    dev := ((s.dev.select FW_CFG_FILE_DIR).skip 4).skip (64#32 * s.dev.fileCount).toNat
    version := s.dev.word FW_CFG_ID }

/-- `fw_cfg_setup` reads the directory into a block and swaps its records. -/
theorem fwCfgSetupTable_loop (s : Firmware) :
    fwCfgSetupTable s =
      (forM (List.range s.dev.fileCount.toInt.toNat)
          (fun i => swapFile (s.directoryBlock.base + BitVec.ofNat 32 (fwCfgFileBytes * i))) >>=
        fun _ => pure { files := s.directoryBlock.base, filecnt := s.dev.fileCount.toInt.toNat })
      (s.directoryRead.withBlock s.directoryBlock.base
        (entryBytes (s.dev.entry FW_CFG_FILE_DIR) 4 (64#32 * s.dev.fileCount).toNat)) := by
  rw [fwCfgSetupTable]
  refine (StateRun.bind_of_ok (fwCfgSelect_apply _ s)).trans ?_
  refine (StateRun.bind_of_ok (fwCfgReadlLe_select _ s)).trans ?_
  refine (StateRun.bind_of_ok (StateRun.modify_apply _ _)).trans ?_
  refine (StateRun.bind_of_ok (fwCfgSelect_apply _ _)).trans ?_
  refine (StateRun.bind_of_ok (fwCfgReadlBe_apply _)).trans ?_
  refine (StateRun.bind_of_ok (mallocFsegAlign_apply _ _ _)).trans ?_
  refine (StateRun.bind_of_ok (fwCfgRead_apply _ _ _)).trans ?_
  rfl

/-- The files that a directory of `rs` has in memory. -/
theorem fwCfgSetupTable_files {s : Firmware} {rs : List RawRecord}
    (hcount : s.dev.fileCount = BitVec.ofNat 32 rs.length) (hlen : 64 * rs.length < 2 ^ 32)
    (hdir : entryBytes (s.dev.entry FW_CFG_FILE_DIR) 4 (64 * rs.length) = rawRecordBytes rs) :
    fwCfgSetupTable s =
      .ok { files := s.directoryBlock.base, filecnt := rs.length }
        (s.directoryRead.withBlock s.directoryBlock.base (swappedBytes rs)) := by
  have hn : (BitVec.ofNat 32 rs.length).toNat = rs.length := by
    rw [BitVec.toNat_ofNat, Nat.mod_eq_of_lt (by omega)]
  have hint : (BitVec.ofNat 32 rs.length).toInt.toNat = rs.length := by
    rw [BitVec.toInt_eq_toNat_of_lt (by omega), hn, Int.toNat_natCast]
  have hbytes : (64#32 * BitVec.ofNat 32 rs.length).toNat = 64 * rs.length := by
    rw [BitVec.toNat_mul, hn, BitVec.toNat_ofNat]
    omega
  have hloop := swapFiles s.directoryRead s.directoryBlock.base rs [] (by simpa using hlen.le)
  rw [List.length_nil, ← List.range_eq_range', List.nil_append] at hloop
  rw [fwCfgSetupTable_loop, hcount, hint, hbytes, hdir]
  exact StateRun.bind_of_ok hloop

/-- The record in 64 bytes. -/
def rawRecord (bs : List Byte) : RawRecord where
  size := BitVec.ofNat 32 (ofLE (slice bs 0 4).reverse)
  select := BitVec.ofNat 16 (ofLE (slice bs 4 2).reverse)
  tail := padTo 58 (slice bs 6 58)
  length_tail := length_padTo 58 _

/-- The records that the device holds. A count with the top bit set gives none. -/
def FwCfg.directory (d : FwCfg) : List RawRecord :=
  (records fwCfgFileBytes (entryBytes (d.entry FW_CFG_FILE_DIR) 4
    (fwCfgFileBytes * d.fileCount.toInt.toNat))).map rawRecord

theorem toBE_ofLE_reverse {n : Nat} {bs : List Byte} (h : bs.length = n) {w : Nat}
    (hw : 2 ^ w = 256 ^ n) : toBE n (BitVec.ofNat w (ofLE bs.reverse)).toNat = bs := by
  have hlt : ofLE bs.reverse < 2 ^ w := by
    rw [hw, ← h, ← List.length_reverse]
    exact ofLE_lt _
  rw [BitVec.toNat_ofNat, Nat.mod_eq_of_lt hlt, toBE, ← h, ← List.length_reverse, toLE_ofLE,
    List.reverse_reverse]

theorem rawRecord_bytes {bs : List Byte} (h : bs.length = 64) : (rawRecord bs).bytes = bs := by
  have hsize : (slice bs 0 4).length = 4 := length_slice (by omega)
  have hselect : (slice bs 4 2).length = 2 := length_slice (by omega)
  have htail : (slice bs 6 58).length = 58 := length_slice (by omega)
  have hpad : padTo 58 (slice bs 6 58) = slice bs 6 58 := by
    rw [padTo, List.take_append_of_le_length htail.ge, List.take_of_length_le htail.le]
  rw [RawRecord.bytes]
  simp only [rawRecord, hpad]
  rw [toBE_ofLE_reverse hsize (by decide), toBE_ofLE_reverse hselect (by decide)]
  have hrest : slice bs 6 58 = (bs.drop 4).drop 2 := by
    rw [slice, List.drop_drop, List.take_of_length_le (by rw [List.length_drop, h])]
  rw [hrest, slice, slice, List.take_append_drop, List.drop_zero, List.take_append_drop]

theorem length_directory (d : FwCfg) : d.directory.length = d.fileCount.toInt.toNat := by
  rw [FwCfg.directory, List.length_map, length_records, length_entryBytes, fwCfgFileBytes]
  omega

theorem directory_bytes (d : FwCfg) : rawRecordBytes d.directory =
    entryBytes (d.entry FW_CFG_FILE_DIR) 4 (fwCfgFileBytes * d.fileCount.toInt.toNat) := by
  rw [rawRecordBytes, FwCfg.directory, List.map_map]
  refine Eq.trans (congrArg List.flatten ?_) (flatten_records (n := fwCfgFileBytes) (by decide) ?_)
  · refine (List.map_congr_left fun r hr => ?_).trans (List.map_id _)
    exact rawRecord_bytes (length_of_mem_records hr)
  · rw [length_entryBytes]
    exact Nat.dvd_mul_right _ _

/-- With a directory whose size does not overflow, `fw_cfg_setup` leaves the
records of the device in its block. -/
theorem fwCfgSetupTable_directory {s : Firmware}
    (hlen : fwCfgFileBytes * s.dev.fileCount.toInt.toNat < 2 ^ 32) :
    ∃ bs, bs.length = (64#32 * s.dev.fileCount).toNat ∧
      fwCfgFileBytes * s.dev.fileCount.toInt.toNat ≤ bs.length ∧
      fwCfgSetupTable s =
        .ok { files := s.directoryBlock.base, filecnt := s.dev.fileCount.toInt.toNat }
          (s.directoryRead.withBlock s.directoryBlock.base bs) ∧
      ({ files := s.directoryBlock.base, filecnt := s.dev.fileCount.toInt.toNat } :
        FileTable).read (s.directoryRead.withBlock s.directoryBlock.base bs).mem =
          s.dev.directory.map RawRecord.file := by
  by_cases hneg : s.dev.fileCount.toInt < 0
  · have hzero : s.dev.fileCount.toInt.toNat = 0 := Int.toNat_of_nonpos hneg.le
    refine ⟨_, length_entryBytes (s.dev.entry FW_CFG_FILE_DIR) 4 _, ?_, ?_, ?_⟩
    · rw [hzero]
      exact Nat.zero_le _
    · rw [fwCfgSetupTable_loop, hzero]
      rfl
    · have hnone : s.dev.directory = [] := List.length_eq_zero_iff.mp
        ((length_directory s.dev).trans hzero)
      rw [hzero, hnone]
      rfl
  · have hnat : s.dev.fileCount.toInt.toNat = s.dev.fileCount.toNat := by
      rw [BitVec.toInt_eq_toNat_cond] at hneg ⊢
      split
      · exact Int.toNat_natCast _
      · rename_i hbig
        rw [if_neg hbig] at hneg
        have := s.dev.fileCount.isLt
        omega
    have hlength : s.dev.directory.length = s.dev.fileCount.toNat :=
      (length_directory s.dev).trans hnat
    have hcount : s.dev.fileCount = BitVec.ofNat 32 s.dev.directory.length := by
      rw [hlength, BitVec.ofNat_toNat, BitVec.setWidth_eq]
    rw [hnat, fwCfgFileBytes] at hlen
    have hrun := fwCfgSetupTable_files hcount (by rwa [hlength])
      (by rw [directory_bytes, hlength, hnat, fwCfgFileBytes])
    have hdecode := @decodeFiles s.directoryRead s.directoryBlock.base s.dev.directory
      (by rw [hlength]; exact hlen.le)
    rw [length_directory] at hrun hdecode
    refine ⟨_, ?_, ?_, hrun, hdecode⟩
    · have hsize : (64#32).toNat = 64 := rfl
      rw [length_swappedBytes, hlength, BitVec.toNat_mul, hsize, Nat.mod_eq_of_lt hlen]
    · rw [length_swappedBytes, length_directory, fwCfgFileBytes]

/-- `fw_cfg_setup` leaves the records of the device's directory in `files`, and
the device's entries as they are. -/
theorem fwCfgSetup_files {s : Firmware} {ds : List DirectoryRecord} {rest : List Byte}
    (hdir : s.dev.entry FW_CFG_FILE_DIR = directoryBytes ds ++ rest)
    (hlen : 64 * ds.length < 2 ^ 31) :
    ∃ s', fwCfgSetup s = .ok () s' ∧ s'.files = ds.map DirectoryRecord.file ∧
      s'.dev.entry = s.dev.entry := by
  have hfirst : entryBytes (s.dev.entry FW_CFG_FILE_DIR) 0 4 = toBE 4 ds.length := by
    have h := entryBytes_middle [] (toBE 4 ds.length) (rawBytes ds ++ rest)
    rw [hdir, directoryBytes, List.append_assoc]
    simpa using h
  have hrecords : entryBytes (s.dev.entry FW_CFG_FILE_DIR) 4 (64 * ds.length) = rawBytes ds := by
    have h := entryBytes_middle (toBE 4 ds.length) (rawBytes ds) rest
    rw [length_toBE, length_rawBytes] at h
    rw [hdir, directoryBytes, List.append_assoc, h]
  have hcount : s.dev.fileCount = BitVec.ofNat 32 ds.length := by
    rw [FwCfg.fileCount, hfirst, toBE, List.reverse_reverse, ofLE_toLE_of_lt (by omega)]
  have hfiles : (ds.map DirectoryRecord.raw).map RawRecord.file = ds.map DirectoryRecord.file := by
    rw [List.map_map]
    exact List.map_congr_left fun d _ => d.raw_file
  have hrun := @fwCfgSetupTable_files s (ds.map DirectoryRecord.raw)
    (by rwa [List.length_map]) (by rw [List.length_map]; omega)
    (by rw [List.length_map, rawBytes_eq, hrecords])
  have hdecode := @decodeFiles s.directoryRead s.directoryBlock.base
    (ds.map DirectoryRecord.raw) (by rw [List.length_map]; omega)
  let t := s.directoryRead.withBlock s.directoryBlock.base
    (swappedBytes (ds.map DirectoryRecord.raw))
  refine ⟨{ t with files := _ }, ?_, hdecode.trans hfiles, rfl⟩
  rw [fwCfgSetup_eq_reread]
  exact StateRun.bind_of_ok hrun

/-! ### Finding a file by name -/

section Compare

variable (k : Nat) (a b : List Byte)

theorem filenamecmpFrom_of_ne {x y : Byte} (h : ¬ x = y) :
    filenamecmpFrom k (x :: a) (y :: b) = x.toInt - y.toInt := by
  rw [filenamecmpFrom.eq_def]
  exact if_neg h

theorem filenamecmpFrom_nul : filenamecmpFrom k (0 :: a) (0 :: b) = 0 := by
  rw [filenamecmpFrom.eq_def]
  rfl

theorem filenamecmpFrom_succ {x : Byte} (h : ¬ x = 0) :
    filenamecmpFrom (k + 1) (x :: a) (x :: b) = filenamecmpFrom k a b := by
  rw [filenamecmpFrom.eq_def]
  exact (if_pos rfl).trans (if_neg h)

end Compare

/-- Two NUL-terminated names compare equal exactly when they are the same. -/
theorem filenamecmpFrom_eq_zero {a b : List Byte} (ha : 0 ∉ a) (hb : 0 ∉ b)
    (after pad : List Byte) {k : Nat} (hk : b.length ≤ k) :
    filenamecmpFrom k (a ++ 0 :: after) (b ++ 0 :: pad) = 0 ↔ a = b := by
  have hdiff {x y : Byte} (hxy : ¬ x = y) : ¬ x.toInt - y.toInt = 0 := fun hzero =>
    hxy (BitVec.eq_of_toInt_eq (sub_eq_zero.mp hzero))
  induction b generalizing a k with
  | nil =>
    cases a with
    | nil => exact iff_of_true (filenamecmpFrom_nul _ _ _) rfl
    | cons x a =>
      obtain ⟨hx, -⟩ := not_or.mp (mt List.mem_cons.mpr ha)
      rw [List.cons_append, List.nil_append, filenamecmpFrom_of_ne _ _ _ fun h => hx h.symm]
      simpa using hdiff fun h => hx h.symm
  | cons y b ih =>
    obtain ⟨hy, hrest⟩ := not_or.mp (mt List.mem_cons.mpr hb)
    cases a with
    | nil =>
      rw [List.cons_append, List.nil_append, filenamecmpFrom_of_ne _ _ _ hy]
      simpa using hdiff hy
    | cons x a =>
      obtain ⟨-, ha⟩ := not_or.mp (mt List.mem_cons.mpr ha)
      rw [List.cons_append, List.cons_append]
      by_cases hxy : x = y
      · subst hxy
        obtain ⟨j, rfl⟩ : ∃ j, k = j + 1 := ⟨k - 1, by rw [List.length_cons] at hk; omega⟩
        have hj : b.length ≤ j := by simpa using hk
        rw [filenamecmpFrom_succ _ _ _ fun h => hy h.symm]
        exact (ih ha hrest hj).trans (by simp)
      · rw [filenamecmpFrom_of_ne _ _ _ hxy]
        simpa [hxy] using hdiff hxy

theorem filenamecmp_file (d : DirectoryRecord) {name : List Byte} (hname : 0 ∉ name)
    (after : List Byte) : filenamecmp (name ++ 0 :: after) d.file = 0 ↔ name = d.name := by
  have hfits := d.fits
  have hlen : d.name.length ≤ 55 := by omega
  exact filenamecmpFrom_eq_zero hname d.noNul after d.pad hlen

/-- A name is found at the position of its record. -/
theorem fileIndex_record {ds : List DirectoryRecord} (hnames : (ds.map DirectoryRecord.name).Nodup)
    {i : Nat} (hi : i < ds.length) (after : List Byte) :
    fileIndex (ds.map DirectoryRecord.file) (ds[i].name ++ 0 :: after) = some i := by
  refine List.findIdx?_eq_some_iff_getElem.mpr ⟨by simpa using hi, ?_, ?_⟩
  · rw [List.getElem_map, decide_eq_true_iff]
    exact (filenamecmp_file ds[i] ds[i].noNul after).mpr rfl
  · intro j hji
    have hj : j < ds.length := by omega
    rw [List.getElem_map, decide_eq_true_iff, filenamecmp_file _ ds[i].noNul]
    intro hsame
    have hmi : i < (ds.map DirectoryRecord.name).length := by simpa using hi
    have hmj : j < (ds.map DirectoryRecord.name).length := by simpa using hj
    have hnamesEq : (ds.map DirectoryRecord.name)[i] = (ds.map DirectoryRecord.name)[j] := by
      simpa using hsame
    have hij := hnames.getElem_inj_iff.mp hnamesEq
    omega

theorem fileIndex_unknown {ds : List DirectoryRecord} {name : List Byte} (hname : 0 ∉ name)
    (hunknown : name ∉ ds.map DirectoryRecord.name) (after : List Byte) :
    fileIndex (ds.map DirectoryRecord.file) (name ++ 0 :: after) = none := by
  refine List.findIdx?_eq_none_iff.mpr fun f hf => ?_
  obtain ⟨d, hd, rfl⟩ := List.mem_map.mp hf
  rw [decide_eq_false_iff_not, filenamecmp_file d hname]
  rintro rfl
  exact hunknown (List.mem_map_of_mem hd)

/-- After `fw_cfg_setup` every file of the directory is found under its name,
with its size, and reading `k` bytes of it leaves its first `k` bytes in the
buffer and changes nothing else; an unknown name is not found. The reads may
come later: only the directory and the device's entries have to be those that
`fw_cfg_setup` left, and either transport may be in use. -/
theorem fwCfgFile_faithful {s : Firmware} {ds : List DirectoryRecord} {rest : List Byte}
    (hdir : s.dev.entry FW_CFG_FILE_DIR = directoryBytes ds ++ rest)
    (hlen : 64 * ds.length < 2 ^ 31) (hnames : (ds.map DirectoryRecord.name).Nodup) :
    ∃ s', fwCfgSetup s = .ok () s' ∧
      ∀ t : Firmware, t.files = s'.files → t.dev.entry = s'.dev.entry →
        (∀ (i : Nat) (hi : i < ds.length),
          (∀ after, fwCfgFileId (ds[i].name ++ 0 :: after) t = .ok i t) ∧
          fwCfgFileSize i t = .ok ds[i].size t ∧
          ∀ buf k : BitVec 32, ∃ t', fwCfgReadFile i buf k t = .ok () t' ∧
            load t'.mem buf k.toNat = entryBytes (s.dev.entry ds[i].select) 0 k.toNat ∧
            (∀ a, ¬ Within buf k.toNat a → t'.mem a = t.mem a) ∧
            t'.dev.entry = t.dev.entry ∧ t' = { t with mem := t'.mem, dev := t'.dev }) ∧
        ∀ name after, 0 ∉ name → name ∉ ds.map DirectoryRecord.name →
          fwCfgFileId (name ++ 0 :: after) t = .ok (-1) t ∧ fwCfgFileSize (-1) t = .ok 0#32 t := by
  obtain ⟨s', hrun, hfiles, hentry⟩ := fwCfgSetup_files hdir hlen
  refine ⟨s', hrun, fun t htfiles htentry => ⟨fun i hi => ?_, fun name after hname hunknown => ?_⟩⟩
  · rw [hfiles] at htfiles
    have hlt : i < t.files.length := by rw [htfiles, List.length_map]; exact hi
    have hget : t.files[i] = ds[i].file := by
      simp only [htfiles, List.getElem_map]
    refine ⟨fun after => ?_, ?_, fun buf k => ?_⟩
    · refine fwCfgFileId_some ?_
      rw [htfiles]
      exact fileIndex_record hnames hi after
    · rw [fwCfgFileSize_lt hlt, hget]
      rfl
    · have hbytes : t.dev.fileBytes t.files[i] k.toNat =
          entryBytes (s.dev.entry ds[i].select) 0 k.toNat := by
        rw [hget, FwCfg.fileBytes, htentry, hentry]
        rfl
      refine ⟨_, fwCfgReadFile_lt buf k hlt, ?_, ?_, rfl, rfl⟩
      · have hk : (t.dev.fileBytes t.files[i] k.toNat).length ≤ 2 ^ 32 := by
          rw [FwCfg.length_fileBytes]
          exact k.isLt.le
        have h := load_store t.mem buf hk
        rw [FwCfg.length_fileBytes] at h
        rw [← hbytes]
        exact h
      · intro a ha
        exact store_of_not_within _ (by rwa [FwCfg.length_fileBytes])
  · rw [hfiles] at htfiles
    refine ⟨fwCfgFileId_none ?_, fwCfgFileSize_neg_one t⟩
    rw [htfiles]
    exact fileIndex_unknown hname hunknown after

/-- A directory of two files, `A` and `AB`. -/
def twoRecords : List DirectoryRecord :=
  [{ size := 3#32, select := 0x20#16, unused := 0#16, name := [65#8]
     pad := List.replicate 54 0, noNul := by decide, fits := by decide },
   { size := 5#32, select := 0x21#16, unused := 0#16, name := [65#8, 66#8]
     pad := List.replicate 53 1, noNul := by decide, fits := by decide }]

def twoFiles : Firmware :=
  Firmware.initial
    { entry := fun key => if key = FW_CFG_FILE_DIR then directoryBytes twoRecords else [1#8, 2#8]
      key := 0#16, pos := 0 }
    (fun _ => 0#8) 0xf0000#32 0xf4000#32

theorem fwCfgFile_faithful_two :
    ∃ s', fwCfgSetup twoFiles = .ok () s' ∧
      fwCfgFileId [65#8, 66#8, 0#8] s' = .ok 1 s' ∧ fwCfgFileSize 1 s' = .ok 5#32 s' ∧
      fwCfgFileId [66#8, 0#8] s' = .ok (-1) s' := by
  have hdir : twoFiles.dev.entry FW_CFG_FILE_DIR = directoryBytes twoRecords ++ [] :=
    (List.append_nil _).symm
  obtain ⟨s', hrun, hall⟩ := fwCfgFile_faithful hdir (by decide) (by decide)
  obtain ⟨hknown, hunknown⟩ := hall s' rfl rfl
  obtain ⟨hid, hsize, -⟩ := hknown 1 (by decide)
  exact ⟨s', hrun, hid [], hsize, (hunknown [66#8] [] (by decide) (by decide)).1⟩

end Qboot
