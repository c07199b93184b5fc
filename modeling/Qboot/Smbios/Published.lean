import Qboot.Smbios.EntryPoint
import Qboot.Smbios.Walk

/-!
What an operating system finds after `extract_smbios`: an entry point whose
sums are zero and whose fields describe the structures of QEMU's tables, with
a BIOS information structure in front if QEMU gave none.
-/

namespace Qboot

open Bytes ByteMemory

/-- The structure `smbios_new_type_0` writes. -/
def biosStructure : SmbiosStructure where
  type := 0#8
  handle := 0#16
  formatted := [1#8, 2#8, 0x00#8, 0xe8#8, 3#8, 0#8, 0x08#8, 0#8, 0#8, 0#8, 0#8, 0#8, 0#8, 0#8,
    0#8, 4#8, 0#8, 0#8, 0xff#8, 0xff#8]
  strings := [BIOS_NAME, VERSION, BIOS_DATE]
  formatted_lt := by decide
  strings_ok := by decide

def HasType0 (table : List SmbiosStructure) : Prop := ∃ x ∈ table, x.type = 0#8

instance (table : List SmbiosStructure) : Decidable (HasType0 table) := by
  unfold HasType0
  infer_instance

/-- QEMU's structures, preceded by the firmware's if none has type 0. -/
def publishedTable (table : List SmbiosStructure) : List SmbiosStructure :=
  if HasType0 table then table else biosStructure :: table

/-- The directory of `s` has an anchor file and a tables file that describe
`table`. -/
structure SmbiosFiles (s : Firmware) (anchor : SmbiosEntryPoint)
    (table : List SmbiosStructure) : Prop where
  anchorFile : ∃ i, fileIndex s.files smbiosAnchorName = some i ∧ s.fileContent i = anchor.encode
  tablesFile : ∃ j, fileIndex s.files smbiosTablesName = some j ∧
    s.fileContent j = encodeTable table
  length : anchor.length = 0x1f#8
  tableLength : anchor.structureTableLength.toNat = (encodeTable table).length
  count : anchor.numberOfStructures.toNat = table.length
  maxSize : anchor.maxStructureSize.toNat = maxStructureSize table

/-- A reader of the entry point at `ep` finds exactly the structures `table`. -/
structure PublishesSmbios (m : Mem) (ep : BitVec 32) (table : List SmbiosStructure) : Prop where
  tableLength : (SmbiosEntryPoint.decode (load m ep 31)).structureTableLength.toNat =
    (encodeTable table).length
  bytes : load m (SmbiosEntryPoint.decode (load m ep 31)).structureTableAddress
    (SmbiosEntryPoint.decode (load m ep 31)).structureTableLength.toNat = encodeTable table
  count : (SmbiosEntryPoint.decode (load m ep 31)).numberOfStructures.toNat = table.length
  maxSize : (SmbiosEntryPoint.decode (load m ep 31)).maxStructureSize.toNat =
    maxStructureSize table
  headSum : (load m ep 0x10).sum = 0
  tailSum : (load m (ep + 0x10#32) 0xf).sum = 0
  wholeSum : (load m ep 0x1f).sum = 0

/-! ### The entry point as the firmware changes it -/

namespace SmbiosEntryPoint

/-- Both checksums fixed. -/
def fixed (e : SmbiosEntryPoint) : SmbiosEntryPoint :=
  { e with
    checksum := e.checksum - e.encodeHead.sum
    intermediateChecksum := e.intermediateChecksum - e.encodeTail.sum }

/-- A BIOS information structure counted, in front of the table. -/
def withType0 (e : SmbiosEntryPoint) : SmbiosEntryPoint :=
  { e with
    numberOfStructures := e.numberOfStructures + 1#16
    structureTableAddress := e.structureTableAddress - BitVec.ofNat 32 t0Len
    structureTableLength := e.structureTableLength + BitVec.ofNat 16 t0Len
    maxStructureSize := if BitVec.ofNat 16 t0Len > e.maxStructureSize then BitVec.ofNat 16 t0Len
      else e.maxStructureSize }

theorem sum_fixed (e : SmbiosEntryPoint) :
    e.fixed.encodeHead.sum = 0 ∧ e.fixed.encodeTail.sum = 0 := by
  have hhead : e.fixed.encodeHead = lowerByte e.encodeHead 4 e.encodeHead.sum := rfl
  have htail : e.fixed.encodeTail = lowerByte e.encodeTail 5 e.encodeTail.sum := rfl
  constructor
  · rw [hhead, sum_lowerByte (by rw [length_encodeHead]; decide)]
    exact sub_self _
  · rw [htail, sum_lowerByte (by rw [length_encodeTail]; decide)]
    exact sub_self _

end SmbiosEntryPoint

/-! ### The memory of the entry point and the tables -/

/-- The machine with the bytes `bs` at `base` and an entry point at `ep`. -/
def Firmware.withSmbios (s : Firmware) (base ep : BitVec 32) (bs : List Byte)
    (e : SmbiosEntryPoint) : Firmware :=
  (s.withBlock base bs).withBlock ep e.encode

section Access

variable (s : Firmware) (base ep : BitVec 32) (bs : List Byte) (e : SmbiosEntryPoint)

theorem load_withSmbios {k n : Nat} (hk : k + n ≤ 31) :
    load (s.withSmbios base ep bs e).mem (ep + BitVec.ofNat 32 k) n = slice e.encode k n :=
  load_withBlock (s.withBlock base bs) ep hk (by rw [SmbiosEntryPoint.length_encode]; decide)

theorem poke_withSmbios {k : Nat} {cs : List Byte} {e' : SmbiosEntryPoint}
    (he : patch e.encode k cs = e'.encode) (hk : k + cs.length ≤ 31) :
    poke (ep + BitVec.ofNat 32 k) cs (s.withSmbios base ep bs e) =
      .ok () (s.withSmbios base ep bs e') := by
  have hpoke := poke_withBlock (s.withBlock base bs) ep
    (by rw [SmbiosEntryPoint.length_encode]; exact hk : k + cs.length ≤ e.encode.length)
    (by rw [SmbiosEntryPoint.length_encode]; decide)
  rwa [he] at hpoke

theorem updateHalf_withSmbios {k : Nat} {f : BitVec 16 → BitVec 16} {v : BitVec 16}
    {e' : SmbiosEntryPoint} (hv : BitVec.ofNat 16 (ofLE (slice e.encode k 2)) = v)
    (he : patch e.encode k (toLE 2 (f v).toNat) = e'.encode) (hk : k + 2 ≤ 31) :
    updateHalf (ep + BitVec.ofNat 32 k) f (s.withSmbios base ep bs e) =
      .ok () (s.withSmbios base ep bs e') := by
  rw [updateHalf, StateRun.bind_of_ok (peek_apply _ _ _), load_withSmbios s base ep bs e hk, hv]
  exact poke_withSmbios s base ep bs e he (by rwa [length_toLE])

/-- Changes of the tables do not touch the entry point. -/
theorem storeFields_withSmbios {fields : List (Nat × List Byte)}
    (hin : ∀ f ∈ fields, f.1 + f.2.length ≤ bs.length) (hlen : bs.length ≤ 2 ^ 32)
    (happ : Apart base bs.length ep 31) :
    storeFields (s.withSmbios base ep bs e).mem base fields =
      (s.withSmbios base ep (patchFields bs fields) e).mem :=
  storeFields_store_store s.mem hin hlen (by rwa [SmbiosEntryPoint.length_encode])

theorem csum8_head :
    csum8 (s.withSmbios base ep bs e).mem ep 0x10#32 = e.encodeHead.sum := by
  have hload := load_withSmbios s base ep bs e (by decide : 0 + 16 ≤ 31)
  have hzero : ep + BitVec.ofNat 32 0 = ep := BitVec.add_zero ep
  rw [hzero] at hload
  rw [csum8_eq_sum]
  exact congrArg List.sum hload

theorem csum8_tail :
    csum8 (s.withSmbios base ep bs e).mem (ep + 0x10#32) 0xf#32 = e.encodeTail.sum := by
  rw [csum8_eq_sum]
  exact congrArg List.sum (load_withSmbios s base ep bs e (by decide : 16 + 15 ≤ 31))

theorem mem_withSmbios {k : Nat} (hk : k < 31) :
    (s.withSmbios base ep bs e).mem (ep + BitVec.ofNat 32 k) = e.encode.getD k 0 := by
  have hload : load (s.withSmbios base ep bs e).mem ep e.encode.length = e.encode :=
    load_store _ _ (by rw [SmbiosEntryPoint.length_encode]; decide)
  exact mem_of_load hload (by rwa [SmbiosEntryPoint.length_encode])

/-- Both checksums come out fixed if the length byte is 31. -/
theorem fixChecksums_withSmbios (hlength : e.length = 0x1f#8) :
    fixChecksums ep (s.withSmbios base ep bs e) = .ok () (s.withSmbios base ep bs e.fixed) := by
  let e' : SmbiosEntryPoint := { e with checksum := e.checksum - e.encodeHead.sum }
  have hsum : (s.withSmbios base ep bs e).mem (epChecksum ep) = e.checksum :=
    mem_withSmbios s base ep bs e (by decide : 4 < 31)
  have hfirst : poke (epChecksum ep) [e.checksum - e.encodeHead.sum]
      (s.withSmbios base ep bs e) = .ok () (s.withSmbios base ep bs e') :=
    poke_withSmbios s base ep bs e rfl (by rw [List.length_singleton]; decide)
  have hsum' : (s.withSmbios base ep bs e').mem (epIntermediateChecksum ep) =
      e.intermediateChecksum := mem_withSmbios s base ep bs e' (by decide : 21 < 31)
  have hlen : (s.withSmbios base ep bs e').mem (epLength ep) = 0x1f#8 :=
    (mem_withSmbios s base ep bs e' (by decide : 5 < 31)).trans hlength
  have hsecond : poke (epIntermediateChecksum ep) [e.intermediateChecksum - e.encodeTail.sum]
      (s.withSmbios base ep bs e') = .ok () (s.withSmbios base ep bs e.fixed) :=
    poke_withSmbios s base ep bs e' rfl (by rw [List.length_singleton]; decide)
  have htail : csum8 (s.withSmbios base ep bs e').mem (ep + 0x10#32) 0xf#32 =
      e.encodeTail.sum := csum8_tail s base ep bs e'
  have hfifteen : (0x1f#8).setWidth 32 - 0x10#32 = 0xf#32 := by decide
  rw [fixChecksums, StateRun.bind_of_ok (StateRun.get_apply _), csum8_head, hsum,
    StateRun.bind_of_ok hfirst, StateRun.bind_of_ok (StateRun.get_apply _), hsum', hlen, hfifteen,
    htail]
  exact hsecond

end Access

/-! ### The BIOS information structure -/

/-- The fields `smbios_new_type_0` writes, in its order. -/
def biosFields : List (Nat × List Byte) :=
  [(0, [0#8]), (1, [24#8]), (2, toLE 2 0), (24, BIOS_NAME ++ [0#8]), (4, [1#8]),
    (30, VERSION ++ [0#8]), (5, [2#8]), (6, toLE 2 0xe800), (34, BIOS_DATE ++ [0#8]), (8, [3#8]),
    (9, [0#8]), (10, List.replicate 8 0), (10, [0x08#8]), (18, [0#8]), (19, [4#8]), (20, [0#8]),
    (21, [0#8]), (22, [0xff#8]), (23, [0xff#8]), (45, [0#8])]

theorem smbiosNewType0_apply (start : BitVec 32) (s : Firmware) :
    smbiosNewType0 start (some BIOS_NAME) (some VERSION) (some BIOS_DATE) s =
      .ok () { s with mem := storeFields s.mem start biosFields } := by
  have hadd (i j : Nat) : start + BitVec.ofNat 32 i + BitVec.ofNat 32 j =
      start + BitVec.ofNat 32 (i + j) := by
    rw [BitVec.add_assoc, ← BitVec.ofNat_add]
  simp only [smbiosNewType0, setStrFieldOrSkip, BIOS_NAME, VERSION, BIOS_DATE, smbiosType0Bytes,
    StateRun.bind_apply, poke_apply, StateRun.pure_apply, hadd, storeFields, biosFields,
    List.foldl_cons, List.foldl_nil, BitVec.add_zero]
  rfl

theorem biosFields_inside : ∀ f ∈ biosFields, f.1 + f.2.length ≤ 46 := by decide

theorem length_biosStructure : biosStructure.encode.length = 46 := by decide +kernel

/-- The fields cover the space below the tables, whatever it held before. -/
theorem patchFields_biosFields {bs : List Byte} (h : bs.length = 46) :
    patchFields bs biosFields = biosStructure.encode := by
  have hcover : ∀ i < 46, ∃ f ∈ biosFields, f.1 ≤ i ∧ i < f.1 + f.2.length := by decide +kernel
  have hzero : patchFields (List.replicate 46 0) biosFields = biosStructure.encode := by
    decide +kernel
  rw [← hzero]
  refine patchFields_of_cover (by simpa using h) (h.symm ▸ biosFields_inside) fun i hb _ => ?_
  exact Or.inl (hcover i (h ▸ hb))

/-- In front of the tables the fields make the structure, and leave the tables
as they are. -/
theorem patchFields_append_biosFields {bs : List Byte} (h : bs.length = 46) (cs : List Byte) :
    patchFields (bs ++ cs) biosFields = biosStructure.encode ++ cs := by
  have hin : ∀ f ∈ biosFields, f.1 + f.2.length ≤ bs.length := h.symm ▸ biosFields_inside
  rw [patchFields_append_left hin, patchFields_biosFields h]

/-- `addType0` puts the structure in front of the tables. -/
theorem addType0_withSmbios (s : Firmware) {base ep : BitVec 32} {bs cs : List Byte}
    (e : SmbiosEntryPoint) (hbs : bs.length = 46) (hlen : 46 + cs.length ≤ 2 ^ 32)
    (happ : Apart base (46 + cs.length) ep 31) :
    addType0 ep (base + BitVec.ofNat 32 t0Len) (s.withSmbios base ep (bs ++ cs) e) =
      .ok () (s.withSmbios base ep (biosStructure.encode ++ cs) e.withType0) := by
  have hall : (bs ++ cs).length = 46 + cs.length := by rw [List.length_append, hbs]
  have hbase : base + BitVec.ofNat 32 t0Len - BitVec.ofNat 32 t0Len = base := by ring
  have hin : ∀ f ∈ biosFields, f.1 + f.2.length ≤ (bs ++ cs).length := fun f hf =>
    (biosFields_inside f hf).trans (by omega)
  have hfields : smbiosNewType0 base (some BIOS_NAME) (some VERSION) (some BIOS_DATE)
      (s.withSmbios base ep (bs ++ cs) e) =
      .ok () (s.withSmbios base ep (biosStructure.encode ++ cs) e) := by
    have hmem := storeFields_withSmbios s base ep (bs ++ cs) e hin (by omega) (by rwa [hall])
    rw [patchFields_append_biosFields hbs] at hmem
    rw [smbiosNewType0_apply, hmem]
    rfl
  let e1 : SmbiosEntryPoint := { e with numberOfStructures := e.numberOfStructures + 1#16 }
  let e2 : SmbiosEntryPoint :=
    { e1 with structureTableAddress := e.structureTableAddress - BitVec.ofNat 32 t0Len }
  let e3 : SmbiosEntryPoint :=
    { e2 with structureTableLength := e.structureTableLength + BitVec.ofNat 16 t0Len }
  have hcount : updateHalf (epNumberOfStructures ep) (fun n => n + 1#16)
      (s.withSmbios base ep (biosStructure.encode ++ cs) e) =
      .ok () (s.withSmbios base ep (biosStructure.encode ++ cs) e1) :=
    updateHalf_withSmbios s base ep _ e
      (congrArg SmbiosEntryPoint.numberOfStructures e.decode_encode) rfl (by decide)
  have haddress : BitVec.ofNat 32 (ofLE (slice e1.encode 24 4)) = e.structureTableAddress :=
    congrArg SmbiosEntryPoint.structureTableAddress e1.decode_encode
  have hpeek : peek (epStructureTableAddress ep) 4
      (s.withSmbios base ep (biosStructure.encode ++ cs) e1) =
      .ok (slice e1.encode 24 4) (s.withSmbios base ep (biosStructure.encode ++ cs) e1) := by
    rw [peek_apply]
    exact congrArg (EStateM.Result.ok · _) (load_withSmbios s base ep _ e1 (by decide))
  have hpoke : poke (epStructureTableAddress ep)
      (toLE 4 (e.structureTableAddress - BitVec.ofNat 32 t0Len).toNat)
      (s.withSmbios base ep (biosStructure.encode ++ cs) e1) =
      .ok () (s.withSmbios base ep (biosStructure.encode ++ cs) e2) :=
    poke_withSmbios s base ep _ e1 rfl (by rw [length_toLE]; decide)
  have hlength : updateHalf (epStructureTableLength ep) (fun n => n + BitVec.ofNat 16 t0Len)
      (s.withSmbios base ep (biosStructure.encode ++ cs) e2) =
      .ok () (s.withSmbios base ep (biosStructure.encode ++ cs) e3) :=
    updateHalf_withSmbios s base ep _ e2
      (congrArg SmbiosEntryPoint.structureTableLength e2.decode_encode) rfl (by decide)
  have hmax : updateHalf (epMaxStructureSize ep) (fun n =>
      if BitVec.ofNat 16 t0Len > n then BitVec.ofNat 16 t0Len else n)
      (s.withSmbios base ep (biosStructure.encode ++ cs) e3) =
      .ok () (s.withSmbios base ep (biosStructure.encode ++ cs) e.withType0) :=
    updateHalf_withSmbios s base ep _ e3
      (congrArg SmbiosEntryPoint.maxStructureSize e3.decode_encode) rfl (by decide)
  rw [addType0, hbase, StateRun.bind_of_ok hfields, StateRun.bind_of_ok hcount,
    StateRun.bind_of_ok hpeek, haddress, StateRun.bind_of_ok hpoke, StateRun.bind_of_ok hlength,
    hmax]

/-! ### The whole of `extract_smbios` -/

/-- The entry point once the tables are in memory at `q`. -/
def SmbiosEntryPoint.located (e : SmbiosEntryPoint) (q : BitVec 32) : SmbiosEntryPoint :=
  { e with structureTableAddress := q }

/-- What `extract_smbios` leaves for `table`: the bytes below and in the
tables, and the entry point. -/
def smbiosBytes (below : List Byte) (table : List SmbiosStructure) : List Byte :=
  (if HasType0 table then below else biosStructure.encode) ++ encodeTable table

def smbiosEntry (anchor : SmbiosEntryPoint) (q : BitVec 32) (table : List SmbiosStructure) :
    SmbiosEntryPoint :=
  if HasType0 table then (anchor.located q).fixed else (anchor.located q).withType0.fixed

theorem length_le_encodeTable (table : List SmbiosStructure) :
    table.length ≤ (encodeTable table).length := by
  induction table with
  | nil => exact Nat.zero_le _
  | cons x table ih =>
    have hx := x.length_encode
    have htwo := x.two_le_stringSet
    rw [encodeTable_cons, List.length_append, List.length_cons]
    omega

section Publish

variable {s : Firmware} {base ep : BitVec 32} {below : List Byte} {e : SmbiosEntryPoint}
  {table : List SmbiosStructure}

/-- The loop of `extract_smbios` walks the tables that were read. -/
theorem tableAt_withSmbios (hbelow : below.length = 46) (hep : ep ≠ 0#32)
    (htop : base.toNat + (46 + (encodeTable table).length) < 2 ^ 32)
    (happ : Apart base (46 + (encodeTable table).length) ep 31)
    (hlength : e.structureTableLength.toNat = (encodeTable table).length)
    (haddress : e.structureTableAddress = base + BitVec.ofNat 32 t0Len) :
    TableAt (s.withSmbios base ep (below ++ encodeTable table) e).mem ep
      (base + BitVec.ofNat 32 t0Len) table := by
  have hq : (base + BitVec.ofNat 32 t0Len).toNat = base.toNat + 46 :=
    toNat_add_ofNat (k := 46) (by omega)
  have hall : (below ++ encodeTable table).length = 46 + (encodeTable table).length := by
    rw [List.length_append, hbelow]
  refine ⟨hep, ?_, ?_, by omega, by omega, ?_⟩
  · have hload := load_withSmbios s base ep (below ++ encodeTable table) e
      (by decide : 24 + 4 ≤ 31)
    have hfield : slice e.encode 24 4 = toLE 4 e.structureTableAddress.toNat := rfl
    rw [loadLE, epStructureTableAddress, hload, hfield, ← haddress]
    exact ofLE_toLE_of_lt e.structureTableAddress.isLt
  · have hload := load_withSmbios s base ep (below ++ encodeTable table) e
      (by decide : 22 + 2 ≤ 31)
    have hfield : slice e.encode 22 2 = toLE 2 e.structureTableLength.toNat := rfl
    rw [loadLE, epStructureTableLength, hload, hfield, ← hlength]
    exact ofLE_toLE_of_lt e.structureTableLength.isLt
  · have happ' : Apart (base + BitVec.ofNat 32 46) (encodeTable table).length ep 31 :=
      happ.part le_rfl (by omega)
    have hright := load_store_right s.mem base
      (by omega : below.length + (encodeTable table).length ≤ 2 ^ 32)
    have hkept : load (s.withSmbios base ep (below ++ encodeTable table) e).mem
        (base + BitVec.ofNat 32 46) (encodeTable table).length =
        load (store s.mem base (below ++ encodeTable table)) (base + BitVec.ofNat 32 46)
          (encodeTable table).length := load_store_outside _ (by omega) happ'
    rw [hbelow] at hright
    exact hkept.trans hright

theorem publishSmbios_withSmbios (hbelow : below.length = 46) (hep : ep ≠ 0#32)
    (htop : base.toNat + (46 + (encodeTable table).length) < 2 ^ 32)
    (happ : Apart base (46 + (encodeTable table).length) ep 31)
    (hlength : e.length = 0x1f#8)
    (htable : e.structureTableLength.toNat = (encodeTable table).length) :
    publishSmbios ep (base + BitVec.ofNat 32 t0Len) e.structureTableLength
        (s.withSmbios base ep (below ++ encodeTable table) e) =
      .ok () (s.withSmbios base ep (smbiosBytes below table)
        (smbiosEntry e (base + BitVec.ofNat 32 t0Len) table)) := by
  let e' := e.located (base + BitVec.ofNat 32 t0Len)
  have haddress : poke (epStructureTableAddress ep)
      (toLE 4 (base + BitVec.ofNat 32 t0Len).toNat)
      (s.withSmbios base ep (below ++ encodeTable table) e) =
      .ok () (s.withSmbios base ep (below ++ encodeTable table) e') :=
    poke_withSmbios s base ep _ e rfl (by rw [length_toLE]; decide)
  have hkeep : poke (epStructureTableLength ep) (toLE 2 e.structureTableLength.toNat)
      (s.withSmbios base ep (below ++ encodeTable table) e') =
      .ok () (s.withSmbios base ep (below ++ encodeTable table) e') :=
    poke_withSmbios s base ep _ e' rfl (by rw [length_toLE]; decide)
  have hat : TableAt (s.withSmbios base ep (below ++ encodeTable table) e').mem ep
      (base + BitVec.ofNat 32 t0Len) table :=
    tableAt_withSmbios hbelow hep htop happ htable rfl
  have hcount := length_le_encodeTable table
  have hshort := e.structureTableLength.isLt
  have hneed := hat.needT0_null (n := 65536) (by omega)
  rw [publishSmbios, StateRun.bind_of_ok haddress, StateRun.bind_of_ok hkeep,
    StateRun.bind_of_ok (StateRun.get_apply _), hneed]
  by_cases htype : HasType0 table
  · have hfound : (table.all fun y => y.type ≠ 0#8) = false := by
      obtain ⟨x, hx, hzero⟩ := htype
      exact List.all_eq_false.mpr ⟨x, hx, by simp [hzero]⟩
    rw [hfound, smbiosBytes, smbiosEntry, if_pos htype, if_pos htype, if_neg (by decide)]
    exact fixChecksums_withSmbios s base ep _ e' hlength
  · have hnone : (table.all fun y => y.type ≠ 0#8) = true := by
      refine List.all_eq_true.mpr fun x hx => ?_
      exact decide_eq_true fun hzero => htype ⟨x, hx, hzero⟩
    rw [hnone, smbiosBytes, smbiosEntry, if_neg htype, if_neg htype, if_pos rfl,
      StateRun.bind_of_ok (addType0_withSmbios s e' hbelow (by omega) happ)]
    exact fixChecksums_withSmbios s base ep _ e'.withType0 hlength

end Publish

/-- Where `extract_smbios` puts the entry point, and the space for a BIOS
information structure and the tables. -/
def Firmware.smbiosEp (s : Firmware) : BitVec 32 := fsegAlignedBase s.fsegBase 16#32

def Firmware.smbiosBase (s : Firmware) : BitVec 32 :=
  fsegAlignedBase (s.smbiosEp + BitVec.ofNat 32 smbiosEntryPointBytes) 16#32

/-- Both blocks lie behind the old F-segment pointer, one behind the other. -/
theorem smbiosBlocks {s : Firmware} (hroom : s.fsegBase.toNat + 0x20000 ≤ 2 ^ 32) :
    s.fsegBase.toNat ≤ s.smbiosEp.toNat ∧ s.smbiosEp.toNat + 31 ≤ s.smbiosBase.toNat ∧
      s.smbiosBase.toNat ≤ s.fsegBase.toNat + 61 := by
  have hsixteen : (16#32).toNat = 16 := rfl
  obtain ⟨hep, hep'⟩ := Rounding.le_add_and_neg (x := s.fsegBase) (a := 16#32) (by decide)
    (by omega)
  have hnext : (s.smbiosEp + BitVec.ofNat 32 smbiosEntryPointBytes).toNat =
      s.smbiosEp.toNat + 31 := toNat_add_ofNat (by
    change ((s.fsegBase + 16#32 - 1#32) &&& -16#32).toNat + 31 < _
    omega)
  obtain ⟨hbase, hbase'⟩ := Rounding.le_add_and_neg
    (x := s.smbiosEp + BitVec.ofNat 32 smbiosEntryPointBytes) (a := 16#32) (by decide) (by
      rw [hnext]
      change ((s.fsegBase + 16#32 - 1#32) &&& -16#32).toNat + 31 + 16 - 1 < _
      omega)
  rw [hnext] at hbase hbase'
  change s.smbiosEp.toNat ≤ _ at hep'
  exact ⟨hep, hbase, by
    change s.smbiosBase.toNat ≤ _ at hbase'
    omega⟩

section Files

variable {s : Firmware} {anchor : SmbiosEntryPoint} {table : List SmbiosStructure}

theorem size_of_content {i : Nat} {bs : List Byte} (hi : i < s.files.length)
    (h : s.fileContent i = bs) : s.files[i].size.toNat = bs.length := by
  rw [← h, length_fileContent hi, fileSize_eq hi]

/-- Once the anchor is in memory, the tables are read behind it and published. -/
theorem readSmbiosTables_apply {m : Mem} {ep base : BitVec 32} {j : Nat}
    (hmem : s.mem = store m ep anchor.encode) (hj : fileIndex s.files smbiosTablesName = some j)
    (htables : s.fileContent j = encodeTable table)
    (hlength : anchor.structureTableLength.toNat = (encodeTable table).length)
    (hbase : base = fsegAlignedBase s.fsegBase 16#32) (hpos : base ≠ 0#32)
    (happ : Apart base (46 + (encodeTable table).length) ep 31) :
    ∃ t : Firmware, t.mem = m ∧ readSmbiosTables ep s =
      publishSmbios ep (base + BitVec.ofNat 32 t0Len) anchor.structureTableLength
        (t.withSmbios base ep (load m base 46 ++ encodeTable table) anchor) := by
  have hlt := fileIndex_lt hj
  have hne : ¬ (j : Int) = -1 := by omega
  have hshort := anchor.structureTableLength.isLt
  have hsize : anchor.structureTableLength.setWidth 32 = s.files[j].size := by
    apply BitVec.eq_of_toNat_eq
    rw [size_of_content hlt htables, ← hlength, BitVec.toNat_setWidth]
    omega
  have hread : (anchor.structureTableLength.setWidth 32).toNat = s.files[j].size.toNat := by
    rw [hsize]
  have hword : BitVec.ofNat 16 (ofLE (load s.mem (epStructureTableLength ep) 2)) =
      anchor.structureTableLength := by
    have hload : load (store m ep anchor.encode) (ep + BitVec.ofNat 32 22) 2 =
        slice anchor.encode 22 2 := load_store_inside m ep
      (by rw [SmbiosEntryPoint.length_encode]; decide)
      (by rw [SmbiosEntryPoint.length_encode]; decide)
    rw [hmem, epStructureTableLength, hload]
    exact congrArg SmbiosEntryPoint.structureTableLength anchor.decode_encode
  let a := s.request .fseg
    (anchor.structureTableLength.setWidth 32 + BitVec.ofNat 32 t0Len) 16#32
  have ha : a.base = base := hbase.symm
  let dev := (s.dev.select s.files[j].select).skip
    (anchor.structureTableLength.setWidth 32).toNat
  -- the tables do not meet the entry point, so the two blocks can be swapped
  have hswap : store s.mem (base + BitVec.ofNat 32 t0Len) (encodeTable table) =
      store (store m base (load m base 46 ++ encodeTable table)) ep anchor.encode := by
    have hlen : (load m base 46).length + (encodeTable table).length ≤ 2 ^ 32 := by
      rw [length_load]
      omega
    have hbelow := store_append_load (by rw [length_load]) hlen
    rw [length_load] at hbelow
    have happ' : Apart (base + BitVec.ofNat 32 46) (encodeTable table).length ep 31 :=
      happ.part le_rfl (by omega)
    rw [hmem, ← hbelow]
    refine store_comm m ?_
    rw [SmbiosEntryPoint.length_encode]
    exact happ'.symm
  refine ⟨{ s.allocate a with mem := m, dev := dev }, rfl, ?_⟩
  have hfile : s.dev.fileBytes s.files[j] (anchor.structureTableLength.setWidth 32).toNat =
      encodeTable table := by
    rw [hread, ← fileContent_eq hlt, htables]
  rw [readSmbiosTables, StateRun.bind_of_ok (peek_apply _ _ _), hword]
  simp only []
  rw [StateRun.bind_of_ok (fwCfgFileId_some hj), StateRun.bind_of_ok (fwCfgFileSize_lt hlt),
    if_neg (by rintro (h | h); exacts [hne h, h hsize]), mallocFseg,
    StateRun.bind_of_ok (mallocFsegAlign_apply _ _ _)]
  change (if a.base = 0#32 then _ else _ : Fw Unit) (s.allocate a) = _
  rw [ha, if_neg hpos]
  rw [StateRun.bind_of_ok (fwCfgReadFile_lt _ _ (by simpa using hlt))]
  simp only [allocate_mem, allocate_files, allocate_dev, hfile, hswap]
  rfl

/-- A run of `extract_smbios` to its end. -/
theorem extractSmbios_apply (h : SmbiosFiles s anchor table) (hpos : 0 < s.fsegBase.toNat)
    (hroom : s.fsegBase.toNat + 0x20000 ≤ 2 ^ 32) :
    ∃ t : Firmware, t.mem = s.mem ∧ extractSmbios s = .ok () (t.withSmbios s.smbiosBase s.smbiosEp
      (smbiosBytes (load s.mem s.smbiosBase 46) table)
      (smbiosEntry anchor (s.smbiosBase + BitVec.ofNat 32 t0Len) table)) := by
  obtain ⟨i, hi, hanchor⟩ := h.anchorFile
  obtain ⟨j, hj, htables⟩ := h.tablesFile
  have hlt := fileIndex_lt hi
  have hne : ¬ (i : Int) = -1 := by omega
  obtain ⟨hep, hbase, hbase'⟩ := smbiosBlocks hroom
  have hshort := anchor.structureTableLength.isLt
  have htableLength := h.tableLength
  have hnonzero {p : BitVec 32} (hp : 0 < p.toNat) : p ≠ 0#32 := by
    rintro rfl
    exact absurd hp (by decide)
  have happ : Apart s.smbiosBase (46 + (encodeTable table).length) s.smbiosEp 31 :=
    (apart_of_le hbase (by omega)).symm
  have hsize : s.files[i].size = BitVec.ofNat 32 smbiosEntryPointBytes :=
    BitVec.eq_of_toNat_eq (size_of_content hlt hanchor)
  let a := s.request .fseg (BitVec.ofNat 32 smbiosEntryPointBytes) 16#32
  let t : Firmware := { s.allocate a with
    mem := store s.mem s.smbiosEp anchor.encode
    dev := (s.dev.select s.files[i].select).skip smbiosEntryPointBytes }
  have hfile : s.dev.fileBytes s.files[i] (BitVec.ofNat 32 smbiosEntryPointBytes).toNat =
      anchor.encode := by
    rw [← hanchor, fileContent_eq hlt, hsize]
  have hrun : extractSmbios s = readSmbiosTables s.smbiosEp t := by
    rw [extractSmbios, StateRun.bind_of_ok (fwCfgFileId_some hi),
      StateRun.bind_of_ok (fwCfgFileSize_lt hlt),
      if_neg (by rintro (h | h); exacts [hne h, h hsize.symm]), mallocFseg,
      StateRun.bind_of_ok (mallocFsegAlign_apply _ _ _)]
    change (if s.smbiosEp = 0#32 then _ else _ : Fw Unit) (s.allocate a) = _
    rw [if_neg (hnonzero (by omega)),
      StateRun.bind_of_ok (fwCfgReadFile_lt _ _ (by simpa using hlt))]
    simp only [allocate_mem, allocate_files, allocate_dev, hfile]
    rfl
  have hfiles : t.files = s.files := allocate_files s a
  have hcontent : t.fileContent j = encodeTable table := by
    rw [← htables]
    simp only [Firmware.fileContent, hfiles]
    rfl
  have hbaseNe : s.smbiosBase ≠ 0#32 := hnonzero (by omega)
  have hbaseEq : s.smbiosBase = fsegAlignedBase t.fsegBase 16#32 := rfl
  obtain ⟨u, humem, hread⟩ := readSmbiosTables_apply (s := t) rfl (by rw [hfiles, hj]) hcontent
    htableLength hbaseEq hbaseNe happ
  refine ⟨u, humem, ?_⟩
  rw [hrun, hread]
  exact publishSmbios_withSmbios (length_load _ _ _) (hnonzero (by omega)) (by omega) happ
    h.length htableLength

end Files

/-- The entry point at `ep` is read back from memory. -/
theorem decode_withSmbios (s : Firmware) (base ep : BitVec 32) (bs : List Byte)
    (e : SmbiosEntryPoint) :
    SmbiosEntryPoint.decode (load (s.withSmbios base ep bs e).mem ep 31) = e := by
  have hload : load (s.withSmbios base ep bs e).mem ep e.encode.length = e.encode :=
    load_store _ _ (by rw [SmbiosEntryPoint.length_encode]; decide)
  rw [SmbiosEntryPoint.length_encode] at hload
  rw [hload, SmbiosEntryPoint.decode_encode]

/-- A reader accepts an entry point with fixed checksums whose fields describe
a part of the block at `base`. -/
theorem publishes_withSmbios (s : Firmware) {base ep : BitVec 32} {bs : List Byte}
    {e : SmbiosEntryPoint} {table : List SmbiosStructure} {k : Nat}
    (hk : k + (encodeTable table).length = bs.length) (hlen : bs.length ≤ 2 ^ 32)
    (hbs : slice bs k (encodeTable table).length = encodeTable table)
    (happ : Apart base bs.length ep 31)
    (haddress : e.structureTableAddress = base + BitVec.ofNat 32 k)
    (hlength : e.structureTableLength.toNat = (encodeTable table).length)
    (hcount : e.numberOfStructures.toNat = table.length)
    (hmax : e.maxStructureSize.toNat = maxStructureSize table) :
    PublishesSmbios (s.withSmbios base ep bs e.fixed).mem ep table := by
  have hentry := decode_withSmbios s base ep bs e.fixed
  have hzero : ep + BitVec.ofNat 32 0 = ep := BitVec.add_zero ep
  have hload (i n : Nat) (hi : i + n ≤ 31) :
      load (s.withSmbios base ep bs e.fixed).mem (ep + BitVec.ofNat 32 i) n =
        slice e.fixed.encode i n := load_withSmbios s base ep bs e.fixed hi
  obtain ⟨hhead, htail⟩ := e.sum_fixed
  constructor
  · rw [hentry]
    exact hlength
  · rw [hentry]
    change load _ e.structureTableAddress e.structureTableLength.toNat = _
    have hpart : Apart (base + BitVec.ofNat 32 k) (encodeTable table).length ep 31 :=
      happ.part hk.le hlen
    have hkept : load (s.withSmbios base ep bs e.fixed).mem (base + BitVec.ofNat 32 k)
        (encodeTable table).length = load (store s.mem base bs) (base + BitVec.ofNat 32 k)
          (encodeTable table).length := load_store_outside _ (by omega) hpart
    rw [haddress, hlength, hkept, load_store_inside _ _ hk.le hlen, hbs]
  · rw [hentry]
    exact hcount
  · rw [hentry]
    exact hmax
  · have hfirst := hload 0 16 (by decide)
    rw [hzero] at hfirst
    rw [hfirst]
    exact hhead
  · rw [show ep + 0x10#32 = ep + BitVec.ofNat 32 16 from rfl, hload 16 15 (by decide)]
    exact htail
  · have hwhole := hload 0 31 (by decide)
    rw [hzero] at hwhole
    rw [hwhole]
    change (e.fixed.encodeHead ++ e.fixed.encodeTail).sum = 0
    rw [sum_append, hhead, htail, add_zero]

/-- The published table never has more than 65535 bytes, but QEMU's table and
a BIOS information structure together can. -/
theorem not_publishes_of_long {s : Firmware} {anchor : SmbiosEntryPoint}
    {table : List SmbiosStructure} (h : SmbiosFiles s anchor table)
    (hpos : 0 < s.fsegBase.toNat) (hroom : s.fsegBase.toNat + 0x20000 ≤ 2 ^ 32)
    (htype : ¬ HasType0 table) (hlong : 65489 < (encodeTable table).length) :
    ¬ ∃ s', extractSmbios s = .ok () s' ∧
      PublishesSmbios s'.mem s.smbiosEp (publishedTable table) := by
  rintro ⟨s', hrun', hpub⟩
  obtain ⟨t, -, hrun⟩ := extractSmbios_apply h hpos hroom
  rw [hrun] at hrun'
  obtain rfl : _ = s' := (EStateM.Result.ok.inj hrun').2
  have hlength := hpub.tableLength
  have hlt := (smbiosEntry anchor (s.smbiosBase + BitVec.ofNat 32 t0Len)
    table).structureTableLength.isLt
  rw [decode_withSmbios, publishedTable, if_neg htype, encodeTable_cons, List.length_append,
    length_biosStructure] at hlength
  omega

/-- `extract_smbios` publishes QEMU's structures, preceded by its own if they
have none of type 0, exactly when the table it publishes has a 16-bit length. -/
theorem extractSmbios_publishes_iff {s : Firmware} {anchor : SmbiosEntryPoint}
    {table : List SmbiosStructure} (h : SmbiosFiles s anchor table)
    (hpos : 0 < s.fsegBase.toNat) (hroom : s.fsegBase.toNat + 0x20000 ≤ 2 ^ 32) :
    (∃ s', extractSmbios s = .ok () s' ∧
      PublishesSmbios s'.mem s.smbiosEp (publishedTable table)) ↔
    HasType0 table ∨ (encodeTable table).length ≤ 65489 := by
  obtain ⟨t, -, hrun⟩ := extractSmbios_apply h hpos hroom
  obtain ⟨hep, hbase, hbase'⟩ := smbiosBlocks hroom
  have hshort := anchor.structureTableLength.isLt
  have htableLength := h.tableLength
  have happ : Apart s.smbiosBase (46 + (encodeTable table).length) s.smbiosEp 31 :=
    (apart_of_le hbase (by omega)).symm
  have hadded : (encodeTable (biosStructure :: table)).length =
      46 + (encodeTable table).length := by
    rw [encodeTable_cons, List.length_append, length_biosStructure]
  constructor
  · intro hpublishes
    by_contra hcond
    obtain ⟨htype, hlong⟩ := not_or.mp hcond
    exact not_publishes_of_long h hpos hroom htype (by omega) hpublishes
  · intro hcond
    refine ⟨_, hrun, ?_⟩
    rw [smbiosBytes, smbiosEntry, publishedTable]
    by_cases htype : HasType0 table
    · rw [if_pos htype, if_pos htype, if_pos htype]
      have hall : (load s.mem s.smbiosBase 46 ++ encodeTable table).length =
          46 + (encodeTable table).length := by
        rw [List.length_append, length_load]
      refine publishes_withSmbios t (k := 46) hall.symm (by omega) ?_ (by rwa [hall]) rfl
        htableLength h.count h.maxSize
      have hright := slice_append_right (load s.mem s.smbiosBase 46) (encodeTable table)
      rwa [length_load] at hright
    · rw [if_neg htype, if_neg htype, if_neg htype]
      have hfit : (encodeTable table).length ≤ 65489 := hcond.resolve_left htype
      have hcount := length_le_encodeTable table
      have hnumber := h.count
      have hmax := h.maxSize
      have hsame : biosStructure.encode ++ encodeTable table =
          encodeTable (biosStructure :: table) := (encodeTable_cons _ _).symm
      rw [hsame]
      refine publishes_withSmbios t (k := 0) (Nat.zero_add _) (by omega) (slice_zero _)
        (by rwa [hadded]) ?_ ?_ ?_ ?_
      · change s.smbiosBase + BitVec.ofNat 32 t0Len - BitVec.ofNat 32 t0Len = s.smbiosBase + 0#32
        rw [BitVec.add_sub_cancel, BitVec.add_zero]
      · change (anchor.structureTableLength + 46#16).toNat = _
        rw [BitVec.toNat_add, hadded]
        change (anchor.structureTableLength.toNat + 46) % 2 ^ 16 = _
        omega
      · change (anchor.numberOfStructures + 1#16).toNat = table.length + 1
        rw [BitVec.toNat_add]
        change (anchor.numberOfStructures.toNat + 1) % 2 ^ 16 = _
        omega
      · change (if 46#16 > anchor.maxStructureSize then 46#16 else anchor.maxStructureSize).toNat =
          max biosStructure.encode.length (maxStructureSize table)
        rw [length_biosStructure, ← hmax]
        by_cases hless : anchor.maxStructureSize < 46#16
        · have hnat : anchor.maxStructureSize.toNat < 46 := hless
          rw [if_pos hless]
          change 46 = _
          omega
        · have hnat : ¬ anchor.maxStructureSize.toNat < 46 := hless
          rw [if_neg hless]
          omega

/-! ### Machines with an anchor and a tables file -/

/-- An anchor that describes `table`. -/
def smbiosAnchor (table : List SmbiosStructure) : SmbiosEntryPoint where
  signature := 0x5f4d535f#32
  checksum := 0#8
  length := 0x1f#8
  smbiosMajorVersion := 2#8
  smbiosMinorVersion := 8#8
  maxStructureSize := BitVec.ofNat 16 (maxStructureSize table)
  entryPointRevision := 0#8
  formattedArea := 0#40
  intermediateAnchorString := 0x5f494d445f#40
  intermediateChecksum := 0#8
  structureTableLength := BitVec.ofNat 16 (encodeTable table).length
  structureTableAddress := 0#32
  numberOfStructures := BitVec.ofNat 16 table.length
  smbiosBcdRevision := 0x28#8

def smbiosMachine (table : List SmbiosStructure) : Firmware :=
  { Firmware.initial
      { entry := fun key =>
          if key = 0x20#16 then (smbiosAnchor table).encode else encodeTable table
        key := 0#16
        pos := 0 }
      (fun _ => 0xaa#8) 0xf0000#32 0xf4000#32 with
    files :=
      [{ size := 31#32, select := 0x20#16, name := paddedName smbiosAnchorName },
       { size := BitVec.ofNat 32 (encodeTable table).length, select := 0x21#16,
         name := paddedName smbiosTablesName }] }

theorem maxStructureSize_le (table : List SmbiosStructure) :
    maxStructureSize table ≤ (encodeTable table).length := by
  induction table with
  | nil => exact Nat.zero_le _
  | cons x table ih =>
    rw [encodeTable_cons, List.length_append]
    change max x.encode.length (maxStructureSize table) ≤ _
    omega

theorem smbiosMachine_files {table : List SmbiosStructure}
    (hlen : (encodeTable table).length < 2 ^ 16) :
    SmbiosFiles (smbiosMachine table) (smbiosAnchor table) table := by
  have hcount := length_le_encodeTable table
  have hmax := maxStructureSize_le table
  have hnames : fileIndex (smbiosMachine table).files smbiosAnchorName = some 0 ∧
      fileIndex (smbiosMachine table).files smbiosTablesName = some 1 := by
    have hdiffer : filenamecmpFrom 55 smbiosTablesName (padTo 56 smbiosAnchorName) ≠ 0 := by
      decide +kernel
    have hsame : filenamecmpFrom 55 smbiosAnchorName (padTo 56 smbiosAnchorName) = 0 ∧
        filenamecmpFrom 55 smbiosTablesName (padTo 56 smbiosTablesName) = 0 := by decide +kernel
    simp [fileIndex, filenamecmp, smbiosMachine, paddedName, List.findIdx?_cons, hdiffer, hsame]
  constructor
  · refine ⟨0, hnames.1, ?_⟩
    exact entryBytes_all (smbiosAnchor table).encode
  · refine ⟨1, hnames.2, ?_⟩
    have hsize : (BitVec.ofNat 32 (encodeTable table).length).toNat =
        (encodeTable table).length := by
      rw [BitVec.toNat_ofNat]
      omega
    change entryBytes (encodeTable table) 0 (BitVec.ofNat 32 (encodeTable table).length).toNat = _
    rw [hsize, entryBytes_all]
  · rfl
  · exact Nat.mod_eq_of_lt hlen
  · exact Nat.mod_eq_of_lt (by omega)
  · exact Nat.mod_eq_of_lt (by omega)

/-- A memory device without strings. -/
def memoryDevice : SmbiosStructure where
  type := 17#8
  handle := 0x1100#16
  formatted := List.replicate 36 0
  strings := []
  formatted_lt := by decide
  strings_ok := by simp

/-- The system, with its manufacturer and its version. -/
def systemStructure : SmbiosStructure where
  type := 1#8
  handle := 0x100#16
  formatted := [1#8, 0#8, 2#8, 0#8] ++ List.replicate 19 0
  strings := [[0x51#8, 0x45#8, 0x4d#8, 0x55#8], [0x38#8, 0x2e#8, 0x32#8]]
  formatted_lt := by decide
  strings_ok := by decide

theorem extractSmbios_publishes_device :
    ∃ s', extractSmbios (smbiosMachine [systemStructure, memoryDevice]) = .ok () s' ∧
      PublishesSmbios s'.mem 0xf4000#32 [biosStructure, systemStructure, memoryDevice] :=
  (extractSmbios_publishes_iff (smbiosMachine_files (by decide +kernel)) (by decide)
    (by decide)).mpr (Or.inr (by decide +kernel))

theorem length_encodeTable_replicate (n : Nat) (x : SmbiosStructure) :
    (encodeTable (List.replicate n x)).length = n * x.encode.length := by
  induction n with
  | zero => rw [Nat.zero_mul]; rfl
  | succ n ih =>
    rw [List.replicate_succ, encodeTable_cons, List.length_append, ih]
    ring

/-- With 1560 memory devices the 16-bit length of the published table wraps. -/
theorem extractSmbios_wraps_devices :
    SmbiosFiles (smbiosMachine (List.replicate 1560 memoryDevice))
      (smbiosAnchor (List.replicate 1560 memoryDevice)) (List.replicate 1560 memoryDevice) ∧
    ¬ ∃ s', extractSmbios (smbiosMachine (List.replicate 1560 memoryDevice)) = .ok () s' ∧
      PublishesSmbios s'.mem 0xf4000#32
        (publishedTable (List.replicate 1560 memoryDevice)) := by
  have hlen : (encodeTable (List.replicate 1560 memoryDevice)).length = 65520 := by
    have hdevice : memoryDevice.encode.length = 42 := by decide +kernel
    rw [length_encodeTable_replicate, hdevice]
  have hfiles : SmbiosFiles (smbiosMachine (List.replicate 1560 memoryDevice))
      (smbiosAnchor (List.replicate 1560 memoryDevice)) (List.replicate 1560 memoryDevice) :=
    smbiosMachine_files (by rw [hlen]; decide)
  have htype : ¬ HasType0 (List.replicate 1560 memoryDevice) := by
    rintro ⟨x, hx, hzero⟩
    rw [List.eq_of_mem_replicate hx] at hzero
    exact absurd hzero (by decide)
  exact ⟨hfiles, not_publishes_of_long hfiles (by decide) (by decide) htype (by rw [hlen]; decide)⟩

end Qboot
