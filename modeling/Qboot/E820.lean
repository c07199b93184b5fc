import Qboot.FwCfg.Files

/-!
The memory map of main.c. `extract_e820` builds the table that INT 15h, the
PVH start info and the multiboot map are made from: four fixed entries, the
MMCONFIG window of a Q35 machine, and the entries of `etc/e820`.
-/

namespace Qboot

open Bytes ByteMemory

/-- `struct e820entry`. -/
structure E820Entry where
  addr : BitVec 64
  size : BitVec 64
  type : BitVec 32
deriving DecidableEq

def E820_RAM : BitVec 32 := 1#32
def E820_RESERVED : BitVec 32 := 2#32
def E820_NVS : BitVec 32 := 4#32

def PCIE_MMCONFIG_BASE : BitVec 64 := 0xb0000000#64
def PCIE_MMCONFIG_SIZE : BitVec 64 := 0x10000000#64

/-- `sizeof(struct e820entry)` -/
def e820EntryBytes : Nat := 20

def E820Entry.encode (e : E820Entry) : List Byte :=
  toLE 8 e.addr.toNat ++ toLE 8 e.size.toNat ++ toLE 4 e.type.toNat

def E820Entry.decode (bs : List Byte) : E820Entry where
  addr := BitVec.ofNat 64 (ofLE (slice bs 0 8))
  size := BitVec.ofNat 64 (ofLE (slice bs 8 8))
  type := BitVec.ofNat 32 (ofLE (slice bs 16 4))

/-- The four entries every map starts with. -/
def fixedEntries : List E820Entry :=
  [{ addr := 0#64, size := 0x9fc00#64, type := E820_RAM },
   { addr := 0x9fc00#64, size := 0x400#64, type := E820_RESERVED },
   { addr := 0xd0000#64, size := 0x20000#64, type := E820_NVS },
   { addr := 0xf0000#64, size := 0x10000#64, type := E820_RESERVED }]

def mmconfigEntry : E820Entry :=
  { addr := PCIE_MMCONFIG_BASE, size := PCIE_MMCONFIG_SIZE, type := E820_RESERVED }

/-- The MMCONFIG window, on machines that have one. -/
def mmconfigEntries (mmconfig : Bool) : List E820Entry := if mmconfig then [mmconfigEntry] else []

/-- `&e820->map[i]` -/
def mapEntry (e820 : BitVec 32) (i : Nat) : BitVec 32 :=
  e820 + BitVec.ofNat 32 (4 + e820EntryBytes * i)

/-- `e820->map[i] = e` for the entries `es` from index `i` on. -/
def storeEntries (e820 : BitVec 32) : Nat → List E820Entry → Fw Unit
  | _, [] => pure ()
  | i, e :: es => do
    poke (mapEntry e820 i) e.encode
    storeEntries e820 (i + 1) es

/-- The loop that looks for the entry at address zero: `n` iterations from
index `i` on, if no entry ends it. -/
def rebaseLoop (e820 : BitVec 32) (i : Nat) : Nat → Fw Unit
  | 0 => pure ()
  | n + 1 => do
    let addr ← peek (mapEntry e820 i) 8
    if ofLE addr = 0 then do
      let size ← peek (mapEntry e820 i + 8#32) 8
      modify fun s => { s with lowmem := BitVec.ofNat 32 (ofLE size) }
      poke (mapEntry e820 i) (toLE 8 0x100000)
      poke (mapEntry e820 i + 8#32) (toLE 8 (BitVec.ofNat 64 (ofLE size) - 0x100000#64).toNat)
    else rebaseLoop e820 (i + 1) n

def e820Name : List Byte := cstring ['e', 't', 'c', '/', 'e', '8', '2', '0']

/-- `extract_e820` after the allocation. The loop compares with
`e820->nr_map`, not with the local `nr_map` that the branch without MMCONFIG
lowers. -/
def fillMap (id : Int) (size : BitVec 32) (nrMap : Nat) (e820 : BitVec 32) : Fw Unit := do
  modify fun s => { s with e820 := e820 }
  poke e820 (toLE 4 nrMap)
  storeEntries e820 0 fixedEntries
  let s ← get
  let extra := mmconfigEntries s.haveMmconfig
  storeEntries e820 4 extra
  let i := 4 + extra.length
  fwCfgReadFile id (mapEntry e820 i) size
  let count ← peek e820 4
  rebaseLoop e820 i (ofLE count - i)
  modify fun s => { s with e820Seg := (e820 >>> 4).setWidth 16 }

def extractE820 : Fw Unit := do
  let id ← fwCfgFileId e820Name
  panicIf (id = -1)
  let size ← fwCfgFileSize id
  let nrMap := size.toNat / e820EntryBytes + 5
  let e820 ← malloc (BitVec.ofNat 32 (4 + e820EntryBytes * nrMap))
  fillMap id size nrMap e820

/-! ### The map that is meant -/

/-- The first entry at address zero gives its first MiB to the fixed entries. -/
def rebaseFirst : List E820Entry → List E820Entry
  | [] => []
  | e :: es =>
    if e.addr = 0#64 then { e with addr := 0x100000#64, size := e.size - 0x100000#64 } :: es
    else e :: rebaseFirst es

/-- `lowmem` after the loop: the size of the first entry at address zero. -/
def lowmemAfter (old : BitVec 32) : List E820Entry → BitVec 32
  | [] => old
  | e :: es => if e.addr = 0#64 then e.size.setWidth 32 else lowmemAfter old es

def entriesOf (bs : List Byte) : List E820Entry := (records e820EntryBytes bs).map E820Entry.decode

/-- The map of a machine, from the entries of its `etc/e820`. -/
def memoryMap (mmconfig : Bool) (entries : List E820Entry) : List E820Entry :=
  fixedEntries ++ mmconfigEntries mmconfig ++ rebaseFirst entries

def encodeEntries (es : List E820Entry) : List Byte := es.flatMap E820Entry.encode

/-- `e820` points to a table of exactly these entries, inside the block that
was allocated last. -/
def PublishesMap (s : Firmware) (table : List E820Entry) : Prop :=
  (∃ a, s.allocs.head? = some a ∧ a.base = s.e820 ∧
    4 + e820EntryBytes * table.length ≤ a.size.toNat) ∧
  loadLE s.mem s.e820 4 = table.length ∧
  load s.mem (mapEntry s.e820 0) (e820EntryBytes * table.length) = encodeEntries table

/-! ### Encoded entries -/

@[simp] theorem length_encode (e : E820Entry) : e.encode.length = e820EntryBytes := by
  simp [E820Entry.encode, e820EntryBytes]

@[simp] theorem length_encodeEntries (es : List E820Entry) :
    (encodeEntries es).length = e820EntryBytes * es.length := by
  induction es with
  | nil => rfl
  | cons e es ih =>
    rw [encodeEntries, List.flatMap_cons, List.length_append, length_encode, List.length_cons,
      Nat.mul_succ, Nat.add_comm]
    exact congrArg (· + e820EntryBytes) ih

theorem encodeEntries_append (es fs : List E820Entry) :
    encodeEntries (es ++ fs) = encodeEntries es ++ encodeEntries fs :=
  List.flatMap_append

@[simp] theorem length_rebaseFirst (es : List E820Entry) :
    (rebaseFirst es).length = es.length := by
  induction es with
  | nil => rfl
  | cons e es ih =>
    rw [rebaseFirst]
    split
    · rfl
    · rw [List.length_cons, List.length_cons, ih]

/-- Every 20 bytes are the encoding of the entry they decode to. -/
theorem encode_decode {bs : List Byte} (h : bs.length = e820EntryBytes) :
    (E820Entry.decode bs).encode = bs := by
  have hlen : bs.length = 20 := h
  have hjoin : slice bs 0 8 ++ slice bs 8 8 ++ slice bs 16 4 = bs := by
    have hall : slice bs 0 20 = bs := by rw [← hlen, slice_zero]
    rw [slice_append_slice bs 0 8 8, slice_append_slice bs 0 16 4, hall]
  have haddr : toLE 8 (E820Entry.decode bs).addr.toNat = slice bs 0 8 :=
    toLE_word 0 8 (by omega)
  have hsize : toLE 8 (E820Entry.decode bs).size.toNat = slice bs 8 8 :=
    toLE_word 8 8 (by omega)
  have htype : toLE 4 (E820Entry.decode bs).type.toNat = slice bs 16 4 :=
    toLE_word 16 4 (by omega)
  rw [E820Entry.encode, haddr, hsize, htype, hjoin]

theorem encodeEntries_entriesOf {bs : List Byte} (h : e820EntryBytes ∣ bs.length) :
    encodeEntries (entriesOf bs) = bs := by
  have hdecode : ∀ r ∈ records e820EntryBytes bs, (E820Entry.decode r).encode = r :=
    fun r hr => encode_decode (length_of_mem_records hr)
  have hflat : encodeEntries (entriesOf bs) = (records e820EntryBytes bs).flatten := by
    rw [encodeEntries, entriesOf, List.flatMap_map, List.flatMap_def]
    congr 1
    exact (List.map_congr_left hdecode).trans (List.map_id _)
  rw [hflat, flatten_records (by decide) h]

@[simp] theorem length_entriesOf (bs : List Byte) :
    (entriesOf bs).length = bs.length / e820EntryBytes := by
  simp [entriesOf]

theorem length_memoryMap (mmconfig : Bool) (es : List E820Entry) :
    (memoryMap mmconfig es).length = 4 + (mmconfigEntries mmconfig).length + es.length := by
  rw [memoryMap, List.length_append, List.length_append, length_rebaseFirst,
    show fixedEntries.length = 4 from rfl]

theorem decode_encode (e : E820Entry) : E820Entry.decode e.encode = e := by
  have haddr := slice_append_middle [] (toLE 8 e.addr.toNat)
    (toLE 8 e.size.toNat ++ toLE 4 e.type.toNat)
  have hsize := slice_append_middle (toLE 8 e.addr.toNat) (toLE 8 e.size.toNat)
    (toLE 4 e.type.toNat)
  have htype := slice_append_right (toLE 8 e.addr.toNat ++ toLE 8 e.size.toNat)
    (toLE 4 e.type.toNat)
  simp only [List.nil_append, List.length_nil, List.length_append, length_toLE,
    ← List.append_assoc] at haddr hsize htype
  have hword (x : BitVec 64) : BitVec.ofNat 64 (ofLE (toLE 8 x.toNat)) = x := ofNat_ofLE_toLE 8 x
  have hhalf (x : BitVec 32) : BitVec.ofNat 32 (ofLE (toLE 4 x.toNat)) = x := ofNat_ofLE_toLE 4 x
  rw [E820Entry.decode, E820Entry.encode, haddr, hsize, htype, hword, hword, hhalf]

theorem entriesOf_encodeEntries (es : List E820Entry) : entriesOf (encodeEntries es) = es := by
  have hlen : ∀ r ∈ es.map E820Entry.encode, r.length = e820EntryBytes := by simp
  rw [entriesOf, encodeEntries, List.flatMap_def, records_flatten (by decide) hlen, List.map_map]
  exact (List.map_congr_left fun e _ => decode_encode e).trans (List.map_id _)

/-! ### A table in memory -/

theorem mapEntry_add (e820 : BitVec 32) (i k : Nat) :
    mapEntry e820 (i + k) = mapEntry e820 i + BitVec.ofNat 32 (e820EntryBytes * k) := by
  have hsum : 4 + e820EntryBytes * (i + k) = (4 + e820EntryBytes * i) + e820EntryBytes * k := by
    ring
  rw [mapEntry, mapEntry, hsum, BitVec.ofNat_add, ← add_assoc]

/-- The bytes of `struct e820map`. -/
def encodeMap (es : List E820Entry) : List Byte := toLE 4 es.length ++ encodeEntries es

/-- The `struct e820map` at `e820` holds exactly these entries. -/
def MapHeld (m : Mem) (e820 : BitVec 32) (es : List E820Entry) : Prop :=
  load m e820 (4 + e820EntryBytes * es.length) = encodeMap es

section Held

variable {m : Mem} {e820 : BitVec 32} {es : List E820Entry}

theorem MapHeld.parts (h : MapHeld m e820 es) : load m e820 4 = toLE 4 es.length ∧
    load m (mapEntry e820 0) (e820EntryBytes * es.length) = encodeEntries es := by
  rw [MapHeld, load_append, encodeMap] at h
  exact List.append_inj h (by simp)

theorem MapHeld.count (h : MapHeld m e820 es) (hlen : es.length < 2 ^ 32) :
    ofLE (load m e820 4) = es.length := by
  rw [h.parts.1, ofLE_toLE_of_lt hlen]

theorem MapHeld.entry (h : MapHeld m e820 es) {i : Nat} (hi : i < es.length) :
    load m (mapEntry e820 i) e820EntryBytes = es[i].encode := by
  have hrecords : ∀ r ∈ es.map E820Entry.encode, r.length = e820EntryBytes := by simp
  have hslice := slice_flatten (by decide) hrecords (by simpa using hi)
  have hin : e820EntryBytes * i + e820EntryBytes ≤ e820EntryBytes * es.length := by
    rw [← Nat.mul_succ]
    exact Nat.mul_le_mul_left _ hi
  rw [← List.flatMap_def, List.getElem_map, ← encodeEntries, ← h.parts.2, slice_load m _ hin,
    ← mapEntry_add, Nat.zero_add] at hslice
  exact hslice

/-- A store outside the table leaves it as it is. -/
theorem MapHeld.store (h : MapHeld m e820 es) {q : BitVec 32} {bs : List Byte}
    (hlen : 4 + e820EntryBytes * es.length ≤ 2 ^ 32)
    (happ : Apart e820 (4 + e820EntryBytes * es.length) q bs.length) :
    MapHeld (store m q bs) e820 es :=
  (load_store_outside m hlen happ).trans h

/-- Any table in memory holds the entries that its bytes decode to. -/
theorem mapHeld_entriesOf (m : Mem) (e820 : BitVec 32) : MapHeld m e820
    (entriesOf (load m (mapEntry e820 0) (e820EntryBytes * loadLE m e820 4))) := by
  have hlen : (entriesOf (load m (mapEntry e820 0) (e820EntryBytes * loadLE m e820 4))).length =
      loadLE m e820 4 := by
    rw [length_entriesOf, length_load, Nat.mul_div_cancel_left _ (by decide)]
  have hcount : toLE 4 (loadLE m e820 4) = load m e820 4 := by
    have h := toLE_ofLE (load m e820 4)
    rwa [length_load] at h
  have hentries := @encodeEntries_entriesOf
    (load m (mapEntry e820 0) (e820EntryBytes * loadLE m e820 4)) (by simp)
  rw [MapHeld, encodeMap, hlen, hcount, hentries, load_append]
  rfl

end Held

/-! ### Filling the table -/

/-- Storing entries one by one stores their encodings as one block. -/
theorem storeEntries_apply (e820 : BitVec 32) {es : List E820Entry} (i : Nat) (s : Firmware)
    (hfit : e820EntryBytes * es.length ≤ 2 ^ 32) :
    storeEntries e820 i es s =
      .ok () { s with mem := store s.mem (mapEntry e820 i) (encodeEntries es) } := by
  induction es generalizing i s with
  | nil => simp [storeEntries, encodeEntries]
  | cons e es ih =>
    have hcons : e820EntryBytes * (e :: es).length =
        e820EntryBytes + e820EntryBytes * es.length := by
      rw [List.length_cons]
      ring
    have hfit' : e.encode.length + (encodeEntries es).length ≤ 2 ^ 32 := by
      rw [length_encode, length_encodeEntries]
      omega
    have hnext : mapEntry e820 (i + 1) = mapEntry e820 i + BitVec.ofNat 32 e.encode.length := by
      rw [mapEntry_add, length_encode, Nat.mul_one]
    rw [storeEntries, StateRun.bind_of_ok (poke_apply _ _ s), ih _ _ (by omega)]
    simp only [hnext, store_append _ _ hfit']
    rfl

/-- The fields of an entry in memory. -/
theorem load_encode {m : Mem} {p : BitVec 32} {e : E820Entry}
    (h : load m p e820EntryBytes = e.encode) :
    load m p 8 = toLE 8 e.addr.toNat ∧ load m (p + 8#32) 8 = toLE 8 e.size.toNat ∧
      load m (p + 16#32) 4 = toLE 4 e.type.toNat := by
  have hsplit : load m p e820EntryBytes =
      load m p 8 ++ load m (p + 8#32) 8 ++ load m (p + 16#32) 4 := by
    rw [show e820EntryBytes = 8 + 8 + 4 from rfl, load_append, load_append]
  rw [hsplit, E820Entry.encode] at h
  obtain ⟨hhead, htype⟩ := List.append_inj h (by simp)
  obtain ⟨haddr, hsize⟩ := List.append_inj hhead (by simp)
  exact ⟨haddr, hsize, htype⟩

/-- Storing a new address and a new size in the first entry of a table. -/
theorem store_rebased {m : Mem} {p : BitVec 32} {e : E820Entry} {es : List E820Entry}
    (hfirst : load m p e820EntryBytes = e.encode)
    (hrest : load m (p + BitVec.ofNat 32 e820EntryBytes) (e820EntryBytes * es.length) =
      encodeEntries es)
    (hfit : e820EntryBytes + e820EntryBytes * es.length ≤ 2 ^ 32) (addr size : BitVec 64) :
    store (store m p (toLE 8 addr.toNat)) (p + 8#32) (toLE 8 size.toNat) =
      store m p (encodeEntries ({ e with addr := addr, size := size } :: es)) := by
  obtain ⟨-, -, htype⟩ := load_encode hfirst
  have hbytes : e820EntryBytes = 20 := rfl
  have hnext : p + BitVec.ofNat 32 e820EntryBytes = p + 16#32 + 4#32 := by
    rw [add_assoc]
    rfl
  have htail : load m (p + 16#32) (toLE 4 e.type.toNat ++ encodeEntries es).length =
      toLE 4 e.type.toNat ++ encodeEntries es := by
    rw [List.length_append, length_toLE, length_encodeEntries, load_append, htype]
    rw [hnext] at hrest
    exact congrArg _ hrest
  have hlen : (toLE 8 addr.toNat ++ toLE 8 size.toNat).length = 16 := by simp
  have hbound : (toLE 8 addr.toNat ++ toLE 8 size.toNat).length +
      (toLE 4 e.type.toNat ++ encodeEntries es).length ≤ 2 ^ 32 := by
    rw [hlen, List.length_append, length_toLE, length_encodeEntries]
    omega
  calc store (store m p (toLE 8 addr.toNat)) (p + 8#32) (toLE 8 size.toNat)
      = store m p (toLE 8 addr.toNat ++ toLE 8 size.toNat) := by
        have hjoin : store (store m p (toLE 8 addr.toNat))
            (p + BitVec.ofNat 32 (toLE 8 addr.toNat).length) (toLE 8 size.toNat) =
            store m p (toLE 8 addr.toNat ++ toLE 8 size.toNat) := store_append m p (by simp)
        rwa [length_toLE] at hjoin
    _ = store m p (toLE 8 addr.toNat ++ toLE 8 size.toNat ++
          (toLE 4 e.type.toNat ++ encodeEntries es)) :=
        store_load_append (by rw [hlen]; exact htail) hbound
    _ = store m p (encodeEntries ({ e with addr := addr, size := size } :: es)) := by
        simp [encodeEntries, E820Entry.encode]

/-- On a table of the entries `es`, the loop gives the first MiB of the first
entry at address zero to the fixed entries. -/
theorem rebaseLoop_apply (e820 : BitVec 32) {es : List E820Entry} (i : Nat) (s : Firmware)
    (hload : load s.mem (mapEntry e820 i) (e820EntryBytes * es.length) = encodeEntries es)
    (hfit : e820EntryBytes * es.length ≤ 2 ^ 32) :
    rebaseLoop e820 i es.length s = .ok () { s with
      lowmem := lowmemAfter s.lowmem es
      mem := store s.mem (mapEntry e820 i) (encodeEntries (rebaseFirst es)) } := by
  induction es generalizing i with
  | nil => simp [rebaseLoop, rebaseFirst, encodeEntries, lowmemAfter]
  | cons e es ih =>
    have hlen : e820EntryBytes * (e :: es).length =
        e820EntryBytes + e820EntryBytes * es.length := by
      rw [List.length_cons]
      ring
    rw [hlen] at hload hfit
    rw [load_append] at hload
    obtain ⟨hfirst, hrest⟩ := List.append_inj hload (by simp)
    obtain ⟨haddr, hsize, htype⟩ := load_encode hfirst
    have hnext : mapEntry e820 (i + 1) =
        mapEntry e820 i + BitVec.ofNat 32 e820EntryBytes := by
      rw [mapEntry_add, Nat.mul_one]
    have hread : ofLE (load s.mem (mapEntry e820 i) 8) = e.addr.toNat := by
      rw [haddr, ofLE_toLE_of_lt e.addr.isLt]
    rw [List.length_cons, rebaseLoop, StateRun.bind_of_ok (peek_apply _ _ s)]
    by_cases hzero : e.addr = 0#64
    · have hsizeRead : BitVec.ofNat 64 (ofLE (load s.mem (mapEntry e820 i + 8#32) 8)) =
          e.size := by
        rw [hsize, ofLE_toLE_of_lt e.size.isLt, BitVec.ofNat_toNat, BitVec.setWidth_eq]
      rw [if_pos (by rw [hread, hzero]; rfl), StateRun.bind_of_ok (peek_apply _ _ s),
        StateRun.bind_of_ok (StateRun.modify_apply _ s), StateRun.bind_of_ok (poke_apply _ _ _),
        poke_apply, hsizeRead, rebaseFirst, lowmemAfter, if_pos hzero, if_pos hzero]
      have hmem := store_rebased hfirst hrest hfit 0x100000#64 (e.size - 0x100000#64)
      have hlowmem : BitVec.ofNat 32 (ofLE (load s.mem (mapEntry e820 i + 8#32) 8)) =
          e.size.setWidth 32 := by
        rw [hsize, ofLE_toLE_of_lt e.size.isLt]
        rfl
      rw [hlowmem]
      exact congrArg (fun mem => EStateM.Result.ok () { s with
        lowmem := e.size.setWidth 32
        mem := mem }) hmem
    · rw [if_neg (by rw [hread]; exact fun h => hzero (BitVec.eq_of_toNat_eq h))]
      have hrun := ih (i + 1) (by rw [hnext]; exact hrest) (by omega)
      rw [hrun, hnext, rebaseFirst, lowmemAfter, if_neg hzero, if_neg hzero]
      have hself : load s.mem (mapEntry e820 i) e.encode.length = e.encode := by
        rw [length_encode]
        exact hfirst
      have hbound : e.encode.length + (encodeEntries (rebaseFirst es)).length ≤ 2 ^ 32 := by
        rw [length_encode, length_encodeEntries, length_rebaseFirst]
        exact hfit
      have hstore := store_append_load hself hbound
      rw [length_encode] at hstore
      rw [hstore]
      rfl

/-! ### The whole table -/

/-- The block `extract_e820` allocates for a file of `size` bytes. -/
def Firmware.e820Block (s : Firmware) (size : Nat) : Alloc :=
  s.request .low (BitVec.ofNat 32 (4 + e820EntryBytes * (size / e820EntryBytes + 5))) 16#32

/-- Memory before the loop: the count, the fixed entries and the file are one
block of bytes. -/
def Firmware.e820Filled (s : Firmware) (content : List Byte) : Mem :=
  store s.mem (s.e820Block content.length).base
    (toLE 4 (content.length / e820EntryBytes + 5) ++
      encodeEntries (fixedEntries ++ mmconfigEntries s.haveMmconfig) ++ content)

/-- The entries the loop may look at: from the file on, up to the stored count. -/
def Firmware.e820Scanned (s : Firmware) (content : List Byte) : List E820Entry :=
  let k := 4 + (mmconfigEntries s.haveMmconfig).length
  entriesOf (load (s.e820Filled content) (mapEntry (s.e820Block content.length).base k)
    (e820EntryBytes * (content.length / e820EntryBytes + 5 - k)))

theorem length_e820Scanned (s : Firmware) (content : List Byte) :
    (s.e820Scanned content).length =
      content.length / e820EntryBytes + 5 - (4 + (mmconfigEntries s.haveMmconfig).length) := by
  have hbytes : e820EntryBytes = 20 := rfl
  simp [Firmware.e820Scanned, hbytes]

theorem length_mmconfigEntries_le (mmconfig : Bool) : (mmconfigEntries mmconfig).length ≤ 1 := by
  cases mmconfig <;> decide

theorem entriesOf_append {bs : List Byte} (h : e820EntryBytes ∣ bs.length) (cs : List Byte) :
    entriesOf (bs ++ cs) = entriesOf bs ++ entriesOf cs := by
  rw [entriesOf, records_append (by decide) h, List.map_append]
  rfl

/-- The loop looks at the file's entries first. -/
theorem e820Scanned_starts {s : Firmware} {content : List Byte}
    (hmult : e820EntryBytes ∣ content.length) (hfit : 104 + content.length < 2 ^ 32) :
    ∃ later, s.e820Scanned content = entriesOf content ++ later := by
  have hbytes : e820EntryBytes = 20 := rfl
  have hextra := length_mmconfigEntries_le s.haveMmconfig
  have hhead : (toLE 4 (content.length / e820EntryBytes + 5) ++
      encodeEntries (fixedEntries ++ mmconfigEntries s.haveMmconfig)).length =
      4 + e820EntryBytes * (4 + (mmconfigEntries s.haveMmconfig).length) := by
    rw [List.length_append, length_toLE, length_encodeEntries, List.length_append,
      show fixedEntries.length = 4 from rfl]
  have hfile : load (s.e820Filled content) (mapEntry (s.e820Block content.length).base
      (4 + (mmconfigEntries s.haveMmconfig).length)) content.length = content := by
    rw [Firmware.e820Filled, mapEntry, ← hhead]
    exact load_store_right _ _ (by rw [hhead, hbytes]; omega)
  obtain ⟨k, hk⟩ := hmult
  have hcount : e820EntryBytes * (content.length / e820EntryBytes + 5 -
      (4 + (mmconfigEntries s.haveMmconfig).length)) =
      content.length + e820EntryBytes * (1 - (mmconfigEntries s.haveMmconfig).length) := by
    have hdiv : content.length / e820EntryBytes = k := by
      rw [hk, Nat.mul_div_cancel_left k (by decide)]
    rw [hdiv, hbytes]
    rw [hbytes] at hk
    omega
  rw [Firmware.e820Scanned, hcount, load_append, hfile, entriesOf_append ⟨k, hk⟩]
  exact ⟨_, rfl⟩

/-- With an MMCONFIG entry the loop looks at the file's entries only. -/
theorem e820Scanned_mmconfig {s : Firmware} {content : List Byte} (hmm : s.haveMmconfig = true)
    (hmult : e820EntryBytes ∣ content.length) (hfit : 104 + content.length < 2 ^ 32) :
    s.e820Scanned content = entriesOf content := by
  obtain ⟨later, hscanned⟩ := @e820Scanned_starts s content hmult hfit
  have hextra : (mmconfigEntries s.haveMmconfig).length = 1 := by rw [hmm]; rfl
  have hlen := length_e820Scanned s content
  rw [hscanned, List.length_append, length_entriesOf, hextra, Nat.add_sub_cancel] at hlen
  have hnil : later = [] := List.length_eq_zero_iff.mp (Nat.add_eq_left.mp hlen)
  rw [hscanned, hnil, List.append_nil]

/-- Storing the count, the fixed entries, the MMCONFIG entry and the file one
after the other. -/
theorem store_e820Filled (m : Mem) (e820 : BitVec 32) (count : Nat) (extra : List E820Entry)
    (content : List Byte)
    (hfit : 84 + e820EntryBytes * extra.length + content.length ≤ 2 ^ 32) :
    store (store (store (store m e820 (toLE 4 count)) (mapEntry e820 0)
      (encodeEntries fixedEntries)) (mapEntry e820 4) (encodeEntries extra))
      (mapEntry e820 (4 + extra.length)) content =
    store m e820 (toLE 4 count ++ encodeEntries (fixedEntries ++ extra) ++ content) := by
  have hfixed : mapEntry e820 0 = e820 + BitVec.ofNat 32 (toLE 4 count).length := by
    rw [length_toLE]
    rfl
  have hextra : mapEntry e820 4 =
      e820 + BitVec.ofNat 32 (toLE 4 count ++ encodeEntries fixedEntries).length := by
    rw [List.length_append, length_toLE, length_encodeEntries]
    rfl
  have hcontent : mapEntry e820 (4 + extra.length) = e820 + BitVec.ofNat 32
      (toLE 4 count ++ encodeEntries fixedEntries ++ encodeEntries extra).length := by
    simp only [List.length_append, length_toLE, length_encodeEntries, mapEntry]
    congr 2
    rw [show fixedEntries.length = 4 from rfl]
    ring
  have hlen : (encodeEntries fixedEntries).length = 80 := rfl
  rw [hfixed, store_append _ _ (by simp [hlen]), hextra, store_append _ _ (by simp [hlen]; omega),
    hcontent, store_append _ _ (by simp [hlen]; omega), encodeEntries_append,
    List.append_assoc (toLE 4 count)]

/-- The table starts with the count. -/
theorem load_store_count {m : Mem} {e820 : BitVec 32} {count : Nat} (hcount : count < 2 ^ 32)
    {bs : List Byte} (hfit : 4 + bs.length ≤ 2 ^ 32) :
    loadLE (store m e820 (toLE 4 count ++ bs)) e820 4 = count := by
  have hload : load (store m e820 (toLE 4 count ++ bs)) (e820 + BitVec.ofNat 32 0) 4 =
      slice (toLE 4 count ++ bs) 0 4 :=
    load_store_inside m e820 (by simp) (by simpa using hfit)
  have hslice : slice (toLE 4 count ++ bs) 0 4 = toLE 4 count := by
    simp [slice]
  rw [BitVec.add_zero] at hload
  rw [loadLE, hload, hslice, ofLE_toLE_of_lt hcount]

/-- Everything up to the loop: the count, the fixed entries, the MMCONFIG entry
and the file are written one after the other. -/
theorem extractE820_loop {s : Firmware} {i : Nat} (hfile : fileIndex s.files e820Name = some i) :
    let block := s.e820Block (s.fileSize i)
    let k := 4 + (mmconfigEntries s.haveMmconfig).length
    let m := store (store (store (store s.mem block.base
      (toLE 4 (s.fileSize i / e820EntryBytes + 5))) (mapEntry block.base 0)
      (encodeEntries fixedEntries)) (mapEntry block.base 4)
      (encodeEntries (mmconfigEntries s.haveMmconfig))) (mapEntry block.base k) (s.fileContent i)
    ∃ dev, extractE820 s = (rebaseLoop block.base k (loadLE m block.base 4 - k) >>= fun _ =>
        modify fun t => { t with e820Seg := (block.base >>> 4).setWidth 16 })
      { s.allocate block with mem := m, dev := dev, e820 := block.base } := by
  intro block k m
  have hlt := fileIndex_lt hfile
  have hne : ¬ (i : Int) = -1 := by omega
  have hsize : s.fileSize i = s.files[i].size.toNat := fileSize_eq hlt
  have hcontent : s.dev.fileBytes s.files[i] (s.fileSize i) = s.fileContent i := by
    rw [hsize, fileContent_eq hlt]
  have hextraBytes : e820EntryBytes * (mmconfigEntries s.haveMmconfig).length ≤ 2 ^ 32 :=
    (Nat.mul_le_mul_left _ (length_mmconfigEntries_le s.haveMmconfig)).trans (by decide)
  refine ⟨(s.dev.select s.files[i].select).skip (s.files[i].size.toNat), ?_⟩
  rw [extractE820, StateRun.bind_of_ok (fwCfgFileId_some hfile),
    StateRun.bind_of_ok (panicIf_of_not hne s), StateRun.bind_of_ok (fwCfgFileSize_lt hlt),
    malloc, StateRun.bind_of_ok (mallocAlign_apply _ _ s), ← hsize, fillMap,
    StateRun.bind_of_ok (StateRun.modify_apply _ _), StateRun.bind_of_ok (poke_apply _ _ _),
    StateRun.bind_of_ok (storeEntries_apply _ _ _ (by decide)),
    StateRun.bind_of_ok (StateRun.get_apply _)]
  simp only [allocate_haveMmconfig]
  rw [StateRun.bind_of_ok (storeEntries_apply _ _ _ hextraBytes),
    StateRun.bind_of_ok (fwCfgReadFile_lt _ _ (by simpa using hlt)),
    StateRun.bind_of_ok (peek_apply _ _ _)]
  simp only [allocate_mem, allocate_files, allocate_dev, ← hsize, hcontent]
  rfl

/-- With a table that fits in the address space, the loop runs over the
entries from the file on, up to the stored count. -/
theorem extractE820_apply {s : Firmware} {i : Nat} (hfile : fileIndex s.files e820Name = some i)
    (hfit : 104 + s.fileSize i < 2 ^ 32) :
    let block := s.e820Block (s.fileSize i)
    let m := s.e820Filled (s.fileContent i)
    let k := 4 + (mmconfigEntries s.haveMmconfig).length
    ∃ dev, extractE820 s = .ok () { s.allocate block with
      mem := store m (mapEntry block.base k)
        (encodeEntries (rebaseFirst (s.e820Scanned (s.fileContent i))))
      dev := dev
      lowmem := lowmemAfter s.lowmem (s.e820Scanned (s.fileContent i))
      e820 := block.base
      e820Seg := (block.base >>> 4).setWidth 16 } := by
  intro block m k
  have hbytes : e820EntryBytes = 20 := rfl
  have hlt := fileIndex_lt hfile
  have hcontent := length_fileContent hlt
  have hextra := length_mmconfigEntries_le s.haveMmconfig
  have hextraBytes : e820EntryBytes * (mmconfigEntries s.haveMmconfig).length ≤ 20 := by
    rw [hbytes]
    omega
  have hscanned : e820EntryBytes * (s.fileSize i / e820EntryBytes + 5 - k) ≤ 2 ^ 32 := by
    rw [hbytes]
    omega
  have hm : store s.mem block.base (toLE 4 (s.fileSize i / e820EntryBytes + 5) ++
      encodeEntries (fixedEntries ++ mmconfigEntries s.haveMmconfig) ++ s.fileContent i) = m := by
    simp only [m, block, Firmware.e820Filled, hcontent]
  have hcount : loadLE m block.base 4 = s.fileSize i / e820EntryBytes + 5 := by
    rw [← hm, List.append_assoc]
    apply load_store_count
    · rw [hbytes]
      omega
    · rw [List.length_append, encodeEntries_append, List.length_append, length_encodeEntries,
        length_encodeEntries, hcontent, show e820EntryBytes * fixedEntries.length = 80 from rfl]
      omega
  have hlen := length_e820Scanned s (s.fileContent i)
  rw [hcontent] at hlen
  have hload : load m (mapEntry block.base k)
      (e820EntryBytes * (s.e820Scanned (s.fileContent i)).length) =
      encodeEntries (s.e820Scanned (s.fileContent i)) := by
    rw [hlen, Firmware.e820Scanned, hcontent, encodeEntries_entriesOf (by simp)]
  obtain ⟨dev, hstart⟩ := extractE820_loop hfile
  rw [store_e820Filled _ _ _ _ _ (by omega), hm, hcount] at hstart
  have hrun := rebaseLoop_apply block.base k
    { s.allocate block with mem := m, dev := dev, e820 := block.base } hload
    (by rw [hlen]; exact hscanned)
  rw [hlen] at hrun
  refine ⟨dev, hstart.trans ?_⟩
  rw [StateRun.bind_of_ok hrun, StateRun.modify_apply]
  simp only [allocate_lowmem]
  rfl

/-- The rebased entries replace the file's in the block of bytes. -/
theorem store_e820Final (s : Firmware) (content : List Byte)
    (hmult : e820EntryBytes ∣ content.length) (hfit : 104 + content.length < 2 ^ 32) :
    store (s.e820Filled content)
      (mapEntry (s.e820Block content.length).base (4 + (mmconfigEntries s.haveMmconfig).length))
      (encodeEntries (rebaseFirst (s.e820Scanned content))) =
    store s.mem (s.e820Block content.length).base
      (toLE 4 (content.length / e820EntryBytes + 5) ++ encodeEntries
        (fixedEntries ++ mmconfigEntries s.haveMmconfig ++
          rebaseFirst (s.e820Scanned content))) := by
  have hbytes : e820EntryBytes = 20 := rfl
  have hextra := length_mmconfigEntries_le s.haveMmconfig
  have hlen := length_e820Scanned s content
  have hhead : (toLE 4 (content.length / e820EntryBytes + 5) ++
      encodeEntries (fixedEntries ++ mmconfigEntries s.haveMmconfig)).length =
      4 + e820EntryBytes * (4 + (mmconfigEntries s.haveMmconfig).length) := by
    rw [List.length_append, length_toLE, length_encodeEntries, List.length_append,
      show fixedEntries.length = 4 from rfl]
  have hcover : content.length ≤ (encodeEntries (rebaseFirst (s.e820Scanned content))).length := by
    obtain ⟨k, hk⟩ := hmult
    rw [length_encodeEntries, length_rebaseFirst, hlen, hk, Nat.mul_div_cancel_left k (by decide)]
    exact Nat.mul_le_mul_left _ (by omega)
  rw [Firmware.e820Filled, mapEntry, ← hhead,
    ← store_append _ _ (by rw [hhead, hbytes]; omega), store_store_cover _ _ hcover,
    store_append _ _ (by
      rw [hhead, length_encodeEntries, length_rebaseFirst, hlen, hbytes]
      omega),
    List.append_assoc, ← encodeEntries_append]

/-! ### The one allocation -/

theorem storeEntries_keepsHeap (e820 : BitVec 32) (i : Nat) (es : List E820Entry) :
    KeepsHeap (storeEntries e820 i es) := by
  induction es generalizing i with
  | nil => exact KeepsHeap.pure _
  | cons e es ih => exact (KeepsHeap.poke _ _).bind fun _ => ih (i + 1)

theorem rebaseLoop_keepsHeap (e820 : BitVec 32) (i n : Nat) :
    KeepsHeap (rebaseLoop e820 i n) := by
  induction n generalizing i with
  | zero => exact KeepsHeap.pure _
  | succ n ih =>
    refine (KeepsHeap.peek _ _).bind fun addr => KeepsHeap.ite ?_ (ih (i + 1))
    refine (KeepsHeap.peek _ _).bind fun size => KeepsHeap.bind ?_ fun _ => ?_
    · exact KeepsHeap.modify fun _ => rfl
    · exact (KeepsHeap.poke _ _).bind fun _ => KeepsHeap.poke _ _

theorem fillMap_keepsHeap (id : Int) (size : BitVec 32) (nrMap : Nat) (e820 : BitVec 32) :
    KeepsHeap (fillMap id size nrMap e820) := by
  refine KeepsHeap.bind ?_ fun _ => (KeepsHeap.poke _ _).bind fun _ => ?_
  · exact KeepsHeap.modify fun _ => rfl
  refine (storeEntries_keepsHeap _ _ _).bind fun _ => KeepsHeap.get.bind fun s => ?_
  refine (storeEntries_keepsHeap _ _ _).bind fun _ => ?_
  refine (fwCfgReadFile_keepsHeap _ _ _).bind fun _ => (KeepsHeap.peek _ _).bind fun count => ?_
  refine (rebaseLoop_keepsHeap _ _ _).bind fun _ => ?_
  exact KeepsHeap.modify fun _ => rfl

theorem extractE820_allocs {s s' : Firmware} {i : Nat}
    (hfile : fileIndex s.files e820Name = some i) (hrun : extractE820 s = .ok () s') :
    s'.allocs = s.e820Block (s.fileSize i) :: s.allocs := by
  have hlt := fileIndex_lt hfile
  have hne : ¬ (i : Int) = -1 := by omega
  rw [extractE820, StateRun.bind_of_ok (fwCfgFileId_some hfile),
    StateRun.bind_of_ok (panicIf_of_not hne s), StateRun.bind_of_ok (fwCfgFileSize_lt hlt),
    malloc, StateRun.bind_of_ok (mallocAlign_apply _ _ s), ← fileSize_eq hlt] at hrun
  have hkept := (fillMap_keepsHeap _ _ _ _).of_ok hrun
  have hallocs := congrArg (fun heap => heap.2.2) hkept
  exact hallocs.trans (allocate_allocs s (s.e820Block (s.fileSize i)))

/-! ### When the published map is the intended one -/

theorem e820Block_size {s : Firmware} {size : Nat} (hmult : e820EntryBytes ∣ size) :
    (s.e820Block size).size.toNat = (104 + size) % 2 ^ 32 := by
  obtain ⟨k, rfl⟩ := hmult
  have hdiv : e820EntryBytes * k / e820EntryBytes = k := Nat.mul_div_cancel_left k (by decide)
  rw [Firmware.e820Block, hdiv]
  change (4 + 20 * (k + 5)) % 2 ^ 32 = (104 + 20 * k) % 2 ^ 32
  congr 1
  omega

/-- A published map is the intended one exactly on machines with an MMCONFIG
window: without one, the stored count includes an entry that nothing wrote. -/
theorem extractE820_publishes_iff {s : Firmware} {i : Nat}
    (hfile : fileIndex s.files e820Name = some i) (hmult : e820EntryBytes ∣ s.fileSize i) :
    (∃ s', extractE820 s = .ok () s' ∧
      PublishesMap s' (memoryMap s.haveMmconfig (entriesOf (s.fileContent i)))) ↔
    s.haveMmconfig = true ∧ 104 + s.fileSize i < 2 ^ 32 := by
  have hlt := fileIndex_lt hfile
  have hcontent := length_fileContent hlt
  have hbytes : e820EntryBytes = 20 := rfl
  have htable : (memoryMap s.haveMmconfig (entriesOf (s.fileContent i))).length =
      4 + (mmconfigEntries s.haveMmconfig).length + s.fileSize i / e820EntryBytes := by
    rw [length_memoryMap, length_entriesOf, hcontent]
  have hblock : (s.e820Block (s.fileSize i)).size.toNat = (104 + s.fileSize i) % 2 ^ 32 :=
    e820Block_size hmult
  have hsizeLt : s.fileSize i < 2 ^ 32 := by
    rw [fileSize_eq hlt]
    exact s.files[i].size.isLt
  have hscanned := length_e820Scanned s (s.fileContent i)
  have hextra := length_mmconfigEntries_le s.haveMmconfig
  rw [hcontent] at hscanned
  have hmem (hfit : 104 + s.fileSize i < 2 ^ 32) :=
    store_e820Final s (s.fileContent i) (by rwa [hcontent]) (by rwa [hcontent])
  rw [hcontent] at hmem
  have hn (hfit : 104 + s.fileSize i < 2 ^ 32) : s.fileSize i / e820EntryBytes + 5 < 2 ^ 32 := by
    rw [hbytes]
    omega
  have hbs (hfit : 104 + s.fileSize i < 2 ^ 32) : 4 + (encodeEntries (fixedEntries ++
      mmconfigEntries s.haveMmconfig ++ rebaseFirst (s.e820Scanned (s.fileContent i)))).length ≤
      2 ^ 32 := by
    rw [length_encodeEntries, List.length_append, List.length_append, length_rebaseFirst, hscanned,
      hbytes, show fixedEntries.length = 4 from rfl]
    omega
  constructor
  · rintro ⟨s', hrun, ⟨a, ha, -, hroom⟩, hcount, -⟩
    rw [extractE820_allocs hfile hrun] at ha
    obtain rfl : s.e820Block (s.fileSize i) = a := Option.some.inj ha
    -- a table larger than the address space has a small block
    have hfit : 104 + s.fileSize i < 2 ^ 32 := by
      rw [hblock, htable, hbytes] at hroom
      omega
    refine ⟨?_, hfit⟩
    obtain ⟨dev, hrun'⟩ := extractE820_apply hfile hfit
    rw [hrun'] at hrun
    obtain ⟨-, rfl⟩ := EStateM.Result.ok.inj hrun
    rw [hmem hfit] at hcount
    change loadLE (store s.mem (s.e820Block (s.fileSize i)).base _) _ 4 = _ at hcount
    rw [load_store_count (hn hfit) (hbs hfit), htable] at hcount
    cases hmm : s.haveMmconfig with
    | true => rfl
    | false =>
      rw [hmm, show (mmconfigEntries false).length = 0 from rfl] at hcount
      omega
  · rintro ⟨hmm, hfit⟩
    obtain ⟨dev, hrun⟩ := extractE820_apply hfile hfit
    refine ⟨_, hrun, ⟨s.e820Block (s.fileSize i), ?_, rfl, ?_⟩, ?_, ?_⟩
    · simp
    · rw [hblock, htable, hmm, show (mmconfigEntries true).length = 1 from rfl, hbytes]
      omega
    · rw [hmem hfit]
      change loadLE (store s.mem (s.e820Block (s.fileSize i)).base _) _ 4 = _
      rw [load_store_count (hn hfit) (hbs hfit), htable, hmm,
        show (mmconfigEntries true).length = 1 from rfl]
      omega
    · have hlen : (encodeEntries (memoryMap s.haveMmconfig (entriesOf (s.fileContent i)))).length =
          e820EntryBytes * (memoryMap s.haveMmconfig (entriesOf (s.fileContent i))).length :=
        length_encodeEntries _
      have hbound := hbs hfit
      have hmap : fixedEntries ++ mmconfigEntries s.haveMmconfig ++
          rebaseFirst (s.e820Scanned (s.fileContent i)) =
          memoryMap s.haveMmconfig (entriesOf (s.fileContent i)) := by
        rw [e820Scanned_mmconfig hmm (by rwa [hcontent]) (by rwa [hcontent])]
        rfl
      rw [hmap] at hbound
      rw [hmem hfit, hmap, ← hlen]
      have hhead : (toLE 4 (s.fileSize i / e820EntryBytes + 5)).length = 4 := length_toLE 4 _
      have hload := load_store_right s.mem (s.e820Block (s.fileSize i)).base
        (by rwa [hhead] : (toLE 4 (s.fileSize i / e820EntryBytes + 5)).length +
          (encodeEntries (memoryMap s.haveMmconfig (entriesOf (s.fileContent i)))).length ≤ 2 ^ 32)
      rw [hhead] at hload
      exact hload

/-- A machine with 64 MiB of memory in one `etc/e820` entry. Memory is full of
old bytes. -/
def e820Machine (mmconfig : Bool) : Firmware :=
  { Firmware.initial
      { entry := fun _ => toLE 8 0 ++ toLE 8 0x4000000 ++ toLE 4 1
        key := 0#16
        pos := 0 }
      (fun _ => 0xaa#8) 0xf0000#32 0xf4000#32 with
    files := [{ size := 20#32, select := 0x20#16, name := paddedName e820Name }]
    haveMmconfig := mmconfig }

theorem extractE820_publishes_q35 :
    ∃ s', extractE820 (e820Machine true) = .ok () s' ∧
      PublishesMap s' (memoryMap true [{ addr := 0#64, size := 0x4000000#64, type := E820_RAM }]) := by
  have hentries : entriesOf ((e820Machine true).fileContent 0) =
      [{ addr := 0#64, size := 0x4000000#64, type := E820_RAM }] := by decide +kernel
  have hpublishes := (extractE820_publishes_iff (s := e820Machine true) (i := 0)
    (by decide +kernel) (by decide)).mpr ⟨rfl, by decide⟩
  rwa [hentries] at hpublishes

/-- Without MMCONFIG the table says six entries, and the bytes of the sixth
are what the memory held before. -/
theorem extractE820_overcounts_piix :
    ¬ ∃ s', extractE820 (e820Machine false) = .ok () s' ∧
      PublishesMap s' (memoryMap false (entriesOf ((e820Machine false).fileContent 0))) := by
  rintro ⟨s', hrun, -, hcount, -⟩
  have hsix : loadLE (StateRun.final (extractE820 (e820Machine false))).mem
      (StateRun.final (extractE820 (e820Machine false))).e820 4 = 6 := by decide +kernel
  have hfive : (memoryMap false (entriesOf ((e820Machine false).fileContent 0))).length = 5 := by
    decide +kernel
  rw [hrun] at hsix
  rw [hfive] at hcount
  exact absurd (hsix.symm.trans hcount) (by decide)

end Qboot
