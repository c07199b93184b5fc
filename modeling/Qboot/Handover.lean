import Qboot.Int15
import Qboot.Linuxboot.Boot

/-!
The memory map as the kernel gets it: by INT 15h calls, as the PVH table, or
as the multiboot map. All three are the table in memory.
-/

namespace Qboot

open Bytes ByteMemory

/-! ### Copying one entry -/

/-- The three assignments copy the entry as one block. -/
theorem copyFields_apply {src dst : BitVec 32} {s : Firmware} {e : E820Entry}
    (hload : load s.mem src e820EntryBytes = e.encode)
    (happ : Apart src e820EntryBytes dst e820EntryBytes) :
    copyFields src dst s = .ok () (s.withBlock dst e.encode) := by
  obtain ⟨haddr, hsize, htype⟩ := load_encode hload
  have hbytes : e820EntryBytes = 20 := rfl
  have hparts {i j k n : Nat} (hi : i + j ≤ 20) (hk : k + n ≤ 20) :
      Apart (src + BitVec.ofNat 32 i) j (dst + BitVec.ofNat 32 k) n :=
    ((happ.part (by rwa [hbytes]) (by decide)).symm.part (by rwa [hbytes]) (by decide)).symm
  have hzero : dst + BitVec.ofNat 32 0 = dst := BitVec.add_zero dst
  have hsize' : load (store s.mem dst (toLE 8 e.addr.toNat)) (src + 8#32) 8 =
      toLE 8 e.size.toNat := by
    have happ' := @hparts 8 8 0 8 (by decide) (by decide)
    rw [hzero] at happ'
    rw [load_store_outside s.mem (by decide) (by rwa [length_toLE]), hsize]
  have hjoin : store (store s.mem dst (toLE 8 e.addr.toNat)) (dst + 8#32) (toLE 8 e.size.toNat) =
      store s.mem dst (toLE 8 e.addr.toNat ++ toLE 8 e.size.toNat) := by
    have h := @store_append _ s.mem dst (toLE 8 e.addr.toNat) (toLE 8 e.size.toNat) (by simp)
    rwa [length_toLE] at h
  have htype' : load (store s.mem dst (toLE 8 e.addr.toNat ++ toLE 8 e.size.toNat)) (src + 16#32) 4 =
      toLE 4 e.type.toNat := by
    have happ' := @hparts 16 4 0 16 (by decide) (by decide)
    rw [hzero] at happ'
    have hlen : (toLE 8 e.addr.toNat ++ toLE 8 e.size.toNat).length = 16 := by simp
    rw [load_store_outside s.mem (by decide) (by rwa [hlen]), htype]
  have hall : store (store s.mem dst (toLE 8 e.addr.toNat ++ toLE 8 e.size.toNat)) (dst + 16#32)
      (toLE 4 e.type.toNat) = store s.mem dst e.encode := by
    have h := @store_append _ s.mem dst (toLE 8 e.addr.toNat ++ toLE 8 e.size.toNat)
      (toLE 4 e.type.toNat) (by simp)
    rwa [List.length_append, length_toLE, length_toLE] at h
  rw [copyFields, StateRun.bind_of_ok (peek_apply _ _ s), haddr,
    StateRun.bind_of_ok (poke_apply _ _ s), StateRun.bind_of_ok (peek_apply _ _ _), hsize',
    StateRun.bind_of_ok (poke_apply _ _ _), hjoin, StateRun.bind_of_ok (peek_apply _ _ _), htype',
    poke_apply, hall]
  rfl

/-! ### The PVH table -/

/-- `struct hvm_memmap_table_entry` -/
structure HvmMemmapTableEntry where
  addr : BitVec 64
  size : BitVec 64
  type : BitVec 32
  reserved : BitVec 32
deriving DecidableEq

def HvmMemmapTableEntry.decode (bs : List Byte) : HvmMemmapTableEntry where
  addr := BitVec.ofNat 64 (ofLE (slice bs 0 8))
  size := BitVec.ofNat 64 (ofLE (slice bs 8 8))
  type := BitVec.ofNat 32 (ofLE (slice bs 16 4))
  reserved := BitVec.ofNat 32 (ofLE (slice bs 20 4))

/-- The record of an entry: its fields and a reserved word of zero. -/
def E820Entry.pvh (e : E820Entry) : HvmMemmapTableEntry :=
  { addr := e.addr, size := e.size, type := e.type, reserved := 0#32 }

/-- The table that `start_info` points to. -/
def Firmware.pvhTable (s : Firmware) : List HvmMemmapTableEntry :=
  (records hvmMemmapEntryBytes (load s.mem (s.startInfo.memmapPaddr.setWidth 32)
    (hvmMemmapEntryBytes * s.startInfo.memmapEntries.toNat))).map HvmMemmapTableEntry.decode

/-- The bytes of a record. -/
def E820Entry.pvhBytes (e : E820Entry) : List Byte := e.encode ++ List.replicate 4 0

@[simp] theorem length_pvhBytes (e : E820Entry) : e.pvhBytes.length = hvmMemmapEntryBytes := by
  simp [E820Entry.pvhBytes, e820EntryBytes, hvmMemmapEntryBytes]

theorem decode_pvhBytes (e : E820Entry) : HvmMemmapTableEntry.decode e.pvhBytes = e.pvh := by
  have haddr := slice_append_middle [] (toLE 8 e.addr.toNat)
    (toLE 8 e.size.toNat ++ toLE 4 e.type.toNat ++ List.replicate 4 0)
  have hsize := slice_append_middle (toLE 8 e.addr.toNat) (toLE 8 e.size.toNat)
    (toLE 4 e.type.toNat ++ List.replicate 4 0)
  have htype := slice_append_middle (toLE 8 e.addr.toNat ++ toLE 8 e.size.toNat)
    (toLE 4 e.type.toNat) (List.replicate 4 0)
  have hreserved := slice_append_right
    (toLE 8 e.addr.toNat ++ toLE 8 e.size.toNat ++ toLE 4 e.type.toNat) (List.replicate 4 0)
  simp only [List.nil_append, List.length_nil, List.length_append, length_toLE,
    List.length_replicate, ← List.append_assoc] at haddr hsize htype hreserved
  have hword (x : BitVec 64) : BitVec.ofNat 64 (ofLE (toLE 8 x.toNat)) = x := ofNat_ofLE_toLE 8 x
  have hhalf (x : BitVec 32) : BitVec.ofNat 32 (ofLE (toLE 4 x.toNat)) = x := ofNat_ofLE_toLE 4 x
  rw [HvmMemmapTableEntry.decode, E820Entry.pvhBytes, E820Entry.encode, haddr, hsize, htype,
    hreserved, hword, hword, hhalf]
  rfl

/-- The bytes of the whole table. -/
def pvhBytesOf (es : List E820Entry) : List Byte := (es.map E820Entry.pvhBytes).flatten

@[simp] theorem length_pvhBytesOf (es : List E820Entry) :
    (pvhBytesOf es).length = hvmMemmapEntryBytes * es.length := by
  have hrecords : ∀ r ∈ es.map E820Entry.pvhBytes, r.length = hvmMemmapEntryBytes := by simp
  rw [pvhBytesOf, length_flatten_records hrecords, List.length_map]

theorem pvhEntry_add (pvh : BitVec 32) (i k : Nat) :
    pvhEntry pvh (i + k) = pvhEntry pvh i + BitVec.ofNat 32 (hvmMemmapEntryBytes * k) := by
  rw [pvhEntry, pvhEntry, Nat.mul_add, BitVec.ofNat_add, ← add_assoc]

/-- An entry of the table is apart from every part of a block that is apart
from the table. -/
theorem apart_mapEntry {e820 q : BitVec 32} {count i n k j : Nat}
    (happ : Apart e820 (4 + e820EntryBytes * count) q n)
    (htable : 4 + e820EntryBytes * count ≤ 2 ^ 32) (hi : i < count) (hn : n ≤ 2 ^ 32)
    (hk : k + j ≤ n) : Apart (mapEntry e820 i) e820EntryBytes (q + BitVec.ofNat 32 k) j := by
  have hin : e820EntryBytes * (i + 1) ≤ e820EntryBytes * count := Nat.mul_le_mul_left _ hi
  rw [Nat.mul_succ] at hin
  exact ((happ.part (by omega) htable).symm.part hk hn).symm

section Pvh

variable {pvh : BitVec 32} {es : List E820Entry} {i : Nat} {s : Firmware}

/-- Copying an entry to zeroed memory stores its record. -/
theorem copyFields_pvh (hheld : MapHeld s.mem s.e820 es) (hi : i < es.length)
    (hfit : hvmMemmapEntryBytes * es.length ≤ 2 ^ 32)
    (happ : Apart s.e820 (4 + e820EntryBytes * es.length) pvh (hvmMemmapEntryBytes * es.length))
    (hzero : load s.mem (pvhEntry pvh i) hvmMemmapEntryBytes =
      List.replicate hvmMemmapEntryBytes 0) :
    copyFields (mapEntry s.e820 i) (pvhEntry pvh i) s =
      .ok () (s.withBlock (pvhEntry pvh i) es[i].pvhBytes) := by
  have hbytes : hvmMemmapEntryBytes = 24 := rfl
  have hentry : e820EntryBytes = 20 := rfl
  have hfit' : 24 * es.length ≤ 2 ^ 32 := hfit
  have hblock : Apart (mapEntry s.e820 i) e820EntryBytes (pvhEntry pvh i) e820EntryBytes :=
    apart_mapEntry happ (by rw [hentry]; omega) hi hfit (by rw [hentry, hbytes]; omega)
  have htail : load s.mem (pvhEntry pvh i + BitVec.ofNat 32 es[i].encode.length) 4 =
      List.replicate 4 0 := by
    rw [hbytes, show 24 = e820EntryBytes + 4 from rfl, load_append, List.replicate_add] at hzero
    rw [length_encode]
    exact (List.append_inj hzero (by simp)).2
  have hstore := @store_load_append _ s.mem (pvhEntry pvh i) es[i].encode (List.replicate 4 0)
    (by rw [List.length_replicate]; exact htail) (by rw [length_encode, hentry]; simp)
  rw [copyFields_apply (hheld.entry hi) hblock]
  exact congrArg (fun m => EStateM.Result.ok () { s with mem := m }) hstore

/-- On zeroed memory the loop stores the records of the entries from `i` on. -/
theorem pvhLoop_apply {n : Nat} (hheld : MapHeld s.mem s.e820 es) (hn : es.length ≤ i + n)
    (hfit : hvmMemmapEntryBytes * es.length ≤ 2 ^ 32)
    (happ : Apart s.e820 (4 + e820EntryBytes * es.length) pvh (hvmMemmapEntryBytes * es.length))
    (hzero : load s.mem (pvhEntry pvh i) (hvmMemmapEntryBytes * (es.length - i)) =
      List.replicate (hvmMemmapEntryBytes * (es.length - i)) 0) :
    pvhLoop pvh n i s = .ok () (s.withBlock (pvhEntry pvh i) (pvhBytesOf (es.drop i))) := by
  have hbytes : hvmMemmapEntryBytes = 24 := rfl
  have hentry : e820EntryBytes = 20 := rfl
  have hfit' : 24 * es.length ≤ 2 ^ 32 := hfit
  have hread : ofLE (toLE 4 es.length) = es.length := ofLE_toLE_of_lt (by omega)
  induction n generalizing i s with
  | zero =>
    have hend : es.drop i = [] := List.drop_eq_nil_of_le hn
    rw [hend]
    simp [pvhLoop, Firmware.withBlock, pvhBytesOf]
  | succ n ih =>
    have hcount : peek s.e820 4 s = .ok (toLE 4 es.length) s := by rw [peek_apply, hheld.parts.1]
    rw [pvhLoop, StateRun.bind_of_ok (StateRun.get_apply s)]
    refine (StateRun.bind_of_ok hcount).trans ?_
    rw [hread]
    by_cases hlt : i < es.length
    · have hrest : es.length - i = 1 + (es.length - (i + 1)) := by omega
      rw [hrest, Nat.mul_add, Nat.mul_one, load_append, List.replicate_add] at hzero
      obtain ⟨hfirst, hlater⟩ := List.append_inj hzero (by simp)
      have hcopy := copyFields_pvh hheld hlt hfit happ hfirst
      have hnext : pvhEntry pvh (i + 1) =
          pvhEntry pvh i + BitVec.ofNat 32 es[i].pvhBytes.length := by
        rw [pvhEntry_add, length_pvhBytes, Nat.mul_one]
      have hheld' : MapHeld (s.withBlock (pvhEntry pvh i) es[i].pvhBytes).mem s.e820 es := by
        refine hheld.store (by rw [hentry]; omega) ?_
        rw [length_pvhBytes]
        exact (happ.symm.part (by rw [hbytes]; omega) hfit).symm
      have hlater' : load (s.withBlock (pvhEntry pvh i) es[i].pvhBytes).mem (pvhEntry pvh (i + 1))
          (hvmMemmapEntryBytes * (es.length - (i + 1))) =
          List.replicate (hvmMemmapEntryBytes * (es.length - (i + 1))) 0 := by
        rw [← hlater, pvhEntry_add, Nat.mul_one]
        refine load_store_outside s.mem (by rw [hbytes]; omega) ?_
        have h := apart_parts (pvhEntry pvh i) (i := hvmMemmapEntryBytes)
          (j := hvmMemmapEntryBytes * (es.length - (i + 1))) (k := 0) (n := hvmMemmapEntryBytes)
          (by right; omega) (by rw [hbytes]; omega) (by rw [hbytes]; omega)
        rw [BitVec.add_zero] at h
        rwa [length_pvhBytes]
      have hrun := @ih (i + 1) (s.withBlock (pvhEntry pvh i) es[i].pvhBytes) hheld' (by omega) happ
        hlater'
      have hdrop : es.drop i = es[i] :: es.drop (i + 1) := List.drop_eq_getElem_cons hlt
      rw [if_pos hlt]
      refine (StateRun.bind_of_ok hcopy).trans (hrun.trans ?_)
      have hjoin := @store_append _ s.mem (pvhEntry pvh i) es[i].pvhBytes
        (pvhBytesOf (es.drop (i + 1)))
        (by rw [length_pvhBytes, length_pvhBytesOf, List.length_drop, hbytes]; omega)
      rw [hdrop, hnext]
      exact congrArg (fun m => EStateM.Result.ok () { s with mem := m }) hjoin
    · have hend : es.drop i = [] := List.drop_eq_nil_of_le (by omega)
      rw [if_neg hlt, hend]
      simp [Firmware.withBlock, pvhBytesOf]

end Pvh

/-- Where `pvh_e820_setup` puts a table of `count` records. -/
def Firmware.pvhBlock (s : Firmware) (count : Nat) : BitVec 32 :=
  (s.request .low (BitVec.ofNat 32 (hvmMemmapEntryBytes * count)) 16#32).base

@[simp] theorem pvhEntry_zero (pvh : BitVec 32) : pvhEntry pvh 0 = pvh := by
  simp [pvhEntry]

/-- `pvh_e820_setup` stores the records of the entries of the map. -/
theorem pvhE820Setup_apply {es : List E820Entry} {s : Firmware} (hheld : MapHeld s.mem s.e820 es)
    (hfit : hvmMemmapEntryBytes * es.length < 2 ^ 32)
    (happ : Apart s.e820 (4 + e820EntryBytes * es.length) (s.pvhBlock es.length)
      (hvmMemmapEntryBytes * es.length)) :
    pvhE820Setup s = .ok ()
      { (s.allocate (s.request .low (BitVec.ofNat 32 (hvmMemmapEntryBytes * es.length))
          16#32)).withBlock (s.pvhBlock es.length) (pvhBytesOf es) with
        startInfo := { s.startInfo with
          memmapPaddr := (s.pvhBlock es.length).setWidth 64
          memmapEntries := BitVec.ofNat 32 es.length } } := by
  have hfit' : 24 * es.length < 2 ^ 32 := hfit
  have hentry : e820EntryBytes = 20 := rfl
  have hbytes : hvmMemmapEntryBytes = 24 := rfl
  have hlen : es.length < 2 ^ 32 := by omega
  let a := s.request .low (BitVec.ofNat 32 (hvmMemmapEntryBytes * es.length)) 16#32
  let s₁ := (s.allocate a).withBlock (s.pvhBlock es.length)
    (List.replicate (hvmMemmapEntryBytes * es.length) 0)
  have hcount : peek s.e820 4 s = .ok (toLE 4 es.length) s := by rw [peek_apply, hheld.parts.1]
  have hread : ofLE (toLE 4 es.length) = es.length := ofLE_toLE_of_lt hlen
  have hsize : (BitVec.ofNat 32 (hvmMemmapEntryBytes * es.length)).toNat =
      hvmMemmapEntryBytes * es.length := by
    rw [BitVec.toNat_ofNat, Nat.mod_eq_of_lt hfit]
  have hheld₁ : MapHeld s₁.mem s₁.e820 es := by
    have h : MapHeld (store s.mem (s.pvhBlock es.length)
        (List.replicate (hvmMemmapEntryBytes * es.length) 0)) s.e820 es :=
      hheld.store (by rw [hentry]; omega) (by rwa [List.length_replicate])
    simpa [s₁, Firmware.withBlock] using h
  have hzero : load s₁.mem (pvhEntry (s.pvhBlock es.length) 0)
      (hvmMemmapEntryBytes * (es.length - 0)) =
      List.replicate (hvmMemmapEntryBytes * (es.length - 0)) 0 := by
    have h := load_store (s.allocate a).mem (s.pvhBlock es.length)
      (by rw [List.length_replicate]; exact hfit.le :
        (List.replicate (hvmMemmapEntryBytes * es.length) (0 : Byte)).length ≤ 2 ^ 32)
    rw [List.length_replicate] at h
    rw [pvhEntry_zero]
    exact h
  have happ₁ : Apart s₁.e820 (4 + e820EntryBytes * es.length) (s.pvhBlock es.length)
      (hvmMemmapEntryBytes * es.length) := by simpa [s₁, Firmware.withBlock] using happ
  have hloop := @pvhLoop_apply _ es 0 s₁ (2 ^ 32) hheld₁ (by omega) hfit.le happ₁ hzero
  rw [pvhEntry_zero, List.drop_zero] at hloop
  let s₂ := s₁.withBlock (s.pvhBlock es.length) (pvhBytesOf es)
  have hheld₂ : MapHeld s₂.mem s₂.e820 es :=
    hheld₁.store (by rw [hentry]; omega) (by rw [length_pvhBytesOf]; exact happ₁)
  have hcount₂ : peek s.e820 4 s₂ = .ok (toLE 4 es.length) s₂ := by
    have he820 : s₂.e820 = s.e820 := by simp [s₂, s₁, Firmware.withBlock]
    rw [peek_apply, ← he820, hheld₂.parts.1]
  have hcover : s₂ = (s.allocate a).withBlock (s.pvhBlock es.length) (pvhBytesOf es) := by
    have hlen' : (List.replicate (hvmMemmapEntryBytes * es.length) (0 : Byte)).length =
        (pvhBytesOf es).length := by
      rw [List.length_replicate, length_pvhBytesOf]
    exact congrArg (fun m => { s.allocate a with mem := m })
      (store_store_cover (s.allocate a).mem (s.pvhBlock es.length) hlen'.le)
  have hinfo : s₂.startInfo = s.startInfo := allocate_startInfo s a
  rw [← hinfo, ← hcover]
  rw [pvhE820Setup, StateRun.bind_of_ok (StateRun.get_apply s)]
  refine (StateRun.bind_of_ok hcount).trans ?_
  rw [hread]
  refine (StateRun.bind_of_ok (mallocAlign_apply _ 16#32 s)).trans ?_
  rw [hsize]
  refine (StateRun.bind_of_ok (poke_apply _ _ _)).trans ((StateRun.bind_of_ok hloop).trans ?_)
  refine (StateRun.bind_of_ok hcount₂).trans ?_
  rw [hread]
  rfl

/-- The table of records in memory is the table that `start_info` points to. -/
theorem pvhTable_of_load {es : List E820Entry} {s : Firmware} {p : BitVec 32}
    (hpaddr : s.startInfo.memmapPaddr = p.setWidth 64)
    (hcount : s.startInfo.memmapEntries.toNat = es.length)
    (hload : load s.mem p (hvmMemmapEntryBytes * es.length) = pvhBytesOf es) :
    s.pvhTable = es.map E820Entry.pvh := by
  have hback : (p.setWidth 64).setWidth 32 = p := by simp
  have hrecords : ∀ r ∈ es.map E820Entry.pvhBytes, r.length = hvmMemmapEntryBytes := by simp
  rw [Firmware.pvhTable, hpaddr, hback, hcount, hload, pvhBytesOf,
    records_flatten (by decide) hrecords, List.map_map]
  exact List.map_congr_left fun e _ => decode_pvhBytes e

/-- `start_info` points to the records of the entries of the map. -/
theorem pvhE820Setup_table {es : List E820Entry} {s : Firmware} (hheld : MapHeld s.mem s.e820 es)
    (hfit : hvmMemmapEntryBytes * es.length < 2 ^ 32)
    (happ : Apart s.e820 (4 + e820EntryBytes * es.length) (s.pvhBlock es.length)
      (hvmMemmapEntryBytes * es.length)) :
    ∃ s', pvhE820Setup s = .ok () s' ∧ s'.startInfo.memmapEntries.toNat = es.length ∧
      s'.pvhTable = es.map E820Entry.pvh := by
  have hfit' : 24 * es.length < 2 ^ 32 := hfit
  have hnat : (BitVec.ofNat 32 es.length).toNat = es.length := by
    rw [BitVec.toNat_ofNat, Nat.mod_eq_of_lt (by omega)]
  refine ⟨_, pvhE820Setup_apply hheld hfit happ, hnat, pvhTable_of_load rfl hnat ?_⟩
  have h := load_store (s.allocate (s.request .low (BitVec.ofNat 32
      (hvmMemmapEntryBytes * es.length)) 16#32)).mem (s.pvhBlock es.length)
    (by rw [length_pvhBytesOf]; exact hfit.le : (pvhBytesOf es).length ≤ 2 ^ 32)
  rwa [length_pvhBytesOf] at h

/-! ### The multiboot map -/

/-- `sizeof(struct mb_info)` -/
def mbInfoBytes : Nat := 88

/-- The map from `mmap_addr` on, as a kernel reads it: each entry says how
many bytes follow its size field, and the walk ends when `mmap_length` bytes
are consumed. `none` means that `n` steps were not enough. -/
def walkMmap (m : Mem) (mmapAddr mmapLength : BitVec 32) : Nat → Nat → Option (List E820Entry)
  | 0, _ => none
  | n + 1, consumed =>
    if mmapLength.toNat ≤ consumed then some []
    else
      let p := mmapAddr + BitVec.ofNat 32 consumed
      (walkMmap m mmapAddr mmapLength n (consumed + ofLE (load m p 4) + 4)).map
        (E820Entry.decode (load m (p + 4#32) e820EntryBytes) :: ·)

/-- The bytes of an entry of the multiboot map. -/
def E820Entry.mmapBytes (e : E820Entry) : List Byte := toLE 4 e820EntryBytes ++ e.encode

@[simp] theorem length_mmapBytes (e : E820Entry) : e.mmapBytes.length = mbMmapEntryBytes := by
  simp [E820Entry.mmapBytes, e820EntryBytes, mbMmapEntryBytes]

/-- The bytes of a whole map. -/
def mmapBytesOf (es : List E820Entry) : List Byte := (es.map E820Entry.mmapBytes).flatten

@[simp] theorem length_mmapBytesOf (es : List E820Entry) :
    (mmapBytesOf es).length = mbMmapEntryBytes * es.length := by
  have hrecords : ∀ r ∈ es.map E820Entry.mmapBytes, r.length = mbMmapEntryBytes := by simp
  rw [mmapBytesOf, length_flatten_records hrecords, List.length_map]

/-- The three blocks that the map loop works on do not meet. -/
structure MmapApart (e820 mb mmapAddr : BitVec 32) (count : Nat) : Prop where
  table_info : Apart e820 (4 + e820EntryBytes * count) mb mbInfoBytes
  table_mmap : Apart e820 (4 + e820EntryBytes * count) mmapAddr (mbMmapEntryBytes * count)
  info_mmap : Apart mb mbInfoBytes mmapAddr (mbMmapEntryBytes * count)

/-- The map after `i` iterations of the loop. -/
structure MmapFilled (m : Mem) (e820 mb mmapAddr : BitVec 32) (es : List E820Entry) (i : Nat) :
    Prop where
  held : MapHeld m e820 es
  addr : load m (mb + mbMmapAddr) 4 = toLE 4 mmapAddr.toNat
  length : load m (mb + mbMmapLength) 4 = toLE 4 (mbMmapEntryBytes * i)
  entries : load m mmapAddr (mbMmapEntryBytes * i) = mmapBytesOf (es.take i)

theorem stlP_apply (p val : BitVec 32) (s : Firmware) :
    stlP p val s = .ok () (s.withBlock p (toLE 4 val.toNat)) := rfl

/-- Reading a word that memory holds. -/
theorem ldlP_of_load {p : BitVec 32} {n : Nat} {s : Firmware}
    (h : load s.mem p 4 = toLE 4 n) : ldlP p s = .ok (BitVec.ofNat 32 n) s := by
  have hword : BitVec.ofNat 32 (ofLE (toLE 4 n)) = BitVec.ofNat 32 n := by
    rw [ofLE_toLE]
    exact BitVec.eq_of_toNat_eq (by simp)
  rw [ldlP, StateRun.bind_of_ok (peek_apply _ _ s), h, hword]
  rfl

section Mmap

variable {mb mmapAddr : BitVec 32} {es : List E820Entry} {i : Nat} {s : Firmware}

/-- The block of one entry is apart from the table and from `mb_info`. -/
theorem MmapApart.entry {e820 : BitVec 32} (h : MmapApart e820 mb mmapAddr es.length)
    (hfit : mbMmapEntryBytes * es.length < 2 ^ 32) (hi : i < es.length) :
    Apart e820 (4 + e820EntryBytes * es.length)
      (mmapAddr + BitVec.ofNat 32 (mbMmapEntryBytes * i)) mbMmapEntryBytes ∧
    Apart mb mbInfoBytes (mmapAddr + BitVec.ofNat 32 (mbMmapEntryBytes * i)) mbMmapEntryBytes := by
  have hin : mbMmapEntryBytes * (i + 1) ≤ mbMmapEntryBytes * es.length := Nat.mul_le_mul_left _ hi
  rw [Nat.mul_succ] at hin
  exact ⟨(h.table_mmap.symm.part hin hfit.le).symm, (h.info_mmap.symm.part hin hfit.le).symm⟩

/-- The stores of one iteration up to the type field are one block. -/
theorem copyFields_mmap (hheld : MapHeld s.mem s.e820 es) (hi : i < es.length)
    (htable : 4 + e820EntryBytes * es.length ≤ 2 ^ 32) {q : BitVec 32}
    (happ : Apart s.e820 (4 + e820EntryBytes * es.length) q mbMmapEntryBytes) :
    copyFields (mapEntry s.e820 i) (q + 4#32) (s.withBlock q (toLE 4 e820EntryBytes)) =
      .ok () (s.withBlock q es[i].mmapBytes) := by
  have hsize : (toLE 4 e820EntryBytes).length = 4 := length_toLE 4 _
  have hfront : Apart s.e820 (4 + e820EntryBytes * es.length) q 4 := by
    have h := happ.symm.part (show 0 + 4 ≤ mbMmapEntryBytes by decide) (by decide)
    rw [BitVec.add_zero] at h
    exact h.symm
  have hheld' : MapHeld (s.withBlock q (toLE 4 e820EntryBytes)).mem s.e820 es :=
    hheld.store htable (by rwa [hsize])
  have hrest : Apart (mapEntry s.e820 i) e820EntryBytes (q + BitVec.ofNat 32 4) e820EntryBytes :=
    apart_mapEntry happ htable hi (by decide) (by decide)
  have hjoin := @store_append _ s.mem q (toLE 4 e820EntryBytes) es[i].encode
    (by rw [hsize, length_encode]; decide)
  rw [hsize] at hjoin
  rw [copyFields_apply (hheld'.entry hi) hrest]
  exact congrArg (fun m => EStateM.Result.ok () { s with mem := m }) hjoin

/-- The memory after one iteration. -/
def mmapStored (m : Mem) (mb mmapAddr : BitVec 32) (e : E820Entry) (i : Nat) : Mem :=
  store (store m (mmapAddr + BitVec.ofNat 32 (mbMmapEntryBytes * i)) e.mmapBytes)
    (mb + mbMmapLength) (toLE 4 (mbMmapEntryBytes * (i + 1)))

theorem storeMmapEntry_apply (happ : MmapApart s.e820 mb mmapAddr es.length)
    (hfit : mbMmapEntryBytes * es.length < 2 ^ 32) (hi : i < es.length)
    (hfilled : MmapFilled s.mem s.e820 mb mmapAddr es i) :
    storeMmapEntry mb i s = .ok () { s with mem := mmapStored s.mem mb mmapAddr es[i] i } := by
  have hbytes : mbMmapEntryBytes = 24 := rfl
  have hentry : e820EntryBytes = 20 := rfl
  have hfit' : 24 * es.length < 2 ^ 32 := hfit
  have htable : 4 + e820EntryBytes * es.length ≤ 2 ^ 32 := by
    rw [hentry]
    omega
  obtain ⟨happTable, happInfo⟩ := happ.entry hfit hi
  let s₂ := s.withBlock (mmapAddr + BitVec.ofNat 32 (mbMmapEntryBytes * i)) es[i].mmapBytes
  have haddr : ldlP (mb + mbMmapAddr) s = .ok mmapAddr s := by
    rw [ldlP_of_load hfilled.addr, BitVec.ofNat_toNat, BitVec.setWidth_eq]
  have hlength : ldlP (mb + mbMmapLength) s =
      .ok (BitVec.ofNat 32 (mbMmapEntryBytes * i)) s := ldlP_of_load hfilled.length
  have hkept : load s₂.mem (mb + mbMmapLength) 4 = load s.mem (mb + mbMmapLength) 4 :=
    load_store_outside s.mem (by decide) (by
      rw [length_mmapBytes]
      exact happInfo.part (show 44 + 4 ≤ mbInfoBytes by decide) (by decide))
  have hlength₂ : ldlP (mb + mbMmapLength) s₂ =
      .ok (BitVec.ofNat 32 (mbMmapEntryBytes * i)) s₂ :=
    ldlP_of_load (hkept.trans hfilled.length)
  have hcopy := copyFields_mmap hfilled.held hi htable happTable
  have hnext : (BitVec.ofNat 32 (mbMmapEntryBytes * i) + BitVec.ofNat 32 mbMmapEntryBytes).toNat =
      mbMmapEntryBytes * (i + 1) := by
    rw [← BitVec.ofNat_add, BitVec.toNat_ofNat, ← Nat.mul_succ,
      Nat.mod_eq_of_lt (by rw [hbytes]; omega)]
  rw [storeMmapEntry, StateRun.bind_of_ok (StateRun.get_apply s)]
  refine (StateRun.bind_of_ok haddr).trans ((StateRun.bind_of_ok hlength).trans ?_)
  refine (StateRun.bind_of_ok (poke_apply _ _ s)).trans ((StateRun.bind_of_ok hcopy).trans ?_)
  refine (StateRun.bind_of_ok hlength₂).trans ?_
  rw [stlP, hnext]
  rfl

/-- One iteration adds one entry. -/
theorem MmapFilled.stored {m : Mem} {e820 : BitVec 32}
    (happ : MmapApart e820 mb mmapAddr es.length)
    (hfit : mbMmapEntryBytes * es.length < 2 ^ 32) (hi : i < es.length)
    (hfilled : MmapFilled m e820 mb mmapAddr es i) :
    MmapFilled (mmapStored m mb mmapAddr es[i] i) e820 mb mmapAddr es (i + 1) := by
  have hbytes : mbMmapEntryBytes = 24 := rfl
  have hentry : e820EntryBytes = 20 := rfl
  have hfit' : 24 * es.length < 2 ^ 32 := hfit
  have htable : 4 + e820EntryBytes * es.length ≤ 2 ^ 32 := by
    rw [hentry]
    omega
  obtain ⟨happTable, happInfo⟩ := happ.entry hfit hi
  let q := mmapAddr + BitVec.ofNat 32 (mbMmapEntryBytes * i)
  let m₂ := store m q es[i].mmapBytes
  have hfield {k : Nat} (hk : k + 4 ≤ mbInfoBytes) :
      load m₂ (mb + BitVec.ofNat 32 k) 4 = load m (mb + BitVec.ofNat 32 k) 4 :=
    load_store_outside m (by decide) (by
      rw [length_mmapBytes]
      exact happInfo.part hk (by decide))
  have hstored : (toLE 4 (mbMmapEntryBytes * (i + 1))).length = 4 := length_toLE 4 _
  have hin : 24 * (i + 1) ≤ 24 * es.length := Nat.mul_le_mul_left _ hi
  have htableLength : Apart e820 (4 + e820EntryBytes * es.length) (mb + mbMmapLength) 4 :=
    (happ.table_info.symm.part (show 44 + 4 ≤ mbInfoBytes by decide) (by decide)).symm
  have haddrLength : Apart (mb + mbMmapAddr) 4 (mb + mbMmapLength) 4 :=
    apart_parts mb (show 48 + 4 ≤ 44 ∨ 44 + 4 ≤ 48 by decide) (by decide) (by decide)
  have hmmapLength : Apart mmapAddr (mbMmapEntryBytes * (i + 1)) (mb + mbMmapLength) 4 := by
    have h := (happ.info_mmap.part (show 44 + 4 ≤ mbInfoBytes by decide) (by decide)).symm.part
      (show 0 + mbMmapEntryBytes * (i + 1) ≤ mbMmapEntryBytes * es.length by
        rw [hbytes, Nat.zero_add]; exact hin) hfit.le
    rwa [BitVec.add_zero] at h
  have hearlier : load m₂ mmapAddr (mbMmapEntryBytes * i) = mmapBytesOf (es.take i) := by
    have h := apart_parts mmapAddr
      (show 0 + mbMmapEntryBytes * i ≤ mbMmapEntryBytes * i ∨
        mbMmapEntryBytes * i + mbMmapEntryBytes ≤ 0 from Or.inl (Nat.zero_add _).le)
      (by rw [hbytes]; omega) (by rw [hbytes]; omega)
    rw [BitVec.add_zero] at h
    rw [← hfilled.entries]
    exact load_store_outside m (by rw [hbytes]; omega) (by rwa [length_mmapBytes])
  have hlast : load m₂ q mbMmapEntryBytes = es[i].mmapBytes := by
    have h := load_store m q
      (by rw [length_mmapBytes]; decide : es[i].mmapBytes.length ≤ 2 ^ 32)
    rwa [length_mmapBytes] at h
  have htake : es.take (i + 1) = es.take i ++ [es[i]] := List.take_succ_eq_append_getElem hi
  constructor
  · exact (hfilled.held.store htable (by rw [length_mmapBytes]; exact happTable)).store htable
      (by rw [hstored]; exact htableLength)
  · exact (load_store_outside m₂ (by decide) (by rw [hstored]; exact haddrLength)).trans
      ((@hfield 48 (by decide)).trans hfilled.addr)
  · have h := load_store m₂ (mb + mbMmapLength) (by rw [hstored]; decide :
      (toLE 4 (mbMmapEntryBytes * (i + 1))).length ≤ 2 ^ 32)
    rwa [hstored] at h
  · rw [mmapStored, load_store_outside m₂ (by rw [hbytes]; omega) (by rwa [hstored]), Nat.mul_succ,
      load_append, hearlier, htake, mmapBytesOf, mmapBytesOf, List.map_append, List.flatten_append]
    refine congrArg _ (hlast.trans ?_)
    simp

/-- The stores of an iteration stay in `mb_info` and in the map. -/
theorem load_mmapStored {m : Mem} {q : BitVec 32} {n : Nat} (hn : n ≤ 2 ^ 32)
    (hfit : mbMmapEntryBytes * es.length < 2 ^ 32) (hi : i < es.length)
    (hinfo : Apart q n (mb + mbMmapLength) 4)
    (hmmap : Apart q n mmapAddr (mbMmapEntryBytes * es.length)) :
    load (mmapStored m mb mmapAddr es[i] i) q n = load m q n := by
  have hin : mbMmapEntryBytes * (i + 1) ≤ mbMmapEntryBytes * es.length := Nat.mul_le_mul_left _ hi
  rw [Nat.mul_succ] at hin
  have hentry : Apart q n (mmapAddr + BitVec.ofNat 32 (mbMmapEntryBytes * i)) mbMmapEntryBytes :=
    (hmmap.symm.part hin hfit.le).symm
  rw [mmapStored, load_store_outside _ hn (by rwa [length_toLE]),
    load_store_outside m hn (by rwa [length_mmapBytes])]

/-- The loop adds all entries from `i` on, and changes nothing but the map and
its length. -/
theorem mmapLoop_filled {n : Nat} (happ : MmapApart s.e820 mb mmapAddr es.length)
    (hfit : mbMmapEntryBytes * es.length < 2 ^ 32) (hi : i ≤ es.length) (hn : es.length ≤ i + n)
    (hfilled : MmapFilled s.mem s.e820 mb mmapAddr es i) :
    ∃ m, mmapLoop mb n i s = .ok () { s with mem := m } ∧
      MmapFilled m s.e820 mb mmapAddr es es.length ∧
      ∀ q k, k ≤ 2 ^ 32 → Apart q k (mb + mbMmapLength) 4 →
        Apart q k mmapAddr (mbMmapEntryBytes * es.length) → load m q k = load s.mem q k := by
  have hfit' : 24 * es.length < 2 ^ 32 := hfit
  have hread : ofLE (toLE 4 es.length) = es.length := ofLE_toLE_of_lt (by omega)
  induction n generalizing i s with
  | zero =>
    obtain rfl : i = es.length := by omega
    exact ⟨s.mem, rfl, hfilled, fun _ _ _ _ _ => rfl⟩
  | succ n ih =>
    have hcount : peek s.e820 4 s = .ok (toLE 4 es.length) s := by
      rw [peek_apply, hfilled.held.parts.1]
    rw [mmapLoop, StateRun.bind_of_ok (StateRun.get_apply s)]
    by_cases hlt : i < es.length
    · have hstep := storeMmapEntry_apply happ hfit hlt hfilled
      obtain ⟨m, hrest, hall, hframe⟩ := @ih (i + 1)
        { s with mem := mmapStored s.mem mb mmapAddr es[i] i } happ hlt (by omega)
        (hfilled.stored happ hfit hlt)
      refine ⟨m, (StateRun.bind_of_ok hcount).trans ?_, hall, fun q k hk hinfo hmmap => ?_⟩
      · rw [hread, if_pos hlt]
        exact (StateRun.bind_of_ok hstep).trans hrest
      · exact (hframe q k hk hinfo hmmap).trans (load_mmapStored hk hfit hlt hinfo hmmap)
    · obtain rfl : i = es.length := by omega
      refine ⟨s.mem, (StateRun.bind_of_ok hcount).trans ?_, hfilled, fun _ _ _ _ _ => rfl⟩
      rw [hread, if_neg hlt]
      rfl

/-- The memory when the map loop starts. -/
def Firmware.mbStarted (s : Firmware) (mb : BitVec 32) : Mem :=
  store (store (store s.mem (mb + mbMemLower) (toLE 4 (639#32).toNat))
    (mb + mbMemUpper) (toLE 4 ((s.lowmem - 0x100000#32) >>> 10).toNat))
    (mb + mbMmapLength) (toLE 4 (0#32).toNat)

theorem mbStarted_filled (hheld : MapHeld s.mem s.e820 es)
    (haddr : load s.mem (mb + mbMmapAddr) 4 = toLE 4 mmapAddr.toNat)
    (happ : MmapApart s.e820 mb mmapAddr es.length)
    (hfit : mbMmapEntryBytes * es.length < 2 ^ 32) :
    MmapFilled (s.mbStarted mb) s.e820 mb mmapAddr es 0 := by
  have hfit' : 24 * es.length < 2 ^ 32 := hfit
  have htable : 4 + e820EntryBytes * es.length ≤ 2 ^ 32 := by
    rw [show e820EntryBytes = 20 from rfl]
    omega
  -- the fields in front of `mmap_addr` touch neither it nor the table
  have hstep {m : Mem} {k n : Nat} (hk : k + 4 ≤ 48)
      (h : MapHeld m s.e820 es ∧ load m (mb + mbMmapAddr) 4 = toLE 4 mmapAddr.toNat) :
      MapHeld (store m (mb + BitVec.ofNat 32 k) (toLE 4 n)) s.e820 es ∧
        load (store m (mb + BitVec.ofNat 32 k) (toLE 4 n)) (mb + mbMmapAddr) 4 =
          toLE 4 mmapAddr.toNat := by
    have hlen : (toLE 4 n).length = 4 := length_toLE 4 n
    have hfield : Apart s.e820 (4 + e820EntryBytes * es.length) (mb + BitVec.ofNat 32 k) 4 :=
      (happ.table_info.symm.part (show k + 4 ≤ 88 by omega) (by decide)).symm
    have hparts : Apart (mb + mbMmapAddr) 4 (mb + BitVec.ofNat 32 k) 4 :=
      apart_parts mb (show 48 + 4 ≤ k ∨ k + 4 ≤ 48 from Or.inr hk) (by decide) (by omega)
    refine ⟨h.1.store htable (by rwa [hlen]), ?_⟩
    exact (load_store_outside m (by decide) (by rwa [hlen])).trans h.2
  obtain ⟨hheld', haddr'⟩ : MapHeld (s.mbStarted mb) s.e820 es ∧
      load (s.mbStarted mb) (mb + mbMmapAddr) 4 = toLE 4 mmapAddr.toNat :=
    @hstep _ 44 _ (by decide) (@hstep _ 8 _ (by decide) (@hstep _ 4 _ (by decide) ⟨hheld, haddr⟩))
  refine ⟨hheld', haddr', ?_, rfl⟩
  have h := load_store (store (store s.mem (mb + mbMemLower) (toLE 4 (639#32).toNat))
    (mb + mbMemUpper) (toLE 4 ((s.lowmem - 0x100000#32) >>> 10).toNat)) (mb + mbMmapLength)
    (by rw [length_toLE]; decide : (toLE 4 (0#32).toNat).length ≤ 2 ^ 32)
  rwa [length_toLE] at h

/-- What the multiboot code leaves in memory: the map, and what was there when
the map loop started. -/
theorem storeMbMemory_apply (hheld : MapHeld s.mem s.e820 es)
    (haddr : load s.mem (mb + mbMmapAddr) 4 = toLE 4 mmapAddr.toNat)
    (happ : MmapApart s.e820 mb mmapAddr es.length)
    (hfit : mbMmapEntryBytes * es.length < 2 ^ 32) :
    ∃ m, storeMbMemory mb s = .ok () { s with mem := m } ∧
      MmapFilled m s.e820 mb mmapAddr es es.length ∧
      ∀ q k, k ≤ 2 ^ 32 → Apart q k (mb + mbMmapLength) 4 →
        Apart q k mmapAddr (mbMmapEntryBytes * es.length) →
        load m q k = load (s.mbStarted mb) q k := by
  have hfit' : 24 * es.length < 2 ^ 32 := hfit
  obtain ⟨m, hloop, hfilled⟩ := @mmapLoop_filled _ _ es 0 { s with mem := s.mbStarted mb }
    (2 ^ 32) happ hfit (by omega) (by omega) (mbStarted_filled hheld haddr happ hfit)
  refine ⟨m, ?_, hfilled⟩
  rw [storeMbMemory, StateRun.bind_of_ok (StateRun.get_apply s)]
  refine (StateRun.bind_of_ok (stlP_apply _ _ _)).trans
    ((StateRun.bind_of_ok (stlP_apply _ _ _)).trans
      ((StateRun.bind_of_ok (stlP_apply _ _ _)).trans ?_))
  exact hloop

theorem storeMbMemory_filled (hheld : MapHeld s.mem s.e820 es)
    (haddr : load s.mem (mb + mbMmapAddr) 4 = toLE 4 mmapAddr.toNat)
    (happ : MmapApart s.e820 mb mmapAddr es.length)
    (hfit : mbMmapEntryBytes * es.length < 2 ^ 32) :
    ∃ m, storeMbMemory mb s = .ok () { s with mem := m } ∧
      MmapFilled m s.e820 mb mmapAddr es es.length := by
  obtain ⟨m, hrun, hfilled, -⟩ := storeMbMemory_apply hheld haddr happ hfit
  exact ⟨m, hrun, hfilled⟩

/-- A kernel that walks a filled map finds the entries. -/
theorem walkMmap_filled {m : Mem} {n : Nat} {e820 : BitVec 32}
    (hfit : mbMmapEntryBytes * es.length < 2 ^ 32)
    (hfilled : MmapFilled m e820 mb mmapAddr es es.length) (hi : i ≤ es.length)
    (hn : es.length < i + n) :
    walkMmap m mmapAddr (BitVec.ofNat 32 (mbMmapEntryBytes * es.length)) n (mbMmapEntryBytes * i) =
      some (es.drop i) := by
  have hbytes : mbMmapEntryBytes = 24 := rfl
  have hlength : (BitVec.ofNat 32 (mbMmapEntryBytes * es.length)).toNat =
      mbMmapEntryBytes * es.length := by rw [BitVec.toNat_ofNat, Nat.mod_eq_of_lt hfit]
  induction n generalizing i with
  | zero => omega
  | succ n ih =>
    rw [walkMmap, hlength]
    by_cases hlt : i < es.length
    · have hin : mbMmapEntryBytes * i + mbMmapEntryBytes ≤ mbMmapEntryBytes * es.length := by
        rw [← Nat.mul_succ]
        exact Nat.mul_le_mul_left _ hlt
      have hentry : load m (mmapAddr + BitVec.ofNat 32 (mbMmapEntryBytes * i)) mbMmapEntryBytes =
          es[i].mmapBytes := by
        have hrecords : ∀ r ∈ es.map E820Entry.mmapBytes, r.length = mbMmapEntryBytes := by simp
        have h := slice_flatten (by decide) hrecords (by simpa using hlt)
        have hall := hfilled.entries
        rw [List.take_length] at hall
        rw [List.getElem_map, ← mmapBytesOf, ← hall, slice_load m _ hin] at h
        exact h
      have hsplit : load m (mmapAddr + BitVec.ofNat 32 (mbMmapEntryBytes * i)) mbMmapEntryBytes =
          load m (mmapAddr + BitVec.ofNat 32 (mbMmapEntryBytes * i)) 4 ++
            load m (mmapAddr + BitVec.ofNat 32 (mbMmapEntryBytes * i) + 4#32) e820EntryBytes :=
        load_append m _ 4 e820EntryBytes
      rw [hsplit, E820Entry.mmapBytes] at hentry
      obtain ⟨hsize, hfields⟩ := List.append_inj hentry (by simp)
      have hsize' : ofLE (load m (mmapAddr + BitVec.ofNat 32 (mbMmapEntryBytes * i)) 4) =
          e820EntryBytes := by
        rw [hsize]
        exact ofLE_toLE_of_lt (by decide)
      have hnext : mbMmapEntryBytes * i + e820EntryBytes + 4 = mbMmapEntryBytes * (i + 1) := by
        rw [Nat.mul_succ, Nat.add_assoc]
        rfl
      have hdrop : es.drop i = es[i] :: es.drop (i + 1) := List.drop_eq_getElem_cons hlt
      rw [if_neg (by rw [hbytes]; omega)]
      simp only [hsize', hnext]
      rw [ih hlt (by omega), hfields, decode_encode, hdrop]
      rfl
    · rw [if_pos (by rw [hbytes]; omega), List.drop_eq_nil_of_le (by omega)]

end Mmap

/-! ### The three handovers -/

/-- `e820->map[0..nr_map)` -/
def Firmware.e820Map (s : Firmware) : List E820Entry :=
  entriesOf (load s.mem (mapEntry s.e820 0) (e820EntryBytes * loadLE s.mem s.e820 4))

/-- A table that memory holds is the map. -/
theorem e820Map_of_held {s : Firmware} {es : List E820Entry} (h : MapHeld s.mem s.e820 es)
    (hlen : es.length < 2 ^ 32) : s.e820Map = es := by
  rw [Firmware.e820Map, loadLE, h.count hlen, h.parts.2, entriesOf_encodeEntries]

/-- A caller of INT 15h gets the entries in order, each in one call, and is
told to stop after the last one. -/
def Int15Delivers (s : Firmware) (calls : Nat → BiosRegs) (es : List E820Entry) : Prop :=
  ∀ n, ∃ s', queryAll calls n 0 0#32 s = .ok (if es.length ≤ n then some es else none) s'

/-- The table of `start_info` has the entries as records. -/
def PvhDelivers (s : Firmware) (es : List E820Entry) : Prop :=
  ∃ s', pvhE820Setup s = .ok () s' ∧ s'.startInfo.memmapEntries.toNat = es.length ∧
    s'.pvhTable = es.map E820Entry.pvh

/-- A kernel that walks the map of `mb_info` finds the entries. -/
def MultibootDelivers (s : Firmware) (mb : BitVec 32) (es : List E820Entry) : Prop :=
  ∃ s', storeMbMemory mb s = .ok () s' ∧ ∀ n, es.length < n →
    walkMmap s'.mem (BitVec.ofNat 32 (loadLE s'.mem (mb + mbMmapAddr) 4))
      (BitVec.ofNat 32 (loadLE s'.mem (mb + mbMmapLength) 4)) n 0 = some es

/-- The three ways of handing over the map agree: whatever the caller's
buffers, `mb_info` and the table of records are, if they are not the map. -/
theorem handovers_agree {s : Firmware} {mb : BitVec 32} {calls : Nat → BiosRegs}
    (hmap : 1 ≤ s.e820Map.length) (hseg : s.TableInSegment s.e820Map.length)
    (hbuffers : ∀ k, Apart s.e820 (4 + e820EntryBytes * s.e820Map.length) (calls k).buffer
      e820EntryBytes)
    (hpvh : Apart s.e820 (4 + e820EntryBytes * s.e820Map.length) (s.pvhBlock s.e820Map.length)
      (hvmMemmapEntryBytes * s.e820Map.length))
    (hmmap : MmapApart s.e820 mb (BitVec.ofNat 32 (loadLE s.mem (mb + mbMmapAddr) 4))
      s.e820Map.length) :
    Int15Delivers s calls s.e820Map ∧ PvhDelivers s s.e820Map ∧
      MultibootDelivers s mb s.e820Map := by
  have hheld : MapHeld s.mem s.e820 s.e820Map := mapHeld_entriesOf s.mem s.e820
  have hfits : 4 + 20 * s.e820Map.length ≤ 0x10000 := hseg.fits
  have hpvhFit : hvmMemmapEntryBytes * s.e820Map.length < 2 ^ 32 := by
    rw [show hvmMemmapEntryBytes = 24 from rfl]
    omega
  refine ⟨?_, pvhE820Setup_table hheld hpvhFit hpvh, ?_⟩
  · intro n
    obtain ⟨s', hrun⟩ := @queryAll_apply calls s.e820Map s 0 n hheld hseg hbuffers hmap
    rw [Nat.zero_add, List.drop_zero] at hrun
    exact ⟨s', hrun⟩
  · have hmmapFit : mbMmapEntryBytes * s.e820Map.length < 2 ^ 32 := hpvhFit
    have haddr : load s.mem (mb + mbMmapAddr) 4 =
        toLE 4 (BitVec.ofNat 32 (loadLE s.mem (mb + mbMmapAddr) 4)).toNat := by
      have h := toLE_ofLE (load s.mem (mb + mbMmapAddr) 4)
      rw [length_load] at h
      have hlt : loadLE s.mem (mb + mbMmapAddr) 4 < 2 ^ 32 := loadLE_lt s.mem _ 4
      rw [BitVec.toNat_ofNat, Nat.mod_eq_of_lt hlt]
      exact h.symm
    obtain ⟨m, hrun, hfilled⟩ := storeMbMemory_filled hheld haddr hmmap hmmapFit
    refine ⟨_, hrun, fun n hn => ?_⟩
    have hwalk := @walkMmap_filled _ _ s.e820Map 0 m n s.e820 hmmapFit hfilled (Nat.zero_le _)
      (by omega)
    have haddrField : BitVec.ofNat 32 (loadLE m (mb + mbMmapAddr) 4) =
        BitVec.ofNat 32 (loadLE s.mem (mb + mbMmapAddr) 4) := by
      rw [loadLE, hfilled.addr]
      exact ofNat_ofLE_toLE 4 _
    have hlengthField : BitVec.ofNat 32 (loadLE m (mb + mbMmapLength) 4) =
        BitVec.ofNat 32 (mbMmapEntryBytes * s.e820Map.length) := by
      rw [loadLE, hfilled.length, ofLE_toLE_of_lt hmmapFit]
    rw [haddrField, hlengthField]
    exact hwalk

/-- Low RAM, the firmware's own area, and RAM above 1 MiB. -/
def handoverMap : List E820Entry :=
  [{ addr := 0#64, size := 0x9fc00#64, type := E820_RAM },
   { addr := 0xf0000#64, size := 0x10000#64, type := E820_RESERVED },
   { addr := 0x100000#64, size := 0x4000000#64, type := E820_RAM }]

/-- A machine with the map `es` at 0xdff80 and nothing else in its memory. The
next low block ends at `mallocTop`. -/
def handoverMachine (es : List E820Entry) (mallocTop : BitVec 32) : Firmware :=
  { Firmware.initial { entry := fun _ => [], key := 0#16, pos := 0 }
      (store (fun _ => 0#8) 0xdff80#32 (encodeMap es)) 0xf0000#32 0xf4000#32 with
    mallocTop := mallocTop
    e820 := 0xdff80#32
    e820Seg := 0xdff8#16 }

/-- A caller with its buffer at offset `edi` of the segment `ds`. -/
def handoverCaller (ds edi : BitVec 32) : BiosRegs :=
  { eax := 0#32, ebx := 0#32, ecx := 0#32, edi := edi, ds := ds, eflags := 0#16 }

section Machine

variable {es : List E820Entry} (hfits : 4 + e820EntryBytes * es.length ≤ 0x10000)
  (mallocTop : BitVec 32)

include hfits

theorem handoverMachine_segment :
    (handoverMachine es mallocTop).TableInSegment es.length where
  aligned := by change (0xdff80#32).toNat % 16 = 0; decide
  below := by change (0xdff80#32).toNat < 0x100000; decide
  fits := hfits
  seg := by change 0xdff8#16 = (0xdff80#32 >>> 4).setWidth 16; decide

theorem handoverMachine_held : MapHeld (handoverMachine es mallocTop).mem 0xdff80#32 es := by
  have hlen : (encodeMap es).length = 4 + e820EntryBytes * es.length := by simp [encodeMap]
  rw [MapHeld, ← hlen]
  exact load_store _ _ (by omega)

theorem handoverMachine_map : (handoverMachine es mallocTop).e820Map = es := by
  rw [show e820EntryBytes = 20 from rfl] at hfits
  exact e820Map_of_held (handoverMachine_held hfits mallocTop) (by omega)

end Machine

/-- The machine with an `mb_info` at 0x9000, whose map goes to 0xa000. -/
def mmapMachine : Firmware :=
  (handoverMachine handoverMap 0xdff80#32).withBlock (0x9000#32 + mbMmapAddr) (toLE 4 0xa000)

theorem mmapMachine_map : mmapMachine.e820Map = handoverMap := by
  have hheld := @handoverMachine_held handoverMap (by decide) 0xdff80#32
  exact e820Map_of_held (hheld.store (by decide)
    (apart_of_le (by decide) (by decide)).symm) (by decide)

/-- A caller with two buffers that it uses in turn. -/
def turningCaller (k : Nat) : BiosRegs :=
  handoverCaller 0#32 (BitVec.ofNat 32 (0x7000 + 20 * (k % 2)))

theorem handovers_agree_apart :
    Int15Delivers mmapMachine turningCaller handoverMap ∧
      PvhDelivers mmapMachine handoverMap ∧
      MultibootDelivers mmapMachine 0x9000#32 handoverMap := by
  have haddr : BitVec.ofNat 32 (loadLE mmapMachine.mem (0x9000#32 + mbMmapAddr) 4) =
      0xa000#32 := by decide +kernel
  have hseg := @handoverMachine_segment handoverMap (by decide) 0xdff80#32
  have hagree := @handovers_agree mmapMachine 0x9000#32 turningCaller
    (by rw [mmapMachine_map]; decide)
    (by rw [mmapMachine_map]; exact ⟨hseg.aligned, hseg.below, hseg.fits, hseg.seg⟩)
  rw [mmapMachine_map, haddr] at hagree
  refine hagree (fun k => ?_) ?_ ⟨?_, ?_, ?_⟩
  · rcases Nat.mod_two_eq_zero_or_one k with hk | hk
    · rw [turningCaller, hk]
      exact (apart_of_le (by decide +kernel) (by decide +kernel)).symm
    · rw [turningCaller, hk]
      exact (apart_of_le (by decide +kernel) (by decide +kernel)).symm
  · exact (apart_of_le (by decide +kernel) (by decide +kernel)).symm
  · exact (apart_of_le (by decide +kernel) (by decide +kernel)).symm
  · exact (apart_of_le (by decide +kernel) (by decide +kernel)).symm
  · exact apart_of_le (by decide +kernel) (by decide +kernel)

def shortMap : List E820Entry :=
  [{ addr := 0x200000#64, size := 0x4000000#64, type := E820_RAM }]

def shortMachine (mallocTop : BitVec 32) : Firmware := handoverMachine shortMap mallocTop

theorem shortMachine_segment (mallocTop : BitVec 32) :
    (shortMachine mallocTop).TableInSegment 1 :=
  handoverMachine_segment (by decide) mallocTop

theorem shortMachine_map (mallocTop : BitVec 32) : (shortMachine mallocTop).e820Map = shortMap :=
  handoverMachine_map (by decide) mallocTop

/-- A caller's buffer, a table of records or an `mb_info` that lies over the
map spoils what is handed over. -/
theorem handovers_disagree :
    ((shortMachine 0xdff80#32).TableInSegment 1 ∧
      ¬ Int15Delivers (shortMachine 0xdff80#32) (fun _ => handoverCaller 0xdff8#32 5#32)
        (shortMachine 0xdff80#32).e820Map) ∧
    ((shortMachine 0xdff98#32).TableInSegment 1 ∧
      ¬ PvhDelivers (shortMachine 0xdff98#32) (shortMachine 0xdff98#32).e820Map) ∧
    (Apart 0xdff80#32 24 0x200000#32 24 ∧ Apart 0xdff54#32 mbInfoBytes 0x200000#32 24 ∧
      BitVec.ofNat 32 (loadLE (shortMachine 0xdff80#32).mem (0xdff54#32 + mbMmapAddr) 4) =
        0x200000#32 ∧
      ¬ MultibootDelivers (shortMachine 0xdff80#32) 0xdff54#32
        (shortMachine 0xdff80#32).e820Map) := by
  refine ⟨⟨shortMachine_segment _, ?_⟩, ⟨shortMachine_segment _, ?_⟩,
    apart_of_le (by decide) (by decide), apart_of_le (by decide) (by decide), by decide +kernel, ?_⟩
  · intro hdelivers
    obtain ⟨s', hrun⟩ := hdelivers 1
    rw [shortMachine_map] at hrun
    have hvalue : StateRun.value (queryAll (fun _ => handoverCaller 0xdff8#32 5#32) 1 0 0#32
        (shortMachine 0xdff80#32)) = some (some shortMap) := congrArg StateRun.value hrun
    revert hvalue
    decide +kernel
  · rintro ⟨s', hrun, hcount, -⟩
    have hzero : (StateRun.final (pvhE820Setup (shortMachine 0xdff98#32))).startInfo.memmapEntries =
        0#32 := by decide +kernel
    rw [hrun] at hzero
    rw [shortMachine_map] at hcount
    exact absurd (hcount.symm.trans (congrArg BitVec.toNat hzero)) (by decide)
  · rintro ⟨s', hrun, hwalk⟩
    have hzero : loadLE (StateRun.final (storeMbMemory 0xdff54#32 (shortMachine 0xdff80#32))).mem
        (0xdff54#32 + mbMmapLength) 4 = 0 := by decide +kernel
    rw [hrun] at hzero
    have hnil := hwalk 2 (by rw [shortMachine_map]; decide)
    have hend : loadLE s'.mem (0xdff54#32 + mbMmapLength) 4 = 0 := hzero
    rw [shortMachine_map, hend, walkMmap, if_pos (by decide)] at hnil
    exact absurd hnil (by decide)

end Qboot
