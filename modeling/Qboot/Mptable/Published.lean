import Qboot.Mptable.Setup

/-!
What an operating system finds at 639 KiB after `setup_mptable`: a floating
pointer, a table whose entries it can step over, and sums that are zero. The
second part says for which processor counts the table stays in the reserved
kilobyte.
-/

namespace Qboot

open Bytes ByteMemory

/-- The table a floating pointer points to. -/
def mpTableAddr (m : Mem) : BitVec 32 := BitVec.ofNat 32 (loadLE m (MPTABLE_START + 4#32) 4)

/-- The length in the header of the table. -/
def mpTableLength (m : Mem) : Nat := loadLE m (mpTableAddr m + 4#32) 2

/-- A reader that starts at the floating pointer accepts it and the table, and
finds the entries `es` in all bytes behind the 44-byte header. -/
structure ReadsMpTable (m : Mem) (es : List MpEntry) : Prop where
  pointer : load m MPTABLE_START 4 = [0x5f#8, 0x4d#8, 0x50#8, 0x5f#8]
  pointerSum : (load m MPTABLE_START 16).sum = 0
  table : load m (mpTableAddr m) 4 = [0x50#8, 0x43#8, 0x4d#8, 0x50#8]
  header : 44 ≤ mpTableLength m
  tableSum : (load m (mpTableAddr m) (mpTableLength m)).sum = 0
  entries : walkEntries (mpTableLength m - 44)
    (load m (mpTableAddr m + 44#32) (mpTableLength m - 44)) = some es

def MpEntry.ioapicId : MpEntry → Option Byte
  | .ioapic apicid _ _ _ => some apicid
  | _ => none

/-- The IOAPIC and the pin an interrupt entry names. -/
def MpEntry.destination : MpEntry → Option (Byte × Byte)
  | .intsrc _ _ _ _ dstapic dstirq => some (dstapic, dstirq)
  | _ => none

/-- Bytes of the table of a device. -/
def FwCfg.mpTableBytes (d : FwCfg) : Nat :=
  76 + 20 * d.numCpus.toNat + 8 * (isaIrqs d.irq0Override).length

theorem length_encodeAll_mpEntries (stepping features : BitVec 32) (d : FwCfg) :
    44 + (encodeAll (mpEntries stepping features d)).length = d.mpTableBytes := by
  have hmiddle := length_middleEntries d.irq0Override (d.word FW_CFG_NB_CPUS)
  have hlast : (encodeAll [lintsrcEntry mp_ExtINT 0#8 0#8, lintsrcEntry mp_NMI 0xff#8 1#8]).length =
      16 := rfl
  rw [mpEntries, deviceMpEntries, encodeAll_append, encodeAll_append, List.length_append,
    List.length_append, length_cpuEntries, hmiddle, hlast, FwCfg.mpTableBytes]
  omega

theorem mpEntries_wellFormed (stepping features : BitVec 32) (d : FwCfg) :
    ∀ e ∈ mpEntries stepping features d, e.WellFormed := by
  intro e he
  simp only [mpEntries, deviceMpEntries, middleEntries, cpuEntries, intsrcEntries,
    List.mem_append, List.mem_map, List.mem_cons, List.not_mem_nil, or_false] at he
  rcases he with ⟨i, -, rfl⟩ | ((rfl | rfl) | ⟨i, -, rfl⟩) | rfl | rfl
  · exact trivial
  · exact (rfl : [0x49#8, 0x53#8, 0x41#8, 0x20#8, 0x20#8, 0x20#8].length = 6)
  · exact trivial
  · exact trivial
  · exact trivial
  · exact trivial

/-- All interrupts go to different pins of the one IOAPIC. -/
theorem mpEntries_destinations (stepping features : BitVec 32) (d : FwCfg) :
    (mpEntries stepping features d).filterMap MpEntry.ioapicId =
        [ioapicId (d.word FW_CFG_NB_CPUS)] ∧
      (∀ p ∈ (mpEntries stepping features d).filterMap MpEntry.destination,
        p.1 = ioapicId (d.word FW_CFG_NB_CPUS)) ∧
      (((mpEntries stepping features d).filterMap MpEntry.destination).map Prod.snd).Nodup := by
  have hcpus (n : Nat) : (cpuEntries stepping features 0 n).filterMap MpEntry.ioapicId = [] ∧
      (cpuEntries stepping features 0 n).filterMap MpEntry.destination = [] := by
    simp [cpuEntries, cpuEntry, MpEntry.ioapicId, MpEntry.destination]
  have hdestinations : (mpEntries stepping features d).filterMap MpEntry.destination =
      (isaIrqs d.irq0Override).map fun i => (ioapicId (d.word FW_CFG_NB_CPUS),
        if d.irq0Override ∧ i = 0 then 2#8 else BitVec.ofNat 8 i) := by
    rw [mpEntries, List.filterMap_append, (hcpus _).2]
    cases d.irq0Override <;> rfl
  rw [hdestinations]
  refine ⟨?_, ?_, ?_⟩
  · rw [mpEntries, List.filterMap_append, (hcpus _).1]
    cases d.irq0Override <;> rfl
  · intro p hp
    obtain ⟨i, -, rfl⟩ := List.mem_map.mp hp
    rfl
  · rw [List.map_map]
    change ((isaIrqs d.irq0Override).map fun i =>
      if d.irq0Override ∧ i = 0 then 2#8 else BitVec.ofNat 8 i).Nodup
    cases d.irq0Override <;> decide

theorem length_le_encodeAll {es : List MpEntry} (hes : ∀ e ∈ es, e.WellFormed) :
    es.length ≤ (encodeAll es).length := by
  induction es with
  | nil => exact Nat.zero_le _
  | cons e es ih =>
    have hrest := ih fun f hf => hes f (by simp [hf])
    have hsize : 0 < e.size := by
      cases e <;> simp [MpEntry.size]
    rw [encodeAll_cons, List.length_cons, List.length_append,
      MpEntry.length_encode (hes e (by simp))]
    omega

/-- The floating pointer points behind itself. -/
theorem mpTableAddr_mpWritten (s : Firmware) {es : List MpEntry}
    (hlen : 60 + (encodeAll es).length ≤ 2 ^ 32) :
    mpTableAddr (s.mpWritten (mpBytes es)).mem = mpAddr 16 := by
  have hmpf : mpfBytes.length = 16 := rfl
  have hall : (mpBytes es).length = 60 + (encodeAll es).length := by
    rw [mpBytes, List.length_append, List.length_append, hmpf, length_tableHeader]
  have hfield : load (s.mpWritten (mpBytes es)).mem (mpAddr 4) 4 = toLE 4 (mpAddr 16).toNat :=
    load_mpWritten s (by omega) (by omega)
  change BitVec.ofNat 32 (ofLE (load _ (mpAddr 4) 4)) = _
  rw [hfield]
  rfl

/-- What the reader finds in the bytes `setup_mptable` writes. -/
theorem readsMpTable_mpWritten (s : Firmware) {es : List MpEntry} (hes : ∀ e ∈ es, e.WellFormed)
    (hlen : 44 + (encodeAll es).length < 2 ^ 16) :
    ReadsMpTable (s.mpWritten (mpBytes es)).mem es := by
  have hmpf : mpfBytes.length = 16 := rfl
  have hhdr := length_tableHeader (encodeAll es)
  have hall : (mpBytes es).length = 60 + (encodeAll es).length := by
    rw [mpBytes, List.length_append, List.length_append, hmpf, hhdr]
  have hload (k n : Nat) (hk : k + n ≤ 60 + (encodeAll es).length) :
      load (s.mpWritten (mpBytes es)).mem (mpAddr k) n = slice (mpBytes es) k n :=
    load_mpWritten s (by rw [hall]; exact hk) (by rw [hall]; omega)
  have htable : slice (mpBytes es) 16 (44 + (encodeAll es).length) =
      tableHeader (encodeAll es) ++ encodeAll es := by
    have hright := slice_append_right mpfBytes (tableHeader (encodeAll es) ++ encodeAll es)
    rwa [List.length_append, hhdr, hmpf, ← List.append_assoc] at hright
  have hentries : slice (mpBytes es) 60 (encodeAll es).length = encodeAll es := by
    have hright := slice_append_right (mpfBytes ++ tableHeader (encodeAll es)) (encodeAll es)
    rwa [List.length_append, hhdr, hmpf] at hright
  have hstart : mpAddr 0 = MPTABLE_START := rfl
  have haddr := @mpTableAddr_mpWritten s es (by omega)
  have hlength : mpTableLength (s.mpWritten (mpBytes es)).mem = 44 + (encodeAll es).length := by
    have hfield : load (s.mpWritten (mpBytes es)).mem (mpAddr 20) 2 =
        toLE 2 (44 + (encodeAll es).length) := hload 20 2 (by omega)
    rw [mpTableLength, haddr]
    change ofLE (load _ (mpAddr 20) 2) = _
    rw [hfield, ofLE_toLE_of_lt hlen]
  constructor
  · rw [← hstart, hload 0 4 (by omega)]
    rfl
  · rw [← hstart, hload 0 16 (by omega)]
    change mpfBytes.sum = 0
    decide
  · rw [haddr, hload 16 4 (by omega)]
    rfl
  · omega
  · rw [haddr, hlength, hload 16 _ (by omega), htable, sum_tableHeader]
  · have hbase : mpTableAddr (s.mpWritten (mpBytes es)).mem + 44#32 = mpAddr 60 := by
      rw [haddr]
      rfl
    rw [hbase, hlength, Nat.add_sub_cancel_left, hload 60 _ (by omega), hentries]
    exact walkEntries_encode hes (length_le_encodeAll hes)

/-- After `setup_mptable` a reader accepts the table and finds the entries
the device asks for, whatever the memory held before. -/
theorem setupMptable_reads (stepping features : BitVec 32) (s : Firmware)
    (hlen : s.dev.mpTableBytes < 2 ^ 16) :
    ∃ s', setupMptable stepping features s = .ok () s' ∧
      ReadsMpTable s'.mem (mpEntries stepping features s.dev) ∧
      (mpEntries stepping features s.dev).filterMap MpEntry.ioapicId =
        [ioapicId (s.dev.word FW_CFG_NB_CPUS)] ∧
      (∀ p ∈ (mpEntries stepping features s.dev).filterMap MpEntry.destination,
        p.1 = ioapicId (s.dev.word FW_CFG_NB_CPUS)) ∧
      (((mpEntries stepping features s.dev).filterMap MpEntry.destination).map
        Prod.snd).Nodup := by
  have hbytes := length_encodeAll_mpEntries stepping features s.dev
  obtain ⟨dev, hrun⟩ := setupMptable_apply stepping features s (by
    unfold FwCfg.mpTableBytes at hlen
    omega)
  refine ⟨_, hrun, ?_, mpEntries_destinations stepping features s.dev⟩
  exact readsMpTable_mpWritten _ (mpEntries_wellFormed stepping features s.dev) (by omega)

/-- A machine that reports a number of processors and overrides IRQ 0. -/
def mpMachine (cpus : Nat) : Firmware :=
  Firmware.initial
    { entry := fun key => if key = FW_CFG_NB_CPUS then toLE 4 cpus else toLE 4 1
      key := 0#16
      pos := 0 }
    (fun _ => 0xcc#8) 0xf0000#32 0xf4000#32

theorem setupMptable_reads_two :
    ∃ s', setupMptable 0x663#32 0x78bfbff#32 (mpMachine 2) = .ok () s' ∧
      ReadsMpTable s'.mem (mpEntries 0x663#32 0x78bfbff#32 (mpMachine 2).dev) := by
  obtain ⟨s', hrun, hreads, -⟩ :=
    setupMptable_reads 0x663#32 0x78bfbff#32 (mpMachine 2) (by decide)
  exact ⟨s', hrun, hreads⟩

/-! ### The reserved kilobyte -/

/-- Every byte `setup_mptable` writes, for any memory, is in the last kilobyte
below 640 KiB. -/
def StaysInEbda (stepping features : BitVec 32) (s : Firmware) : Prop :=
  ∀ mem : Mem, ∀ a : BitVec 32, ¬ (0x9fc00 ≤ a.toNat ∧ a.toNat < 0xa0000) →
    (StateRun.final (setupMptable stepping features { s with mem := mem })).mem a = mem a

theorem length_mpBytes (es : List MpEntry) :
    (mpBytes es).length = 60 + (encodeAll es).length := by
  rw [mpBytes, List.length_append, List.length_append, length_tableHeader]
  rfl

theorem staysInEbda_of_le {stepping features : BitVec 32} {s : Firmware}
    (hcpus : s.dev.numCpus ≤ 40) : StaysInEbda stepping features s := by
  intro mem a ha
  have hn : s.dev.numCpus.toNat ≤ 40 := by omega
  have hbytes := length_encodeAll_mpEntries stepping features s.dev
  have hirqs : (isaIrqs s.dev.irq0Override).length ≤ 16 := by
    rw [length_isaIrqs]
    split <;> omega
  obtain ⟨dev, hrun⟩ := setupMptable_apply stepping features { s with mem := mem }
    (by change 220 + 20 * s.dev.numCpus.toNat ≤ _; omega)
  rw [hrun]
  apply store_of_not_within
  rw [length_mpBytes, within_iff (by
    change 0x9fc00 + (60 + (encodeAll (mpEntries stepping features s.dev)).length) ≤ _
    unfold FwCfg.mpTableBytes at hbytes
    omega)]
  change ¬ (0x9fc00 ≤ a.toNat ∧
    a.toNat < 0x9fc00 + (60 + (encodeAll (mpEntries stepping features s.dev)).length))
  unfold FwCfg.mpTableBytes at hbytes
  omega

theorem cpuLoop_add (stepping features : BitVec 32) (n k i offset : Nat) (checksum : BitVec 32) :
    cpuLoop stepping features (n + k) i offset checksum =
      cpuLoop stepping features n i offset checksum >>= fun r =>
        cpuLoop stepping features k (i + n) r.1 r.2 := by
  induction n generalizing i offset checksum with
  | zero => simp [cpuLoop]
  | succ n ih =>
    have hi : i + 1 + n = i + (n + 1) := by omega
    rw [Nat.add_right_comm, cpuLoop, cpuLoop]
    simp only [ih, bind_assoc, hi]

/-- With 49 processors or more, the byte at 640 KiB is overwritten by a
processor entry, so what it held before makes no difference. -/
theorem setupMptable_forgets {stepping features : BitVec 32} {s : Firmware}
    (hcpus : 49 ≤ s.dev.numCpus) {m m' : Mem} (hm : ∀ a, a ≠ 0xa0000#32 → m a = m' a) :
    setupMptable stepping features { s with mem := m } =
      setupMptable stepping features { s with mem := m' } := by
  obtain ⟨k, hk⟩ : ∃ k, s.dev.numCpus.toNat = 49 + k := ⟨s.dev.numCpus.toNat - 49, by omega⟩
  have hbase : (mpfBytes ++ rawHeader).length = 60 := rfl
  have hrun (mem : Mem) : setupMptable stepping features { s with mem := mem } =
      (cpuLoop stepping features k 49 1040
          (charSum (encodeAll (cpuEntries stepping features 0 49))) >>= fun r =>
        deviceEntries (s.dev.word FW_CFG_NB_CPUS) r.1 r.2)
      ({ s with mem := mem, dev := (s.dev.select FW_CFG_NB_CPUS).skip 4 }.mpWritten
        (mpfBytes ++ rawHeader ++ encodeAll (cpuEntries stepping features 0 49))) := by
    have hloop := cpuLoop_apply
      { s with mem := mem, dev := (s.dev.select FW_CFG_NB_CPUS).skip 4 }
      stepping features 49 0 0#32 hbase (by decide)
    rw [BitVec.zero_add] at hloop
    rw [setupMptable, StateRun.bind_of_ok (startMptable_apply _),
      StateRun.bind_of_ok (fwCfgSelect_apply _ _), StateRun.bind_of_ok (fwCfgReadlLe_select _ _)]
    change (cpuLoop stepping features s.dev.numCpus.toNat 0 60 0#32 >>= fun r =>
        deviceEntries (s.dev.word FW_CFG_NB_CPUS) r.1 r.2)
      ({ s with mem := mem, dev := (s.dev.select FW_CFG_NB_CPUS).skip 4 }.mpWritten
        (mpfBytes ++ rawHeader)) = _
    rw [hk, cpuLoop_add, bind_assoc, StateRun.bind_of_ok hloop]
  have hstore : store m MPTABLE_START
        (mpfBytes ++ rawHeader ++ encodeAll (cpuEntries stepping features 0 49)) =
      store m' MPTABLE_START
        (mpfBytes ++ rawHeader ++ encodeAll (cpuEntries stepping features 0 49)) := by
    apply store_congr
    intro a ha
    apply hm
    rintro rfl
    apply ha
    rw [Within, List.length_append, hbase, length_cpuEntries]
    decide
  rw [hrun m, hrun m']
  simp only [Firmware.mpWritten, hstore]

/-- The table leaves the kilobyte exactly when the device reports more than
40 processors. -/
theorem staysInEbda_iff (stepping features : BitVec 32) (s : Firmware) :
    StaysInEbda stepping features s ↔ s.dev.numCpus ≤ 40 := by
  constructor
  · intro hstays
    by_contra hmany
    rcases Int.lt_or_le s.dev.numCpus 49 with hfew | hforgets
    · -- the whole table fits in memory, and its bytes do not depend on it
      have hbytes := length_encodeAll_mpEntries stepping features s.dev
      have hirqs : 15 ≤ (isaIrqs s.dev.irq0Override).length := by
        rw [length_isaIrqs]
        split <;> omega
      have hirqs' : (isaIrqs s.dev.irq0Override).length ≤ 16 := by
        rw [length_isaIrqs]
        split <;> omega
      unfold FwCfg.mpTableBytes at hbytes
      let b := (mpBytes (mpEntries stepping features s.dev)).getD 1024 0
      obtain ⟨dev, hrun⟩ := setupMptable_apply stepping features
        { s with mem := fun _ => b + 1#8 } (by change 220 + 20 * s.dev.numCpus.toNat ≤ _; omega)
      have hkept := hstays (fun _ => b + 1#8) (mpAddr 1024) (by decide)
      rw [hrun] at hkept
      have hwritten : b = b + 1#8 := by
        rw [← hkept]
        exact (mem_mpWritten _ (by rw [length_mpBytes]; omega)
          (by rw [length_mpBytes]; omega)).symm
      simp at hwritten
    · have hsame : setupMptable stepping features { s with mem := fun _ => 0#8 } =
          setupMptable stepping features
            { s with mem := fun a => if a = 0xa0000#32 then 1#8 else 0#8 } :=
        setupMptable_forgets hforgets fun a ha => by simp [ha]
      have hzero := hstays (fun _ => 0#8) 0xa0000#32 (by decide)
      have hone := hstays (fun a => if a = 0xa0000#32 then 1#8 else 0#8) 0xa0000#32 (by decide)
      rw [← hsame, hzero] at hone
      exact absurd hone (by decide)
  · exact staysInEbda_of_le

/-- With 42 processors a table entry lands on the byte at 640 KiB. -/
theorem leavesEbda_fortyTwo : ¬ StaysInEbda 0x663#32 0x78bfbff#32 (mpMachine 42) := by
  intro hstays
  have hkept := hstays (fun _ => 0xcc#8) 0xa0000#32 (by decide)
  revert hkept
  decide +kernel

end Qboot
