import Qboot.Mptable.Published

/-!
The APIC ids of the MP table. `setup_mptable` writes the entries of a list one
behind the other for every processor count, also for one whose table does not
fit below 640 KiB; the ids are a loop counter and `num_cpus + 1`, each cut to
a byte.
-/

namespace Qboot

open Bytes ByteMemory

/-! ### The run as a list of entries -/

/-- Write entries one behind the other and add them to the checksum. -/
def putAll : List MpEntry → Nat → BitVec 32 → Fw (Nat × BitVec 32)
  | [], offset, checksum => pure (offset, checksum)
  | e :: es, offset, checksum => do
    poke (mpAddr offset) e.encode
    let s ← get
    putAll es (offset + e.size) (checksum + mptableChecksum s.mem (mpAddr offset) e.size)

/-- The length and the checksum in the header. -/
def finishHeader (offset : Nat) (checksum : BitVec 32) : Fw Unit := do
  poke (mpAddr 20) (toLE 2 (offset - 16))
  let s ← get
  let checksum := checksum + mptableChecksum s.mem (mpAddr 16) 44
  poke (mpAddr 23) [s.mem (mpAddr 23) - checksum.setWidth 8]

/-- Publish a table with the entries `es`. -/
def publishMpTable (es : List MpEntry) : Fw Unit := do
  startMptable
  let r ← putAll es 60 0#32
  finishHeader r.1 r.2

theorem putAll_append (es fs : List MpEntry) (offset : Nat) (checksum : BitVec 32) :
    putAll (es ++ fs) offset checksum =
      putAll es offset checksum >>= fun r => putAll fs r.1 r.2 := by
  induction es generalizing offset checksum with
  | nil => rfl
  | cons e es ih => simp only [List.cons_append, putAll, ih, bind_assoc]

/-- An entry filled in field by field is written as a whole. -/
theorem putEntry_eq {size : Nat} {fields : List (Nat × List Byte)} {e : MpEntry}
    (he : patchFields (List.replicate size 0) fields = e.encode) (hsize : e.size = size)
    (hsmall : size ≤ 20) (hfields : ∀ f ∈ fields, f.1 + f.2.length ≤ size) (offset : Nat)
    (checksum : BitVec 32) {α : Type} (next : BitVec 32 → Fw α) :
    (putEntry offset size fields checksum >>= next) = (do
      poke (mpAddr offset) e.encode
      let s ← get
      next (checksum + mptableChecksum s.mem (mpAddr offset) e.size)) := by
  funext s
  have hfill : fillStruct (mpAddr offset) size fields s = poke (mpAddr offset) e.encode s := by
    have hstore := @storeFields_store 32 s.mem (mpAddr offset) (List.replicate size 0) fields
      (by simpa using hfields) (by rw [List.length_replicate]; omega)
    rw [he] at hstore
    rw [fillStruct, StateRun.modify_apply, poke_apply, hstore]
  rw [putEntry, hsize]
  simp only [bind_assoc, pure_bind]
  rw [StateRun.bind_apply, StateRun.bind_apply, hfill]

theorem cpuLoop_eq (stepping features : BitVec 32) (n i offset : Nat) (checksum : BitVec 32) :
    cpuLoop stepping features n i offset checksum =
      putAll (cpuEntries stepping features i n) offset checksum := by
  induction n generalizing i offset checksum with
  | zero => rfl
  | succ n ih =>
    have hcons : cpuEntries stepping features i (n + 1) =
        cpuEntry stepping features i :: cpuEntries stepping features (i + 1) n := by
      simp [cpuEntries, List.range'_succ]
    rw [cpuLoop, hcons, putAll, putEntry_eq (cpuEntry_encode stepping features i) rfl (by decide)
      (by simp [cpuFields])]
    simp only [ih]
    rfl

theorem intsrcLoop_eq (irq0Override : Bool) (numCpus : BitVec 32) {irqs : List Nat}
    (hirqs : ∀ i ∈ irqs, ¬ (irq0Override ∧ i = 2)) (offset : Nat) (checksum : BitVec 32) :
    intsrcLoop irq0Override numCpus irqs offset checksum =
      putAll (intsrcEntries irq0Override numCpus irqs) offset checksum := by
  induction irqs generalizing offset checksum with
  | nil => rfl
  | cons i irqs ih =>
    have hcons : intsrcEntries irq0Override numCpus (i :: irqs) =
        intsrcEntry irq0Override numCpus i :: intsrcEntries irq0Override numCpus irqs := rfl
    rw [intsrcLoop, if_neg (hirqs i (by simp)), hcons, putAll,
      putEntry_eq (intsrcEntry_encode irq0Override numCpus i) rfl (by decide)
        (by simp [intsrcFields])]
    simp only [ih fun j hj => hirqs j (by simp [hj])]
    rfl

/-- The entry that is written and skipped is cleared for the next one. -/
theorem intsrcLoop_skips (numCpus : BitVec 32) {j : Nat} (hj : j ≠ 2) (rest : List Nat)
    (offset : Nat) (checksum : BitVec 32) :
    intsrcLoop true numCpus (2 :: j :: rest) offset checksum =
      intsrcLoop true numCpus (j :: rest) offset checksum := by
  funext s
  have hnext : ¬ (true = true ∧ j = 2) := fun h => hj h.2
  have hfields : ∀ f ∈ intsrcFields true numCpus 2, f.1 + f.2.length ≤ 8 := by
    simp [intsrcFields]
  have hskipped : storeFields (store s.mem (mpAddr offset) (List.replicate 8 0)) (mpAddr offset)
      (intsrcFields true numCpus 2) =
      store s.mem (mpAddr offset) (intsrcEntry true numCpus 2).encode := by
    rw [storeFields_store s.mem (mpAddr offset) (by simpa using hfields)
      (by rw [List.length_replicate]; decide), intsrcEntry_encode]
  have hcover : store (store s.mem (mpAddr offset) (intsrcEntry true numCpus 2).encode)
      (mpAddr offset) (List.replicate 8 0) = store s.mem (mpAddr offset) (List.replicate 8 0) :=
    store_store_cover _ _ le_rfl
  rw [intsrcLoop, if_pos ⟨rfl, rfl⟩, intsrcLoop, if_neg hnext]
  refine (StateRun.bind_of_ok (StateRun.modify_apply _ s)).trans ?_
  rw [hskipped, StateRun.bind_apply, StateRun.bind_apply, putEntry, StateRun.bind_apply,
    StateRun.bind_apply, fillStruct, StateRun.modify_apply, StateRun.modify_apply, hcover]

theorem intsrcLoop_all (irq0Override : Bool) (numCpus : BitVec 32) (offset : Nat)
    (checksum : BitVec 32) :
    intsrcLoop irq0Override numCpus (List.range 16) offset checksum =
      putAll (intsrcEntries irq0Override numCpus (isaIrqs irq0Override)) offset checksum := by
  have hirqs : ∀ i ∈ isaIrqs irq0Override, ¬ (irq0Override ∧ i = 2) := fun i hi =>
    of_decide_eq_true (List.mem_filter.mp hi).2
  rw [← intsrcLoop_eq irq0Override numCpus hirqs]
  cases irq0Override with
  | false => rfl
  | true =>
    have hsplit : List.range 16 = [0, 1] ++ 2 :: 3 :: List.range' 4 12 := rfl
    have hjoin : isaIrqs true = [0, 1] ++ 3 :: List.range' 4 12 := rfl
    rw [hsplit, hjoin, intsrcLoop_append, intsrcLoop_append]
    simp only [intsrcLoop_skips numCpus (by decide : 3 ≠ 2)]

/-- The two LINTSRC entries are written, although the second is not cleared. -/
theorem finishMptable_eq (offset : Nat) (checksum : BitVec 32) :
    finishMptable offset checksum =
      putAll [lintsrcEntry mp_ExtINT 0#8 0#8, lintsrcEntry mp_NMI 0xff#8 1#8] offset checksum >>=
        fun r => finishHeader r.1 r.2 := by
  have hmodify (p : BitVec 32) : (modify fun s : Firmware =>
      { s with mem := storeFields s.mem p (lintsrcFields mp_NMI 0xff#8 1#8) }) =
      poke p (lintsrcEntry mp_NMI 0xff#8 1#8).encode := by
    funext s
    rw [StateRun.modify_apply, storeFields_lintsrc, poke_apply]
  rw [finishMptable, putEntry_eq (lintsrcEntry_encode mp_ExtINT 0#8 0#8) rfl (by decide)
    (by simp [lintsrcFields])]
  simp only [putAll, bind_assoc, pure_bind, hmodify]
  rfl

/-! ### The device is not part of a write -/

/-- The program does not look at the device and leaves it as it is. -/
def DevBlind {α : Type} (x : Fw α) : Prop :=
  ∀ (s : Firmware) (d : FwCfg), x { s with dev := d } =
    StateRun.mapState (fun t : Firmware => { t with dev := d }) (x s)

theorem DevBlind.bind {α β : Type} {x : Fw α} {g : α → Fw β} (hx : DevBlind x)
    (hg : ∀ a, DevBlind (g a)) : DevBlind (x >>= g) := fun s d =>
  StateRun.bind_mapState (hx s d) fun a t _ => hg a t d

theorem putAll_devBlind (es : List MpEntry) (offset : Nat) (checksum : BitVec 32) :
    DevBlind (putAll es offset checksum) := by
  induction es generalizing offset checksum with
  | nil => exact fun s d => rfl
  | cons e es ih =>
    intro s d
    rw [putAll, StateRun.bind_of_ok (poke_apply _ _ _), StateRun.bind_of_ok (poke_apply _ _ _),
      StateRun.bind_of_ok (StateRun.get_apply _), StateRun.bind_of_ok (StateRun.get_apply _)]
    exact ih _ _ { s with mem := store s.mem (mpAddr offset) e.encode } d

/-- Writing entries returns, with the device as it was. -/
theorem putAll_returns (es : List MpEntry) (offset : Nat) (checksum : BitVec 32) (s : Firmware) :
    ∃ r m, putAll es offset checksum s = .ok r { s with mem := m } := by
  induction es generalizing offset checksum s with
  | nil => exact ⟨(offset, checksum), s.mem, rfl⟩
  | cons e es ih =>
    obtain ⟨r, m, hrun⟩ := ih (offset + e.size)
      (checksum + mptableChecksum (store s.mem (mpAddr offset) e.encode) (mpAddr offset) e.size)
      { s with mem := store s.mem (mpAddr offset) e.encode }
    refine ⟨r, m, ?_⟩
    rw [putAll, StateRun.bind_of_ok (poke_apply _ _ _), StateRun.bind_of_ok (StateRun.get_apply _)]
    exact hrun

/-- The entries up to the IOAPIC, and those behind it. -/
def firstEntries (stepping features : BitVec 32) (d : FwCfg) : List MpEntry :=
  cpuEntries stepping features 0 d.numCpus.toNat ++
    [busEntry, ioapicEntry (d.word FW_CFG_NB_CPUS)]

def lastEntries (d : FwCfg) : List MpEntry :=
  intsrcEntries d.irq0Override (d.word FW_CFG_NB_CPUS) (isaIrqs d.irq0Override) ++
    [lintsrcEntry mp_ExtINT 0#8 0#8, lintsrcEntry mp_NMI 0xff#8 1#8]

theorem mpEntries_split (stepping features : BitVec 32) (d : FwCfg) :
    mpEntries stepping features d = firstEntries stepping features d ++ lastEntries d := by
  simp only [mpEntries, deviceMpEntries, middleEntries, firstEntries, lastEntries,
    List.append_assoc]

/-- What `setup_mptable` does behind the IOAPIC entry. -/
def interruptEntries (numCpus : BitVec 32) (offset : Nat) (checksum : BitVec 32) : Fw Unit := do
  fwCfgSelect FW_CFG_IRQ0_OVERRIDE
  let irq0Override ← fwCfgReadlLe
  let r ← putAll (intsrcEntries (irq0Override ≠ 0) numCpus (isaIrqs (irq0Override ≠ 0)))
    offset checksum
  finishMptable r.1 r.2

theorem deviceEntries_eq (numCpus : BitVec 32) (offset : Nat) (checksum : BitVec 32) :
    deviceEntries numCpus offset checksum =
      putAll [busEntry, ioapicEntry numCpus] offset checksum >>= fun r =>
        interruptEntries numCpus r.1 r.2 := by
  rw [deviceEntries, putEntry_eq busEntry_encode rfl (by decide) (by simp [busFields])]
  simp only [putEntry_eq (ioapicEntry_encode numCpus) rfl (by decide) (by simp [ioapicFields]),
    intsrcLoop_all, putAll, bind_assoc, pure_bind]
  rfl

theorem firstEntries_eq (stepping features : BitVec 32) (d : FwCfg) :
    (cpuLoop stepping features d.numCpus.toNat 0 60 0#32 >>= fun r =>
        deviceEntries (d.word FW_CFG_NB_CPUS) r.1 r.2) =
      putAll (firstEntries stepping features d) 60 0#32 >>= fun r =>
        interruptEntries (d.word FW_CFG_NB_CPUS) r.1 r.2 := by
  simp only [cpuLoop_eq, deviceEntries_eq, firstEntries, putAll_append, bind_assoc]

/-- For every processor count the run publishes the table with the entries of the
device: each entry is written behind the one before. -/
theorem setupMptable_publishes (stepping features : BitVec 32) (s : Firmware) :
    ∃ dev, setupMptable stepping features s =
      publishMpTable (mpEntries stepping features s.dev) { s with dev := dev } := by
  let d₁ := (s.dev.select FW_CFG_NB_CPUS).skip 4
  let d₂ := (d₁.select FW_CFG_IRQ0_OVERRIDE).skip 4
  let s₁ : Firmware := s.mpWritten (mpfBytes ++ rawHeader)
  obtain ⟨r, m, hfirst⟩ := putAll_returns (firstEntries stepping features s.dev) 60 0#32
    { s₁ with dev := d₁ }
  have hblind := putAll_devBlind (firstEntries stepping features s.dev) 60 0#32
    { s₁ with dev := d₁ } d₂
  rw [hfirst] at hblind
  have hpublish : publishMpTable (mpEntries stepping features s.dev) { s with dev := d₂ } =
      (putAll (lastEntries s.dev) r.1 r.2 >>= fun r => finishHeader r.1 r.2)
        { s₁ with mem := m, dev := d₂ } := by
    rw [publishMpTable, StateRun.bind_of_ok (startMptable_apply _), mpEntries_split,
      putAll_append, bind_assoc]
    exact StateRun.bind_of_ok hblind
  refine ⟨d₂, ?_⟩
  rw [hpublish, setupMptable, StateRun.bind_of_ok (startMptable_apply s),
    StateRun.bind_of_ok (fwCfgSelect_apply _ _), StateRun.bind_of_ok (fwCfgReadlLe_select _ _)]
  change (cpuLoop stepping features s.dev.numCpus.toNat 0 60 0#32 >>= fun r =>
    deviceEntries (s.dev.word FW_CFG_NB_CPUS) r.1 r.2) { s₁ with dev := d₁ } = _
  rw [firstEntries_eq, StateRun.bind_of_ok hfirst, interruptEntries,
    StateRun.bind_of_ok (fwCfgSelect_apply _ _), StateRun.bind_of_ok (fwCfgReadlLe_select _ _),
    lastEntries, putAll_append, bind_assoc]
  simp only [finishMptable_eq]
  rfl

/-! ### The ids -/

/-- The id of a processor entry. -/
def MpEntry.cpuId : MpEntry → Option Byte
  | .cpu apicid _ _ _ _ => some apicid
  | _ => none

/-- The id of a processor or an IOAPIC entry. -/
def MpEntry.apicId : MpEntry → Option Byte
  | .cpu apicid _ _ _ _ => some apicid
  | .ioapic apicid _ _ _ => some apicid
  | _ => none

def MpEntry.isBoot : MpEntry → Bool
  | .cpu _ _ cpuflag _ _ => cpuflag &&& CPU_BOOTPROCESSOR ≠ 0
  | _ => false

/-- An operating system can tell the APICs of a table apart: the ids differ and
none of them is the broadcast id, one processor boots, and the interrupts go to
an IOAPIC and not to a processor. -/
structure UnambiguousApics (es : List MpEntry) : Prop where
  distinct : (es.filterMap MpEntry.apicId).Nodup
  noBroadcast : 0xff#8 ∉ es.filterMap MpEntry.apicId
  oneBoot : es.countP MpEntry.isBoot = 1
  interrupts : ∀ p ∈ es.filterMap MpEntry.destination,
    p.1 ∈ es.filterMap MpEntry.ioapicId ∧ p.1 ∉ es.filterMap MpEntry.cpuId

section Ids

variable (stepping features : BitVec 32) (d : FwCfg)

theorem filterMap_cpuId : (mpEntries stepping features d).filterMap MpEntry.cpuId =
    (List.range d.numCpus.toNat).map (BitVec.ofNat 8) := by
  have hcpus : (cpuEntries stepping features 0 d.numCpus.toNat).filterMap MpEntry.cpuId =
      (List.range d.numCpus.toNat).map (BitVec.ofNat 8) := by
    rw [cpuEntries, List.filterMap_map, List.range_eq_range', ← List.filterMap_eq_map]
    rfl
  have hdevice : (deviceMpEntries d.irq0Override (d.word FW_CFG_NB_CPUS)).filterMap
      MpEntry.cpuId = [] := by
    cases d.irq0Override <;> rfl
  rw [mpEntries, List.filterMap_append, hcpus, hdevice, List.append_nil]

theorem filterMap_apicId : (mpEntries stepping features d).filterMap MpEntry.apicId =
    (List.range d.numCpus.toNat).map (BitVec.ofNat 8) ++ [ioapicId (d.word FW_CFG_NB_CPUS)] := by
  have hcpus : (cpuEntries stepping features 0 d.numCpus.toNat).filterMap MpEntry.apicId =
      (List.range d.numCpus.toNat).map (BitVec.ofNat 8) := by
    rw [cpuEntries, List.filterMap_map, List.range_eq_range', ← List.filterMap_eq_map]
    rfl
  have hdevice : (deviceMpEntries d.irq0Override (d.word FW_CFG_NB_CPUS)).filterMap
      MpEntry.apicId = [ioapicId (d.word FW_CFG_NB_CPUS)] := by
    cases d.irq0Override <;> rfl
  rw [mpEntries, List.filterMap_append, hcpus, hdevice]

/-- The first processor boots, and no other. -/
theorem countP_isBoot (hpos : 0 < d.numCpus) :
    (mpEntries stepping features d).countP MpEntry.isBoot = 1 := by
  obtain ⟨n, hn⟩ : ∃ n, d.numCpus.toNat = n + 1 := ⟨d.numCpus.toNat - 1, by omega⟩
  have hothers : (cpuEntries stepping features 1 n).countP MpEntry.isBoot = 0 := by
    rw [List.countP_eq_zero]
    intro e he
    obtain ⟨i, hi, rfl⟩ := List.mem_map.mp he
    have hne : ¬ i = 0 := by
      have := (List.mem_range'_1.mp hi).1
      omega
    rw [cpuEntry, if_neg hne]
    exact fun h => absurd h (by decide : ¬ decide (CPU_ENABLED &&& CPU_BOOTPROCESSOR ≠ 0#8) = true)
  have hdevice : (deviceMpEntries d.irq0Override (d.word FW_CFG_NB_CPUS)).countP
      MpEntry.isBoot = 0 := by
    cases d.irq0Override <;> rfl
  have hfirst : cpuEntries stepping features 0 (n + 1) =
      cpuEntry stepping features 0 :: cpuEntries stepping features 1 n := by
    simp [cpuEntries, List.range'_succ]
  rw [mpEntries, hn, hfirst, List.countP_append, List.countP_cons, hothers, hdevice]
  rfl

/-- The IOAPIC's id is the count plus one, cut to a byte. -/
theorem ioapicId_eq (hpos : 0 < d.numCpus) :
    ioapicId (d.word FW_CFG_NB_CPUS) = BitVec.ofNat 8 (d.numCpus.toNat + 1) := by
  have hcount : d.numCpus.toNat = (d.word FW_CFG_NB_CPUS).toNat := by
    have hlt := (d.word FW_CFG_NB_CPUS).isLt
    unfold FwCfg.numCpus at hpos ⊢
    rw [BitVec.toInt_eq_toNat_cond] at hpos ⊢
    by_cases hsmall : 2 * (d.word FW_CFG_NB_CPUS).toNat < 2 ^ 32
    · rw [if_pos hsmall, Int.toNat_natCast]
    · rw [if_neg hsmall] at hpos
      omega
  apply BitVec.eq_of_toNat_eq
  rw [ioapicId, BitVec.toNat_setWidth, BitVec.toNat_add, BitVec.toNat_ofNat, hcount]
  change ((d.word FW_CFG_NB_CPUS).toNat + 1) % 2 ^ 32 % 2 ^ 8 =
    ((d.word FW_CFG_NB_CPUS).toNat + 1) % 2 ^ 8
  omega

/-- Numbers below 256 are different bytes. -/
theorem ofNat_byte_inj {i j : Nat} (hi : i < 256) (hj : j < 256)
    (h : BitVec.ofNat 8 i = BitVec.ofNat 8 j) : i = j := by
  have hnat := congrArg BitVec.toNat h
  rwa [BitVec.toNat_ofNat, BitVec.toNat_ofNat, Nat.mod_eq_of_lt hi, Nat.mod_eq_of_lt hj] at hnat

/-- Up to 253 processors all ids are below 255. -/
theorem unambiguous_of_le (hpos : 0 < d.numCpus) (hle : d.numCpus ≤ 253) :
    UnambiguousApics (mpEntries stepping features d) := by
  have hn : d.numCpus.toNat ≤ 253 := by omega
  have hioapic := ioapicId_eq d hpos
  obtain ⟨hids, hdest, -⟩ := mpEntries_destinations stepping features d
  have hcpu : ∀ b ∈ (List.range d.numCpus.toNat).map (BitVec.ofNat 8),
      ∃ i < d.numCpus.toNat, b = BitVec.ofNat 8 i := by
    intro b hb
    obtain ⟨i, hi, rfl⟩ := List.mem_map.mp hb
    exact ⟨i, List.mem_range.mp hi, rfl⟩
  have hnew : ioapicId (d.word FW_CFG_NB_CPUS) ∉
      (List.range d.numCpus.toNat).map (BitVec.ofNat 8) := by
    intro hmem
    obtain ⟨i, hi, heq⟩ := hcpu _ hmem
    rw [hioapic] at heq
    have hsame := ofNat_byte_inj (by omega) (by omega) heq
    omega
  refine ⟨?_, ?_, countP_isBoot stepping features d hpos, fun p hp => ?_⟩
  · rw [filterMap_apicId, List.nodup_append]
    refine ⟨?_, List.nodup_singleton _, fun a ha b hb heq => ?_⟩
    · refine List.Nodup.map_on (fun i hi j hj h => ?_) List.nodup_range
      have hi' := List.mem_range.mp hi
      have hj' := List.mem_range.mp hj
      exact ofNat_byte_inj (by omega) (by omega) h
    · rw [heq, List.mem_singleton.mp hb] at ha
      exact hnew ha
  · rw [filterMap_apicId]
    intro hmem
    rcases List.mem_append.mp hmem with h | h
    · obtain ⟨i, hi, heq⟩ := hcpu _ h
      have hsame := @ofNat_byte_inj 255 i (by decide) (by omega) heq
      omega
    · rw [hioapic] at h
      have hsame := @ofNat_byte_inj 255 _ (by decide) (by omega) (List.mem_singleton.mp h)
      omega
  · rw [hdest p hp, hids, filterMap_cpuId]
    exact ⟨List.mem_singleton_self _, hnew⟩

/-- With 254 processors the IOAPIC has the broadcast id, with 255 the id of the
first processor, and with more a processor has the broadcast id. -/
theorem not_unambiguous_of_gt (hgt : 253 < d.numCpus) :
    ¬ UnambiguousApics (mpEntries stepping features d) := by
  intro h
  have hn : 253 < d.numCpus.toNat := by omega
  have hioapic := ioapicId_eq d (by omega)
  have hnone := h.noBroadcast
  have hdistinct := h.distinct
  rw [filterMap_apicId] at hnone hdistinct
  rcases Nat.lt_trichotomy d.numCpus.toNat 255 with hlt | heq | hmore
  · have h254 : d.numCpus.toNat = 254 := by omega
    rw [h254] at hioapic
    exact hnone (List.mem_append_right _ (List.mem_singleton.mpr hioapic.symm))
  · rw [heq] at hioapic hdistinct
    have hfirst : BitVec.ofNat 8 0 ∈ (List.range 255).map (BitVec.ofNat 8) :=
      List.mem_map_of_mem (List.mem_range.mpr (by decide))
    exact (List.nodup_append.mp hdistinct).2.2 _ hfirst _ (List.mem_singleton_self _)
      hioapic.symm
  · exact hnone (List.mem_append_left _
      (List.mem_map.mpr ⟨255, List.mem_range.mpr hmore, rfl⟩))

end Ids

/-- For every positive processor count the firmware publishes the table of the
device, and an operating system can tell its APICs apart exactly when there are
at most 253 processors. -/
theorem mpTable_unambiguous_iff (stepping features : BitVec 32) (s : Firmware)
    (hpos : 0 < s.dev.numCpus) :
    (∃ dev, setupMptable stepping features s =
      publishMpTable (mpEntries stepping features s.dev) { s with dev := dev }) ∧
    (UnambiguousApics (mpEntries stepping features s.dev) ↔ s.dev.numCpus ≤ 253) := by
  refine ⟨setupMptable_publishes stepping features s, fun h => ?_,
    unambiguous_of_le stepping features s.dev hpos⟩
  by_contra hgt
  exact not_unambiguous_of_gt stepping features s.dev (by omega) h

theorem mpTable_unambiguous_two :
    UnambiguousApics (mpEntries 0x663#32 0x78bfbff#32 (mpMachine 2).dev) :=
  (mpTable_unambiguous_iff 0x663#32 0x78bfbff#32 (mpMachine 2) (by decide)).2.mpr (by decide)

/-- With 255 processors the IOAPIC has the id of the boot processor, and every
interrupt goes to it. -/
theorem mpTable_ambiguous_255 :
    (mpMachine 255).dev.numCpus = 255 ∧
      ioapicId ((mpMachine 255).dev.word FW_CFG_NB_CPUS) = 0#8 ∧
      cpuEntry 0x663#32 0x78bfbff#32 0 ∈ mpEntries 0x663#32 0x78bfbff#32 (mpMachine 255).dev ∧
      ¬ UnambiguousApics (mpEntries 0x663#32 0x78bfbff#32 (mpMachine 255).dev) := by
  refine ⟨by decide, by decide, by decide +kernel, fun h => ?_⟩
  have hinterrupt : ((0#8, 1#8) : Byte × Byte) ∈
      (mpEntries 0x663#32 0x78bfbff#32 (mpMachine 255).dev).filterMap MpEntry.destination := by
    decide +kernel
  refine (h.interrupts _ hinterrupt).2 ?_
  decide +kernel

end Qboot
