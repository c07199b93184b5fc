import Qboot.Boot.Layout
import Qboot.Boot.Writes

/-!
`main` from its start up to the boot. Until it loads a kernel, the firmware's
heap blocks and fixed tables take no memory that its map gives to the kernel but
the vector table. Its variables and its stack are not part of the memory here.
-/

namespace Qboot

open Bytes ByteMemory

/-! ### The parts of `main` -/

/-- `main` up to the directory of the device. -/
def setupMachine (platform : Platform) (labels : Labels) : Fw Unit := do
  modify fun s => { s with haveMmconfig := platform.haveMmconfig }
  if platform.havePci = true then
    finishPci platform labels
  setupIdt labels
  fwCfgSetup

/-- `main` from there up to the boot. -/
def setupTables (platform : Platform) : Fw Unit := do
  extractAcpi
  extractE820
  setupMptable platform.stepping platform.features
  extractSmbios

/-- The device names fields inside its files only, its map is a table of whole
entries, and the processors have room in the EBDA. -/
structure Firmware.Orderly (s : Firmware) : Prop where
  script : ∀ cmd t, s.AcpiReaches cmd t → cmd.IndexOk t ∧ cmd.Inside t
  map : ∀ i, fileIndex s.files e820Name = some i →
    e820EntryBytes ∣ s.fileSize i ∧ 104 + s.fileSize i < 2 ^ 32
  cpus : s.dev.numCpus ≤ 40

section Parts

variable {platform : Platform} {labels : Labels} {s t u : Firmware}

theorem setupMachine_ok (hu : setupMachine platform labels s = .ok () u) :
    let s₁ : Firmware := { s with haveMmconfig := platform.haveMmconfig }
    ∃ v, (platform.havePci = true ∧ finishPci platform labels s₁ = .ok () v ∨
        platform.havePci ≠ true ∧ v = s₁) ∧
      fwCfgSetup (v.withBlock 0#32 (vectorTable labels)) = .ok () u := by
  intro s₁
  have hidt (v : Firmware) : (setupIdt labels >>= fun _ => fwCfgSetup) v =
      fwCfgSetup (v.withBlock 0#32 (vectorTable labels)) :=
    StateRun.bind_of_ok (setupIdt_apply labels v)
  rw [setupMachine, StateRun.bind_of_ok (StateRun.modify_apply _ _)] at hu
  by_cases hpci : platform.havePci = true
  · rw [if_pos hpci] at hu
    obtain ⟨⟨⟩, v, hfinish, hrest⟩ := StateRun.bind_ok.mp hu
    exact ⟨v, .inl ⟨hpci, hfinish⟩, (hidt v).symm.trans hrest⟩
  · rw [if_neg hpci] at hu
    exact ⟨s₁, .inr ⟨hpci, rfl⟩, (hidt s₁).symm.trans hu⟩

/-- After its two parts `main` is at the boot. -/
theorem main_of_setup (hu : setupMachine platform labels s = .ok () u)
    (ht : setupTables platform u = .ok () t) :
    main platform labels s = (bootFromFwcfg >>= fun _ => throw Stop.panic) t := by
  obtain ⟨v, hfinish, hsetup⟩ := setupMachine_ok hu
  obtain ⟨⟨⟩, t₁, hacpi, ht⟩ := StateRun.bind_ok.mp ht
  obtain ⟨⟨⟩, t₂, he820, ht⟩ := StateRun.bind_ok.mp ht
  obtain ⟨⟨⟩, t₃, hmptable, hsmbios⟩ := StateRun.bind_ok.mp ht
  rw [main, StateRun.bind_of_ok (StateRun.modify_apply _ _)]
  have hrest : (do
      setupIdt labels
      fwCfgSetup
      extractAcpi
      extractE820
      setupMptable platform.stepping platform.features
      extractSmbios
      bootFromFwcfg
      throw Stop.panic : Fw Unit) v = (bootFromFwcfg >>= fun _ => throw Stop.panic) t :=
    (StateRun.bind_of_ok (setupIdt_apply labels v)).trans
      ((StateRun.bind_of_ok hsetup).trans ((StateRun.bind_of_ok hacpi).trans
        ((StateRun.bind_of_ok he820).trans ((StateRun.bind_of_ok hmptable).trans
          (StateRun.bind_of_ok hsmbios)))))
  rcases hfinish with ⟨hpci, hfinish⟩ | ⟨hpci, rfl⟩
  · rw [if_pos hpci]
    exact (StateRun.bind_of_ok hfinish).trans hrest
  · rw [if_neg hpci]
    exact hrest

variable {I : Firmware → Prop} (hI : HeapInvariant I)

include hI

theorem setupMachine_keeps (hu : setupMachine platform labels s = .ok () u) (hs : I s) : I u := by
  have hrest : StateRun.Keeps I (setupIdt labels >>= fun _ => fwCfgSetup) :=
    ((setupIdt_keepsHeap labels).keeps hI).bind fun _ => fwCfgSetup_keeps hI
  have hkeeps : StateRun.Keeps I (setupMachine platform labels) := by
    refine StateRun.Keeps.bind ?_ fun _ => ?_
    · exact StateRun.Keeps.modify fun s hs => hI.heap s _ rfl hs
    · exact ((finishPci_keeps hI platform labels).bind fun _ => hrest).ite hrest
  have hfinal := hkeeps s hs
  rwa [hu] at hfinal

theorem setupTables_keeps (ht : setupTables platform s = .ok () t) (hs : I s) : I t := by
  have hkeeps : StateRun.Keeps I (setupTables platform) :=
    (extractAcpi_keeps hI).bind fun _ => (extractE820_keeps hI).bind fun _ =>
      ((setupMptable_keepsHeap _ _).keeps hI).bind fun _ => extractSmbios_keeps hI
  have hfinal := hkeeps s hs
  rwa [ht] at hfinal

end Parts

/-! ### What the parts touch -/

/-- The variables that matter until the table loader starts. -/
def Firmware.startFacts (s : Firmware) : (BitVec 16 → List Byte) × (Fin 20 → BitVec 32) × Bool :=
  (s.dev.entry, s.fileAddress, s.haveMmconfig)

/-- What the device says, which nothing changes after `fw_cfg_setup`. -/
def Firmware.deviceFacts (s : Firmware) : List FwCfgFile × (BitVec 16 → List Byte) × Bool :=
  (s.files, s.dev.entry, s.haveMmconfig)

theorem settled_startFacts : SettledSetup Firmware.startFacts where
  mem _ _ := rfl
  dev s d h := by rw [Firmware.startFacts, Firmware.startFacts, h]
  allocate s a := by simp [Firmware.startFacts]
  version _ _ := rfl
  files _ _ := rfl

theorem settledAcpi_deviceFacts : SettledAcpi Firmware.deviceFacts where
  mem _ _ := rfl
  dev s d h := by rw [Firmware.deviceFacts, Firmware.deviceFacts, h]
  allocate s a := by simp [Firmware.deviceFacts]
  fileAddress _ _ := rfl
  startInfo _ _ := rfl

theorem settledE820_deviceFacts : SettledE820 Firmware.deviceFacts where
  toSettled := settledAcpi_deviceFacts.toSettled
  e820 _ _ := rfl
  e820Seg _ _ := rfl
  lowmem _ _ := rfl

/-- Where the map is, which nothing changes after `extract_e820`. -/
def Firmware.mapFacts (s : Firmware) : BitVec 32 × BitVec 16 := (s.e820, s.e820Seg)

theorem settled_mapFacts : Settled Firmware.mapFacts where
  mem _ _ := rfl
  dev _ _ _ := rfl
  allocate s a := by simp [Firmware.mapFacts]

/-- Without the variables. -/
theorem Touched.forget {β : Type} {f : Firmware → β} {area : BitVec 32 → Prop}
    {new : List Alloc} {s t : Firmware} (h : Touched f area new s t) :
    Touched (fun _ => ()) area new s t := ⟨h.allocs, h.frame, rfl⟩

/-- The interrupt vectors. -/
def InVectors (a : BitVec 32) : Prop := a.toNat < 0x400

/-- The vectors and the MP table are where no allocator put them. -/
def InFixed (a : BitVec 32) : Prop := InVectors a ∨ InEbda a

section TouchedParts

variable {platform : Platform} {labels : Labels} {s t u : Firmware}

theorem finishPci_touches {β : Type} {f : Firmware → β} (hf : Settled f)
    (area : BitVec 32 → Prop) (platform : Platform) (labels : Labels) :
    Touches f area (finishPci platform labels) := by
  apply (Touches.panicIf _).bind
  intro _ s
  rw [setupBios32_apply]
  exact ⟨_, Touched.withBlock hf s (s.request .fseg 16#32 16#32)
    (le_of_eq length_bios32Directory)⟩

theorem within_vectors {a : BitVec 32} (h : Within 0#32 0x400 a) : InVectors a :=
  ((within_iff (p := 0#32) (by decide)).mp h).2

theorem setupIdt_touched {β : Type} {f : Firmware → β} (hf : Settled f) (labels : Labels)
    (s : Firmware) : Touched f InVectors [] s (s.withBlock 0#32 (vectorTable labels)) := by
  apply Touched.of_mem hf
  intro a ha
  apply store_of_not_within
  rw [length_vectorTable]
  exact fun hin => ha (within_vectors hin)

/-- A directory that fits in the address space is read into its block, behind
the vectors. -/
theorem setupMachine_touched (hdir : 64 * s.dev.fileCount.toInt.toNat < 2 ^ 32)
    (hu : setupMachine platform labels s = .ok () u) :
    ∃ x new new', load x.mem 0#32 0x400 = vectorTable labels ∧
      Touched Firmware.startFacts InVectors new
        { s with haveMmconfig := platform.haveMmconfig } x ∧
      Touched Firmware.startFacts (fun _ => False) new' x u := by
  have hf := settled_startFacts.toSettled
  obtain ⟨v, hfinish, hsetup⟩ := setupMachine_ok hu
  obtain ⟨new, hv⟩ : ∃ new, Touched Firmware.startFacts InVectors new
      { s with haveMmconfig := platform.haveMmconfig } v := by
    rcases hfinish with ⟨-, hrun⟩ | ⟨-, rfl⟩
    · obtain ⟨new, h⟩ := finishPci_touches hf InVectors platform labels
        { s with haveMmconfig := platform.haveMmconfig }
      rw [hrun] at h
      exact ⟨new, h⟩
    · exact ⟨[], Touched.refl _ _ _⟩
  have hentry : v.dev.entry = s.dev.entry := congrArg Prod.fst hv.kept
  have hidt := setupIdt_touched hf labels v
  obtain ⟨new', hfiles⟩ := fwCfgSetup_touched settled_startFacts (fun _ => False)
    (v.withBlock 0#32 (vectorTable labels)) (by
      change 64 * (FwCfg.fileCount v.dev).toInt.toNat < 2 ^ 32
      rwa [FwCfg.fileCount, hentry])
  rw [hsetup] at hfiles
  have hvectors : load (v.withBlock 0#32 (vectorTable labels)).mem 0#32 0x400 =
      vectorTable labels := load_vectorTable labels v.mem
  exact ⟨v.withBlock 0#32 (vectorTable labels), _, new', hvectors, hv.trans hidt, hfiles⟩

/-- The stages of `setupTables`, each with the state that it leaves. -/
theorem setupTables_ok (ht : setupTables platform s = .ok () t) :
    ∃ v w x, extractAcpi s = .ok () v ∧ extractE820 v = .ok () w ∧
      setupMptable platform.stepping platform.features w = .ok () x ∧
      extractSmbios x = .ok () t := by
  obtain ⟨⟨⟩, v, hacpi, ht⟩ := StateRun.bind_ok.mp ht
  obtain ⟨⟨⟩, w, he820, ht⟩ := StateRun.bind_ok.mp ht
  obtain ⟨⟨⟩, x, hmptable, hsmbios⟩ := StateRun.bind_ok.mp ht
  exact ⟨v, w, x, hacpi, he820, hmptable, hsmbios⟩

/-- Without `etc/e820` there is no boot. -/
theorem extractE820_found (ht : extractE820 s = .ok () t) :
    ∃ i, fileIndex s.files e820Name = some i := by
  cases hfile : fileIndex s.files e820Name with
  | some i => exact ⟨i, rfl⟩
  | none =>
    rw [extractE820, StateRun.bind_of_ok (fwCfgFileId_none hfile),
      StateRun.bind_of_error (panicIf_of rfl s)] at ht
    cases ht

/-- The table loader and the map stay in their blocks. -/
theorem firstTables_touched {v w : Firmware} (area : BitVec 32 → Prop)
    (hfresh : ∀ i, s.fileAddress i = 0#32) (horderly : s.Orderly)
    (hacpi : extractAcpi s = .ok () v) (he820 : extractE820 v = .ok () w) :
    ∃ new, Touched Firmware.deviceFacts area new s w := by
  obtain ⟨new, hv⟩ := extractAcpi_touched settledAcpi_deviceFacts area hfresh horderly.script hacpi
  obtain ⟨i, hfile⟩ := extractE820_found he820
  have hfiles : v.files = s.files := congrArg Prod.fst hv.kept
  have hsize : v.fileSize i = s.fileSize i := by rw [Firmware.fileSize, hfiles]; rfl
  obtain ⟨hmult, hfit⟩ := horderly.map i (hfiles ▸ hfile)
  rw [← hsize] at hmult hfit
  have hw := extractE820_touched settledE820_deviceFacts area hfile hmult hfit he820
  exact ⟨_, hv.trans hw⟩

/-- The MP table is in the EBDA, and the SMBIOS tables stay in their blocks. -/
theorem lastTables_touched {w x : Firmware} (hcpus : w.dev.numCpus ≤ 40)
    (hmptable : setupMptable platform.stepping platform.features w = .ok () x)
    (hsmbios : extractSmbios x = .ok () t) :
    ∃ new, Touched Firmware.mapFacts InEbda new w t := by
  have hx := setupMptable_touched settled_mapFacts (fun _ _ => rfl) platform.stepping
    platform.features w hcpus
  rw [hmptable] at hx
  obtain ⟨new, ht⟩ := extractSmbios_touches settled_mapFacts InEbda x
  rw [hsmbios] at ht
  exact ⟨_, hx.trans ht⟩

theorem numCpus_congr {d d' : FwCfg} (h : d.entry = d'.entry) : d.numCpus = d'.numCpus := by
  rw [FwCfg.numCpus, FwCfg.word, FwCfg.numCpus, FwCfg.word, h]

theorem setupTables_touched (hfresh : ∀ i, s.fileAddress i = 0#32) (horderly : s.Orderly)
    (ht : setupTables platform s = .ok () t) : ∃ new, Touched (fun _ => ()) InEbda new s t := by
  obtain ⟨v, w, x, hacpi, he820, hmptable, hsmbios⟩ := setupTables_ok ht
  obtain ⟨new, hfirst⟩ := firstTables_touched InEbda hfresh horderly hacpi he820
  have hentry : w.dev.entry = s.dev.entry :=
    congrArg (fun facts => facts.2.1) hfirst.kept
  obtain ⟨new', hlast⟩ :=
    lastTables_touched (numCpus_congr hentry ▸ horderly.cpus) hmptable hsmbios
  exact ⟨_, hfirst.forget.trans hlast.forget⟩

end TouchedParts

/-! ### The memory that a boot writes -/

/-- An entry of every map keeps the byte from the kernel. -/
def MapReserves (a : BitVec 32) : Prop :=
  ∃ e ∈ fixedEntries, e.type ≠ E820_RAM ∧
    e.addr.toNat ≤ a.toNat ∧ a.toNat < e.addr.toNat + e.size.toNat

theorem mapReserves_iff {a : BitVec 32} :
    MapReserves a ↔ InEbda a ∨ nvsStart ≤ a.toNat ∧ a.toNat < fsegEnd := by
  simp [MapReserves, fixedEntries, InEbda, nvsStart, fsegEnd, E820_RAM, E820_RESERVED, E820_NVS]
  omega

/-- A block in its range is in front of the firmware, or behind it. -/
theorem Alloc.InReserved.place {b : Alloc} {edata a : BitVec 32} (h : b.InReserved edata)
    (hedata : fsegStart ≤ edata.toNat) (ha : Within b.base b.size.toNat a) :
    (nvsStart ≤ a.toNat ∧ a.toNat < fsegEnd) ∧ (a.toNat < fsegStart ∨ edata.toNat ≤ a.toNat) := by
  obtain ⟨zone, size, align, start, base⟩ := b
  cases zone with
  | low =>
    obtain ⟨hlow, hend⟩ : nvsStart ≤ base.toNat ∧ base.toNat + size.toNat ≤ fsegStart := h
    rw [nvsStart, fsegStart] at *
    have hwithin := (within_iff (p := base) (n := size.toNat) (by omega)).mp ha
    rw [fsegEnd]
    omega
  | fseg =>
    obtain ⟨hbase, hend⟩ : edata.toNat ≤ base.toNat ∧ base.toNat + size.toNat ≤ fsegEnd := h
    rw [fsegStart, fsegEnd] at *
    have hwithin := (within_iff (p := base) (n := size.toNat) (by omega)).mp ha
    rw [nvsStart]
    omega

section Setup

variable {platform : Platform} {labels : Labels} {dev : FwCfg} {mem : Mem} {edata : BitVec 32}
  {t u : Firmware}

theorem pointersInside_start (dev : FwCfg) (mem : Mem) (hedata : edata.toNat ≤ fsegEnd) :
    PointersInside edata (Firmware.initial dev mem 0xf0000#32 edata) := by
  refine ⟨?_, ?_, le_rfl, hedata⟩
  · change nvsStart ≤ (0xf0000#32).toNat
    decide
  · change (0xf0000#32).toNat ≤ fsegStart
    decide

/-- While the requests fit, all blocks so far are where they belong. -/
def AllReserved (edata : BitVec 32) (s : Firmware) : Prop :=
  (∀ b ∈ s.allocs, b.Fits) → Apportioned edata (fun _ => False) [] s

theorem heapInvariant_allReserved (hedata : fsegStart ≤ edata.toNat) :
    HeapInvariant (AllReserved edata) := heapInvariant_apportioned hedata _ []

theorem allReserved_start (dev : FwCfg) (mem : Mem) (hedata : edata.toNat ≤ fsegEnd) :
    AllReserved edata (Firmware.initial dev mem 0xf0000#32 edata) :=
  fun _ => apportioned_start (pointersInside_start dev mem hedata) fun _ h => h.elim

theorem AllReserved.inReserved {s : Firmware} (h : AllReserved edata s)
    (hfits : ∀ b ∈ s.allocs, b.Fits) {b : Alloc} (hb : b ∈ s.allocs) : b.InReserved edata := by
  obtain ⟨blocks, hallocs, hblocks⟩ := (h hfits).blocks
  rw [hallocs, List.append_nil] at hb
  exact (hblocks b hb).1

theorem setupMachine_reserved (hedata : fsegStart ≤ edata.toNat ∧ edata.toNat ≤ fsegEnd)
    (hu : setupMachine platform labels (Firmware.initial dev mem 0xf0000#32 edata) = .ok () u) :
    AllReserved edata u :=
  setupMachine_keeps (heapInvariant_allReserved hedata.1) hu (allReserved_start dev mem hedata.2)

/-- From the start of the firmware the table loader finds no file loaded yet. -/
theorem setupMachine_start (hdir : 64 * dev.fileCount.toInt.toNat < 2 ^ 32)
    (hu : setupMachine platform labels (Firmware.initial dev mem 0xf0000#32 edata) = .ok () u) :
    ∃ x new new', load x.mem 0#32 0x400 = vectorTable labels ∧
      Touched (fun _ => ()) InVectors new { Firmware.initial dev mem 0xf0000#32 edata with
        haveMmconfig := platform.haveMmconfig } x ∧
      Touched (fun _ => ()) (fun _ => False) new' x u ∧
      (∀ i, u.fileAddress i = 0#32) ∧ u.haveMmconfig = platform.haveMmconfig := by
  have hcount : (Firmware.initial dev mem 0xf0000#32 edata).dev.fileCount = dev.fileCount := by
    rw [Firmware.initial]
  obtain ⟨x, new, new', hvectors, hidt, hfiles⟩ := setupMachine_touched (hcount ▸ hdir) hu
  have hkept := hfiles.kept.trans hidt.kept
  exact ⟨x, new, new', hvectors, hidt.forget, hfiles.forget,
    fun i => congrFun (congrArg (fun facts => facts.2.1) hkept) i,
    congrArg (fun facts => facts.2.2) hkept⟩

/-- While the requests fit, a boot only writes to the interrupt vectors and to
memory that its map reserves, and never to the image of the firmware. This is
about writes through pointers to heap blocks and to fixed tables. -/
theorem setup_writes_reserved (hedata : fsegStart ≤ edata.toNat ∧ edata.toNat ≤ fsegEnd)
    (hdir : 64 * dev.fileCount.toInt.toNat < 2 ^ 32)
    (hu : setupMachine platform labels (Firmware.initial dev mem 0xf0000#32 edata) = .ok () u)
    (horderly : u.Orderly) (ht : setupTables platform u = .ok () t)
    (hfits : ∀ b ∈ t.allocs, b.Fits) {a : BitVec 32} (hne : t.mem a ≠ mem a) :
    InVectors a ∨ MapReserves a ∧ (a.toNat < fsegStart ∨ edata.toNat ≤ a.toNat) := by
  have hreserved := setupTables_keeps (heapInvariant_allReserved hedata.1) ht
    (setupMachine_reserved hedata hu)
  obtain ⟨x, new, new', -, hidt, hfiles, hfresh, -⟩ := setupMachine_start hdir hu
  obtain ⟨last, htables⟩ := setupTables_touched hfresh horderly ht
  have hmachine := hidt.trans (hfiles.mono fun _ => False.elim)
  have hall : Touched (fun _ => ()) InFixed (last ++ (new' ++ new)) _ t :=
    (hmachine.mono fun _ => Or.inl).trans (htables.mono fun _ => Or.inr)
  by_cases hvectors : InVectors a
  · exact Or.inl hvectors
  right
  by_cases hebda : InEbda a
  · refine ⟨mapReserves_iff.mpr (Or.inl hebda), Or.inl ?_⟩
    have hend := hebda.2
    rw [fsegStart]
    omega
  · -- a byte outside the fixed places changes in a block
    obtain ⟨b, hb, hin⟩ : ∃ b ∈ last ++ (new' ++ new), Within b.base b.size.toNat a := by
      by_contra hnone
      exact hne (hall.frame a (not_or.mpr ⟨hvectors, hebda⟩) fun b hb hin => hnone ⟨b, hb, hin⟩)
    have hmem : b ∈ t.allocs := by
      rw [hall.allocs]
      exact List.mem_append_left _ hb
    obtain ⟨hrange, hside⟩ := (hreserved.inReserved hfits hmem).place hedata.1 hin
    exact ⟨mapReserves_iff.mpr (Or.inr hrange), hside⟩

end Setup

/-- The machine with ACPI tables of 256 bytes when the loader starts. -/
def smallTables : Firmware :=
  StateRun.final (setupMachine q35Platform fsegLabels (bigTablesMachine 0x100))

/-- The machine when all tables are built. -/
def smallTablesBuilt : Firmware := StateRun.final (setupTables q35Platform smallTables)

theorem smallTables_orderly : smallTables.Orderly where
  script := by
    have hscript : smallTables.loaderScript =
        [.alloc (padTo 56 acpiTablesName) 64#32 1#8] := by decide +kernel
    rintro cmd t ⟨-, hreach⟩
    rw [hscript] at hreach
    cases hreach with
    | here _ =>
      have hfile : fileIndex smallTables.loaderStart.files (padTo 56 acpiTablesName) =
          some 1 := by decide +kernel
      refine ⟨fun i hi => ?_, trivial⟩
      rw [hfile] at hi
      obtain rfl := Option.some.inj hi
      decide
    | next _ _ hend => cases hend
  map := by
    have hfile : fileIndex smallTables.files e820Name = some 2 := by decide +kernel
    have hsize : smallTables.fileSize 2 = 20 := by decide +kernel
    intro i hi
    rw [hfile] at hi
    obtain rfl := Option.some.inj hi
    rw [hsize]
    decide
  cpus := by decide +kernel

/-- The BIOS32 directory is such a write. -/
theorem setup_writes_reserved_directory :
    smallTablesBuilt.mem 0xf4000#32 ≠ 0#8 ∧ (InVectors 0xf4000#32 ∨ MapReserves 0xf4000#32 ∧
      ((0xf4000#32).toNat < fsegStart ∨ (0xf4000#32).toNat ≤ (0xf4000#32).toNat)) := by
  have hne : smallTablesBuilt.mem 0xf4000#32 ≠ 0#8 := by decide +kernel
  have hu : setupMachine q35Platform fsegLabels (bigTablesMachine 0x100) = .ok () smallTables :=
    StateRun.eq_ok_of_returned (by decide +kernel)
  have ht : setupTables q35Platform smallTables = .ok () smallTablesBuilt :=
    StateRun.eq_ok_of_returned (by decide +kernel)
  exact ⟨hne, setup_writes_reserved (by decide) (by decide +kernel) hu smallTables_orderly ht
    (by decide +kernel) hne⟩

end Qboot
