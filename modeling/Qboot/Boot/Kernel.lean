import Qboot.Bios.MapCalls
import Qboot.Boot.Setup
import Qboot.Heap
import Qboot.Linuxboot.Assembled

/-!
The boot of a bzImage from the start of `main` on. What `extract_e820` built is
still there when the kernel runs, and the kernel gets it from INT 15h.
-/

namespace Qboot

open Bytes ByteMemory

/-! ### The image -/

section Image

variable {γ : Type} {f : Firmware → γ}

theorem loadBzimage_spares (hf : Settled f) (args : LinuxbootArgs) (kernelSize : BitVec 32) :
    Spares f (loadBzimage args kernelSize) := by
  have hentry (e buf len : BitVec 32) : Spares f (fwCfgReadEntry e buf len) :=
    Touches.readEntry hf fun _ _ => trivial
  have hparts : Spares f (loadParts args kernelSize) :=
    (Touches.select hf _).bind fun _ => (hentry _ _ _).bind fun _ => (hentry _ _ _).bind fun _ =>
      Touches.ite ((hentry _ _ _).bind fun _ => Touches.throw _) (Touches.throw _)
  rw [loadBzimage_eq]
  exact Touches.ite ((Touches.read hf fun _ _ => trivial).bind fun _ => hparts) hparts

theorem withSetup_mapFacts (s : Firmware) (d : FwCfg) (lowmem : BitVec 32) (n : Nat) :
    (s.withSetup d lowmem n).mapFacts = s.mapFacts := by
  simp only [Firmware.withSetup, Firmware.mapFacts]

/-- Only the parts of the image change memory, and the map stays where it is. -/
theorem bootFromFwcfg_loads {s : Firmware} (hbz : IsBzimage s.dev.setupPeek)
    (hsome : s.dev.linuxbootArgs.vmlinuzSize ≠ 0#32) : ∃ s',
    bootFromFwcfg s = .error (.bzImage (s.dev.bzImageArgs s.lowmem)) s' ∧
      s'.mem = storeBlocks s.mem (s.dev.imageBlocks s.lowmem) ∧ s'.mapFacts = s.mapFacts := by
  let read : Firmware := { s with dev := (s.dev.select FW_CFG_SETUP_ADDR).skip 4 }
  obtain ⟨s', hrun, hmem⟩ := bootKernel_apply read hbz
  obtain ⟨new, hspares⟩ := loadBzimage_spares settled_mapFacts (read.dev.bzImageArgs read.lowmem)
    (read.dev.word FW_CFG_KERNEL_SIZE)
    (read.withSetup read.dev read.lowmem HEADER_PEEK_SIZE.toNat)
  rw [← bootKernel_loads read hbz, hrun] at hspares
  have hkept := hspares.kept.trans (withSetup_mapFacts read _ _ _)
  exact ⟨s', (bootFromFwcfg_apply s hsome).trans hrun, hmem, hkept⟩

end Image

/-- The range lies in memory that every map leaves alone, behind the vectors and
the stack on which the firmware loads it. -/
def Loadable (p : BitVec 32) (n : Nat) : Prop :=
  0x7c00 ≤ p.toNat ∧ p.toNat + n ≤ 0x9fc00 ∨ fsegEnd ≤ p.toNat ∧ p.toNat + n ≤ 2 ^ 32

theorem Loadable.apart_vectors {p : BitVec 32} {n : Nat} (h : Loadable p n) :
    Apart 0#32 0x400 p n := by
  rw [Loadable, fsegEnd] at h
  have hzero : (0#32).toNat = 0 := rfl
  exact apart_of_le (by omega) (by omega)

/-- A range in the reserved memory in front of the firmware. -/
theorem Loadable.apart_low {p q : BitVec 32} {n k : Nat} (h : Loadable p n)
    (hq : nvsStart ≤ q.toNat ∧ q.toNat + k ≤ fsegStart) : Apart q k p n := by
  rw [Loadable, fsegEnd] at h
  rw [nvsStart, fsegStart] at hq
  rcases h with h | h
  · exact (apart_of_le (by omega) (by omega)).symm
  · exact apart_of_le (by omega) (by omega)

/-- All parts of the image are loaded there. -/
structure PartsLoadable (d : FwCfg) (lowmem : BitVec 32) : Prop where
  setup : Loadable (d.bzImageArgs lowmem).setupAddr (d.setupRead lowmem)
  kernel : Loadable (d.bzImageArgs lowmem).kernelAddr (d.word FW_CFG_KERNEL_SIZE).toNat
  cmdline : Loadable (d.bzImageArgs lowmem).cmdlineAddr (d.bzImageArgs lowmem).cmdlineSize.toNat
  initrd : Loadable (d.bzImageArgs lowmem).initrdAddr (d.bzImageArgs lowmem).initrdSize.toNat

theorem PartsLoadable.blocks {d : FwCfg} {lowmem : BitVec 32}
    (h : PartsLoadable d lowmem) {b : BitVec 32 × List Byte} (hb : b ∈ d.imageBlocks lowmem) :
    Loadable b.1 b.2.length := by
  rw [FwCfg.imageBlocks] at hb
  simp only [List.mem_cons, List.not_mem_nil, or_false] at hb
  rcases hb with rfl | rfl | rfl | rfl
  · simpa only [length_patchedSetup le_setupRead] using h.setup
  · simpa only [length_entryBytes] using h.kernel
  · simpa only [length_entryBytes] using h.cmdline
  · simpa only [length_entryBytes] using h.initrd

/-! ### The map in memory -/

/-- What `extract_e820` leaves on a machine with an MMCONFIG window. -/
theorem extractE820_holds {s t : Firmware} {i : Nat}
    (hfile : fileIndex s.files e820Name = some i) (hmm : s.haveMmconfig = true)
    (hmult : e820EntryBytes ∣ s.fileSize i) (hfit : 104 + s.fileSize i < 2 ^ 32)
    (hrun : extractE820 s = .ok () t) :
    t.e820 = (s.e820Block (s.fileSize i)).base ∧ t.e820Seg = (t.e820 >>> 4).setWidth 16 ∧
      t.mallocTop = t.e820 ∧
      MapHeld t.mem t.e820 (memoryMap true (entriesOf (s.fileContent i))) := by
  have hcontent := length_fileContent (fileIndex_lt hfile)
  have hmult' : e820EntryBytes ∣ (s.fileContent i).length := by rwa [hcontent]
  have hfit' : 104 + (s.fileContent i).length < 2 ^ 32 := by rwa [hcontent]
  obtain ⟨dev, happly⟩ := extractE820_apply hfile hfit
  rw [happly] at hrun
  obtain ⟨-, rfl⟩ := EStateM.Result.ok.inj hrun
  refine ⟨rfl, rfl, rfl, ?_⟩
  let es : List E820Entry := memoryMap true (entriesOf (s.fileContent i))
  have hes : fixedEntries ++ mmconfigEntries s.haveMmconfig ++
      rebaseFirst (s.e820Scanned (s.fileContent i)) = es := by
    rw [e820Scanned_mmconfig hmm hmult' hfit', hmm]
    rfl
  have hcount : es.length = s.fileSize i / e820EntryBytes + 5 := by
    rw [length_memoryMap, length_entriesOf, hcontent,
      show (mmconfigEntries true).length = 1 from rfl]
    omega
  have hbytes : toLE 4 (s.fileSize i / e820EntryBytes + 5) ++ encodeEntries es = encodeMap es := by
    rw [encodeMap, hcount]
  have hlen : (encodeMap es).length = 4 + e820EntryBytes * es.length := by
    rw [encodeMap, List.length_append, length_toLE, length_encodeEntries]
  have hmem := store_e820Final s (s.fileContent i) hmult' hfit'
  rw [hcontent, hes, hbytes] at hmem
  have hload := @load_store 32 s.mem (s.e820Block (s.fileSize i)).base (encodeMap es) (by
    rw [hlen, hcount, show e820EntryBytes = 20 from rfl]
    omega)
  rw [← hmem, hlen] at hload
  exact hload

section Survives

variable {platform : Platform} {labels : Labels} {edata : BitVec 32} {es : List E820Entry}
  {s t w x : Firmware}

theorem firstTables_keeps {I : Firmware → Prop} (hI : HeapInvariant I) {v : Firmware}
    (hacpi : extractAcpi s = .ok () v) (he820 : extractE820 v = .ok () w) (hs : I s) : I w := by
  have hv := extractAcpi_keeps hI s hs
  rw [hacpi] at hv
  have hw := extractE820_keeps hI v hv
  rwa [he820] at hw

theorem lastTables_keeps {I : Firmware → Prop} (hI : HeapInvariant I)
    (hmptable : setupMptable platform.stepping platform.features w = .ok () x)
    (hsmbios : extractSmbios x = .ok () t) (hw : I w) : I t := by
  have hx := (setupMptable_keepsHeap platform.stepping platform.features).keeps hI w hw
  rw [hmptable] at hx
  have ht := extractSmbios_keeps hI x hx
  rwa [hsmbios] at ht

/-- A map at the end of the low blocks is beside all that the later stages
write. -/
theorem map_survives (hedata : fsegStart ≤ edata.toNat) (hw : PointersInside edata w)
    (htop : w.mallocTop = w.e820)
    (hend : w.e820.toNat + (4 + e820EntryBytes * es.length) ≤ fsegStart)
    (hheld : MapHeld w.mem w.e820 es) (hcpus : w.dev.numCpus ≤ 40)
    (hmptable : setupMptable platform.stepping platform.features w = .ok () x)
    (hsmbios : extractSmbios x = .ok () t) (hfits : ∀ b ∈ t.allocs, b.Fits) :
    MapHeld t.mem t.e820 es ∧ t.mapFacts = w.mapFacts := by
  have hlow := hw.low
  have hfseg := hw.fseg
  rw [htop] at hlow
  rw [nvsStart] at hlow
  rw [fsegStart] at hedata hend
  have hrange (a : BitVec 32) (ha : Within w.e820 (4 + e820EntryBytes * es.length) a) :
      w.e820.toNat ≤ a.toNat ∧ a.toNat < 0xf0000 := by
    have hwithin := (within_iff (p := w.e820) (by omega)).mp ha
    omega
  have hleft (a : BitVec 32) (ha : Within w.e820 (4 + e820EntryBytes * es.length) a) :
      ¬ w.Unallocated a := by
    have hin := hrange a ha
    rw [Firmware.Unallocated, htop]
    omega
  have happ := lastTables_keeps (heapInvariant_apportioned hedata _ w.allocs) hmptable hsmbios
    (fun _ => apportioned_start hw hleft) hfits
  obtain ⟨new, htouched⟩ := lastTables_touched hcpus hmptable hsmbios
  have he820 : t.e820 = w.e820 := congrArg Prod.fst htouched.kept
  refine ⟨?_, htouched.kept⟩
  rw [he820]
  refine (load_congr (by omega) fun a ha => htouched.taken_kept happ ha ?_).trans hheld
  have hin := hrange a ha
  rw [InEbda]
  omega

/-- The map that `extract_e820` has to build from file `i`. -/
def Firmware.bootMap (s : Firmware) (i : Nat) : List E820Entry :=
  memoryMap s.haveMmconfig (entriesOf (s.fileContent i))

/-- The map is there when the tables are built, in reserved memory and in one
segment. -/
theorem setupTables_map (hedata : fsegStart ≤ edata.toNat) (hreserved : AllReserved edata s)
    (hfresh : ∀ i, s.fileAddress i = 0#32) (horderly : s.Orderly) (hmm : s.haveMmconfig = true)
    {i : Nat} (hfile : fileIndex s.files e820Name = some i)
    (hsegment : 104 + s.fileSize i ≤ 0x10000) (ht : setupTables platform s = .ok () t)
    (hfits : ∀ b ∈ t.allocs, b.Fits) :
    MapHeld t.mem t.e820 (s.bootMap i) ∧ t.TableInSegment (s.bootMap i).length ∧
      nvsStart ≤ t.e820.toNat ∧
      t.e820.toNat + (4 + e820EntryBytes * (s.bootMap i).length) ≤ fsegStart := by
  obtain ⟨v, w, x, hacpi, he820, hmptable, hsmbios⟩ := setupTables_ok ht
  obtain ⟨_, hv⟩ :=
    extractAcpi_touched settledAcpi_deviceFacts (fun _ => False) hfresh horderly.script hacpi
  obtain ⟨_, hw⟩ := firstTables_touched (fun _ => False) hfresh horderly hacpi he820
  have hcpus : w.dev.numCpus ≤ 40 :=
    numCpus_congr (congrArg (fun facts => facts.2.1) hw.kept) ▸ horderly.cpus
  have hfiles : v.files = s.files := congrArg Prod.fst hv.kept
  have hentry : v.dev.entry = s.dev.entry := congrArg (fun facts => facts.2.1) hv.kept
  have hmmv : v.haveMmconfig = true := (congrArg (fun facts => facts.2.2) hv.kept).trans hmm
  have hsize : v.fileSize i = s.fileSize i := by rw [Firmware.fileSize, hfiles, Firmware.fileSize]
  have hcontent : v.fileContent i = s.fileContent i := by
    simp only [Firmware.fileContent, FwCfg.fileBytes, hfiles, hentry]
  obtain ⟨hmult, hfit⟩ := horderly.map i hfile
  obtain ⟨hbase, hseg, htop, hheld⟩ := extractE820_holds (i := i) (hfiles ▸ hfile) hmmv
    (hsize ▸ hmult) (hsize ▸ hfit) he820
  have hmap : memoryMap true (entriesOf (v.fileContent i)) = s.bootMap i := by
    rw [Firmware.bootMap, hmm, hcontent]
  rw [hmap] at hheld
  -- the block of the map is one of the reserved blocks
  obtain ⟨last, hlast⟩ := lastTables_touched hcpus hmptable hsmbios
  have hfitsw (b : Alloc) (hb : b ∈ w.allocs) : b.Fits := by
    apply hfits b
    rw [hlast.allocs]
    exact List.mem_append_right _ hb
  have hwreserved := firstTables_keeps (heapInvariant_allReserved hedata) hacpi he820 hreserved
  have hblock : v.e820Block (v.fileSize i) ∈ w.allocs := by
    rw [extractE820_allocs (hfiles ▸ hfile) he820]
    exact List.mem_cons_self
  obtain ⟨hlow, hend⟩ : nvsStart ≤ (v.e820Block (v.fileSize i)).base.toNat ∧
      (v.e820Block (v.fileSize i)).base.toNat + (v.e820Block (v.fileSize i)).size.toNat ≤
        fsegStart := hwreserved.inReserved hfitsw hblock
  have hbytes : 4 + e820EntryBytes * (s.bootMap i).length = 104 + s.fileSize i := by
    obtain ⟨k, hk⟩ := hmult
    have hlt : i < s.files.length := fileIndex_lt hfile
    rw [Firmware.bootMap, hmm, length_memoryMap, length_entriesOf, length_fileContent hlt, hk,
      show (mmconfigEntries true).length = 1 from rfl, show e820EntryBytes = 20 from rfl]
    omega
  rw [e820Block_size (hsize ▸ hmult), hsize, Nat.mod_eq_of_lt hfit, ← hbytes, ← hsize,
    ← hbase] at hend
  rw [← hbase] at hlow
  obtain ⟨hheld', hfacts⟩ := map_survives hedata (hwreserved hfitsw).pointers htop hend hheld hcpus
    hmptable hsmbios hfits
  have he820' : t.e820 = w.e820 := congrArg Prod.fst hfacts
  have hseg' : t.e820Seg = w.e820Seg := congrArg Prod.snd hfacts
  have haligned : 16 ∣ (v.e820Block (v.fileSize i)).base.toNat :=
    request_aligned v .low _ 16#32 4 rfl
  rw [← hbase] at haligned
  rw [he820']
  refine ⟨he820' ▸ hheld', ⟨?_, ?_, ?_, ?_⟩, hlow, hend⟩
  · rw [he820']
    exact Nat.mod_eq_zero_of_dvd haligned
  · rw [he820']
    rw [fsegStart] at hend
    omega
  · omega
  · rw [hseg', he820', hseg]

end Survives

/-! ### From `main` to the kernel -/

section Kernel

variable {platform : Platform} {labels : Labels} {dev : FwCfg} {mem : Mem} {edata : BitVec 32}
  {t u : Firmware}

/-- The vectors are there when the tables are built. -/
theorem setup_vectors (hedata : fsegStart ≤ edata.toNat ∧ edata.toNat ≤ fsegEnd)
    (hdir : 64 * dev.fileCount.toInt.toNat < 2 ^ 32)
    (hu : setupMachine platform labels (Firmware.initial dev mem 0xf0000#32 edata) = .ok () u)
    (horderly : u.Orderly) (ht : setupTables platform u = .ok () t)
    (hfits : ∀ b ∈ t.allocs, b.Fits) : load t.mem 0#32 0x400 = vectorTable labels := by
  have hreserved := setupTables_keeps (heapInvariant_allReserved hedata.1) ht
    (setupMachine_reserved hedata hu)
  obtain ⟨x, _, new', hvectors, -, hfiles, hfresh, -⟩ := setupMachine_start hdir hu
  obtain ⟨last, htables⟩ := setupTables_touched hfresh horderly ht
  have hafter : Touched (fun _ => ()) InEbda (last ++ new') x t :=
    (hfiles.mono fun _ => False.elim).trans htables
  refine (load_congr (by decide) fun a ha => ?_).trans hvectors
  have hlt : a.toNat < 0x400 := within_vectors ha
  apply hafter.frame
  · rw [InEbda]
    omega
  · intro b hb hin
    have hmem : b ∈ t.allocs := by
      rw [hafter.allocs]
      exact List.mem_append_left _ hb
    have hrange := ((hreserved.inReserved hfits hmem).place hedata.1 hin).1
    rw [nvsStart] at hrange
    omega

/-- A bzImage whose parts lie in RAM gets the memory map that the firmware has
to publish, with whatever registers it calls INT 15h. -/
theorem kernel_gets_map {scratch : List Byte} {calls : Nat → Cpu} {i : Nat}
    (hplaced : labels.Placed) (hmm : platform.haveMmconfig = true)
    (hedata : fsegStart ≤ edata.toNat ∧ edata.toNat ≤ fsegEnd)
    (hdir : 64 * dev.fileCount.toInt.toNat < 2 ^ 32)
    (hu : setupMachine platform labels (Firmware.initial dev mem 0xf0000#32 edata) = .ok () u)
    (horderly : u.Orderly) (ht : setupTables platform u = .ok () t)
    (hfits : ∀ b ∈ t.allocs, b.Fits) (hfile : fileIndex u.files e820Name = some i)
    (hsegment : 104 + u.fileSize i ≤ 0x10000) (hbz : IsBzimage t.dev.setupPeek)
    (hsome : t.dev.linuxbootArgs.vmlinuzSize ≠ 0#32)
    (himage : PartsLoadable t.dev t.lowmem)
    (hcalls : ∀ k, MapCaller t.e820 (u.bootMap i).length scratch (calls k)) :
    ∃ s', main platform labels (Firmware.initial dev mem 0xf0000#32 edata) =
        .error (.bzImage (t.dev.bzImageArgs t.lowmem)) s' ∧
      ∀ (m : Board) (n : Nat), m.fw = s' → (u.bootMap i).length ≤ n →
        ∃ m', queryBios labels scratch calls n 0 0#32 m =
          .ok (some (mapAnswers calls (u.bootMap i))) m' := by
  obtain ⟨x, _, _, -, -, -, hfresh, hkept⟩ := setupMachine_start hdir hu
  obtain ⟨hheld, hseg, hlow, hend⟩ := setupTables_map hedata.1 (setupMachine_reserved hedata hu)
    hfresh horderly (hkept.trans hmm) hfile hsegment ht hfits
  have hvectors := setup_vectors hedata hdir hu horderly ht hfits
  obtain ⟨s', hrun, hmem, hfacts⟩ := bootFromFwcfg_loads hbz hsome
  have he820 : s'.e820 = t.e820 := congrArg Prod.fst hfacts
  refine ⟨s', (main_of_setup hu ht).trans (StateRun.bind_of_error hrun), fun m n hfw hn => ?_⟩
  subst hfw
  have hserved : MapServed labels m (u.bootMap i) := by
    refine ⟨?_, ?_, ?_⟩
    · rw [hmem]
      exact (load_storeBlocks_outside t.mem (by decide) fun b hb =>
        (himage.blocks hb).apart_vectors).trans hvectors
    · rw [MapHeld, hmem, he820]
      exact (load_storeBlocks_outside t.mem (by rw [fsegStart] at hend; omega) fun b hb =>
        (himage.blocks hb).apart_low ⟨hlow, hend⟩).trans hheld
    · exact ⟨he820 ▸ hseg.aligned, he820 ▸ hseg.below, hseg.fits,
        (congrArg Prod.snd hfacts).trans (he820 ▸ hseg.seg)⟩
  have hpos : 0 < (u.bootMap i).length := by
    rw [Firmware.bootMap, length_memoryMap]
    omega
  obtain ⟨m', hquery, -⟩ := queryBios_apply hplaced hcalls n hserved he820 hpos
  rw [Nat.zero_add, if_pos hn, List.drop_zero] at hquery
  exact ⟨m', hquery⟩

end Kernel

/-- A machine with 128 MiB and a kernel. -/
def mapKernelDevice : FwCfg where
  entry := fun key =>
    if key = FW_CFG_FILE_DIR then toBE 4 1 ++ dirRecord 20#32 0x22#16 e820Name
    else if key = 0x22#16 then toLE 8 0 ++ toLE 8 0x8000000 ++ toLE 4 1
    else kernelDevice.entry key
  key := 0#16
  pos := 0

def mapKernelStarted : Firmware := StateRun.final (setupMachine q35Platform entryLabels
  (Firmware.initial mapKernelDevice (fun _ => 0#8) 0xf0000#32 0xf4000#32))

def mapKernelBuilt : Firmware := StateRun.final (setupTables q35Platform mapKernelStarted)

theorem mapKernelStarted_file : fileIndex mapKernelStarted.files e820Name = some 0 ∧
    mapKernelStarted.fileSize 0 = 20 := by decide +kernel

theorem mapKernelStarted_orderly : mapKernelStarted.Orderly where
  script := by
    have hscript : mapKernelStarted.loaderScript = [] := by decide +kernel
    rintro cmd t ⟨-, hreach⟩
    rw [hscript] at hreach
    cases hreach
  map := by
    intro i hi
    rw [mapKernelStarted_file.1] at hi
    obtain rfl := Option.some.inj hi
    rw [mapKernelStarted_file.2]
    decide
  cpus := by decide +kernel

theorem mapKernelBuilt_parts : PartsLoadable mapKernelBuilt.dev mapKernelBuilt.lowmem := by
  have hargs : mapKernelBuilt.dev.bzImageArgs mapKernelBuilt.lowmem =
      { setupAddr := 0x10000#32, cmdlineAddr := 0x20000#32, kernelAddr := 0x100000#32,
        initrdAddr := 0x6fff000#32, setupSize := 0x2a00#32, kernelSize := 0x8029ec#32,
        cmdlineSize := 0x100#32, vmlinuzSize := 0x802a00#32, initrdSize := 0x1000000#32 } := by
    decide +kernel
  have hsize : mapKernelBuilt.dev.word FW_CFG_KERNEL_SIZE = 0x800000#32 := by decide +kernel
  have hread : mapKernelBuilt.dev.setupRead mapKernelBuilt.lowmem = 0x2a00 := by decide +kernel
  constructor
  · rw [hargs, hread]
    exact Or.inl (by decide)
  · rw [hargs, hsize]
    exact Or.inr (by decide)
  · rw [hargs]
    exact Or.inl (by decide)
  · rw [hargs]
    exact Or.inr (by decide)

/-- The kernel calls six times and has the four fixed entries, the MMCONFIG
window, and the memory behind the first megabyte. -/
theorem kernel_gets_map_six : ∃ s',
    main q35Platform entryLabels
      (Firmware.initial mapKernelDevice (fun _ => 0#8) 0xf0000#32 0xf4000#32) =
        .error (.bzImage (mapKernelBuilt.dev.bzImageArgs mapKernelBuilt.lowmem)) s' ∧
      ∀ (m : Board) (n : Nat), m.fw = s' → (mapKernelStarted.bootMap 0).length ≤ n →
        ∃ m', queryBios entryLabels [] (fun _ => realModeCpu 0#32) n 0 0#32 m =
          .ok (some (mapAnswers (fun _ => realModeCpu 0#32) (mapKernelStarted.bootMap 0))) m' := by
  have hu : setupMachine q35Platform entryLabels
      (Firmware.initial mapKernelDevice (fun _ => 0#8) 0xf0000#32 0xf4000#32) =
      .ok () mapKernelStarted := StateRun.eq_ok_of_returned (by decide +kernel)
  have ht : setupTables q35Platform mapKernelStarted = .ok () mapKernelBuilt :=
    StateRun.eq_ok_of_returned (by decide +kernel)
  have he820 : mapKernelBuilt.e820 = 0xeff80#32 := by decide +kernel
  have hlen : (mapKernelStarted.bootMap 0).length = 6 := by decide +kernel
  refine kernel_gets_map entryLabels_placed rfl (by decide) (by decide +kernel) hu
    mapKernelStarted_orderly ht (by decide +kernel) mapKernelStarted_file.1
    (by rw [mapKernelStarted_file.2]; decide) (by decide +kernel) (by decide +kernel)
    mapKernelBuilt_parts fun _ => ?_
  rw [he820, hlen]
  refine ⟨by decide, by decide, by decide, rfl, ?_, ?_, ?_, ?_, ?_⟩
  · exact apart_of_le (by decide) (by decide)
  · exact (apart_of_le (by decide) (by decide)).symm
  · exact apart_of_le (by decide) (by decide)
  · exact (apart_of_le (by decide) (by decide)).symm
  · exact apart_of_le (by decide) (by decide)

end Qboot
