import Qboot.Boot.Plan

/-!
The blocks of a boot. Each part of `main` follows its plan as long as the blocks
before it are where they belong: then nothing has written to the directory, and
the next lookup finds what the device says. So the sums of the plan decide
whether all blocks stay in the memory that the map reserves.
-/

namespace Qboot

open Bytes ByteMemory

/-! ### Programs that only add to the log -/

section Keeps

open StateRun

variable {I : Firmware → Prop} (hI : HeapInvariant I)

include hI

theorem runScriptReread_keeps (d : FileTable) (script : List LoaderCmd) :
    Keeps I (runScriptReread d script) := by
  induction script with
  | nil => exact Keeps.pure _
  | cons cmd rest ih =>
    have hcmd := (rereadFiles_keeps hI d).bind fun _ => (loaderCmd_keeps hI cmd).bind fun _ => ih
    cases cmd with
    | quit => exact Keeps.pure _
    | alloc file align zone => exact hcmd
    | ptr dest src offset size => exact hcmd
    | checksum file offset start len => exact hcmd
    | unknown cmd => exact hcmd

theorem extractAcpiReread_keeps (d : FileTable) : Keeps I (extractAcpiReread d) :=
  (rereadFiles_keeps hI d).bind fun _ =>
    withScript_keeps hI fun script => runScriptReread_keeps hI d script

omit hI in
theorem fillMapReread_keepsHeap (d : FileTable) (id : Int) (size : BitVec 32) (nrMap : Nat)
    (e820 : BitVec 32) : KeepsHeap (fillMapReread d id size nrMap e820) := by
  refine KeepsHeap.bind (KeepsHeap.modify fun _ => rfl) fun _ =>
    (KeepsHeap.poke _ _).bind fun _ => (storeEntries_keepsHeap _ _ _).bind fun _ =>
      KeepsHeap.get.bind fun s => (storeEntries_keepsHeap _ _ _).bind fun _ =>
        (rereadFiles_keepsHeap d).bind fun _ => (fwCfgReadFile_keepsHeap _ _ _).bind fun _ =>
          (KeepsHeap.peek _ _).bind fun count => (rebaseLoop_keepsHeap _ _ _).bind fun _ => ?_
  exact KeepsHeap.modify fun _ => rfl

theorem extractE820Reread_keeps (d : FileTable) : Keeps I (extractE820Reread d) :=
  (rereadFiles_keeps hI d).bind fun _ => ((fwCfgFileId_keepsHeap _).keeps hI).bind fun _ =>
    ((KeepsHeap.panicIf _).keeps hI).bind fun _ => ((fwCfgFileSize_keepsHeap _).keeps hI).bind
      fun _ => (malloc_keeps hI _).bind fun _ => (fillMapReread_keepsHeap d _ _ _ _).keeps hI

theorem extractSmbiosReread_keeps (d : FileTable) : Keeps I (extractSmbiosReread d) := by
  refine (rereadFiles_keeps hI d).bind fun _ => ((fwCfgFileId_keepsHeap _).keeps hI).bind fun _ =>
    ((fwCfgFileSize_keepsHeap _).keeps hI).bind fun _ => (Keeps.pure _).ite ?_
  refine (mallocFseg_keeps hI _).bind fun _ => (Keeps.pure _).ite ?_
  exact ((fwCfgReadFile_keepsHeap _ _ _).keeps hI).bind fun _ =>
    (rereadFiles_keeps hI d).bind fun _ => readSmbiosTables_keeps hI _

/-- The tables behind the table loader. -/
theorem afterAcpiReread_keeps (platform : Platform) (d : FileTable) : Keeps I (do
    extractE820Reread d
    setupMptable platform.stepping platform.features
    extractSmbiosReread d : Fw Unit) :=
  (extractE820Reread_keeps hI d).bind fun _ =>
    ((setupMptable_keepsHeap _ _).keeps hI).bind fun _ => extractSmbiosReread_keeps hI d

theorem setupTablesReread_keeps (platform : Platform) (d : FileTable) :
    Keeps I (setupTablesReread platform d) :=
  (extractAcpiReread_keeps hI d).bind fun _ => afterAcpiReread_keeps hI platform d

end Keeps

/-! ### The directory -/

/-- The device and the directory that `fw_cfg_setup` left are still there. -/
structure DirectoryKept (d : FileTable) (files : List FwCfgFile) (entry : BitVec 16 → List Byte)
    (s : Firmware) : Prop where
  fits : fwCfgFileBytes * d.filecnt ≤ 2 ^ 32
  passed : ∀ a, d.Holds a → ¬ s.Ahead a
  read : d.read s.mem = files
  entry : s.dev.entry = entry

section Directory

variable {edata : BitVec 32} {d : FileTable} {files : List FwCfgFile}
  {entry : BitVec 16 → List Byte} {s t : Firmware}

/-- Writes ahead of the allocators are no matter for the directory. -/
theorem DirectoryKept.step (h : DirectoryKept d files entry s)
    (hshrinks : ∀ a, t.Ahead a → s.Ahead a) (hmem : ∀ a, ¬ s.Ahead a → t.mem a = s.mem a)
    (hentry : t.dev.entry = s.dev.entry) : DirectoryKept d files entry t where
  fits := h.fits
  passed a ha hahead := h.passed a ha (hshrinks a hahead)
  read := (FileTable.read_congr h.fits fun a ha => hmem a (h.passed a ha)).trans h.read
  entry := hentry.trans h.entry

theorem DirectoryKept.reread (h : DirectoryKept d files entry s) :
    DirectoryKept d files entry (s.reread d) :=
  h.step (fun _ ha => ha) (fun _ _ => rfl) rfl

theorem DirectoryKept.files_reread (h : DirectoryKept d files entry s) :
    (s.reread d).files = files := h.read

/-- The pointers of the allocators are on either side of the firmware. -/
theorem PointersInside.zones (hedata : fsegStart ≤ edata.toNat) (hs : PointersInside edata s) :
    s.mallocTop.toNat ≤ s.fsegBase.toNat := hs.top.trans (hedata.trans hs.fseg)

/-- A block that fits is ahead of the allocators, which pass it. -/
theorem allocate_ahead (hedata : fsegStart ≤ edata.toNat) (hs : PointersInside edata s)
    (r : Request) (halign : 0 < r.align.toNat) (hfits : s.room.Fits [r]) :
    (∀ a, Within (s.request r.zone r.size r.align).base r.size.toNat a → s.Ahead a) ∧
      ∀ a, (s.allocate (s.request r.zone r.size r.align)).Ahead a → s.Ahead a := by
  obtain ⟨-, hwrap, -⟩ := allocate_fits hedata hs halign hfits.1
  obtain ⟨-, hblock, hshrinks⟩ := request_ahead (hs.zones hedata) halign hwrap
  exact ⟨fun a ha => (hblock a ha).1, hshrinks⟩

/-- Writes to a new block are no matter for the directory. -/
theorem DirectoryKept.block (h : DirectoryKept d files entry s) (hedata : fsegStart ≤ edata.toNat)
    (hs : PointersInside edata s) (r : Request) (halign : 0 < r.align.toNat)
    (hfits : s.room.Fits [r])
    (hheap : t.heap = (s.allocate (s.request r.zone r.size r.align)).heap)
    (hmem : ∀ a, ¬ Within (s.request r.zone r.size r.align).base r.size.toNat a →
      t.mem a = s.mem a) (hentry : t.dev.entry = s.dev.entry) : DirectoryKept d files entry t := by
  obtain ⟨hahead, hshrinks⟩ := allocate_ahead hedata hs r halign hfits
  exact h.step (fun a ha => hshrinks a ((ahead_congr hheap a).mp ha))
    (fun a ha => hmem a fun hin => ha (hahead a hin)) hentry

theorem fwCfgSetupTable_follows (hedata : fsegStart ≤ edata.toNat) (hs : PointersInside edata s)
    (hfresh : ∀ i, s.fileAddress i = 0#32) :
    Follows edata fwCfgSetupTable (directoryPlan s.dev) s fun d t =>
      LoaderReady d t ∧ d.read t.mem = s.dev.directory.map RawRecord.file ∧
        t.dev.entry = s.dev.entry := by
  have halign : 0 < (16#32).toNat := by decide
  apply Follows.of_heap hedata hs _ halign
  · rw [fwCfgSetupTable_loop]
    have hloop := KeepsHeap.forM (List.range s.dev.fileCount.toInt.toNat) fun i _ =>
      swapFile_keepsHeap (s.directoryBlock.base + BitVec.ofNat 32 (fwCfgFileBytes * i))
    exact (hloop.bind fun _ => KeepsHeap.pure _) _ _ rfl
  · intro hfits
    by_cases hlen : fwCfgFileBytes * s.dev.fileCount.toInt.toNat < 2 ^ 32
    · rw [if_pos hlen]
      obtain ⟨bs, hlength, hroom, hrun, hread⟩ := fwCfgSetupTable_directory hlen
      refine ⟨_, _, hrun, rfl, loaderReady_of_bounds ?_ ?_ hfresh, hread, rfl⟩
      all_goals
        obtain ⟨-, hwrap, -⟩ := allocate_fits hedata hs halign hfits.1
        obtain ⟨hstart, hend⟩ : s.fsegBase.toNat + (16#32).toNat - 1 < 2 ^ 32 ∧
          s.directoryBlock.base.toNat + (64#32 * s.dev.fileCount).toNat < 2 ^ 32 := hwrap
        have hbase : s.fsegBase.toNat ≤ s.directoryBlock.base.toNat :=
          fsegAlignedBase_ge halign hstart
      · exact (hs.zones hedata).trans hbase
      · change _ ≤ (s.directoryBlock.base + 64#32 * s.dev.fileCount).toNat
        rw [BitVec.toNat_add, Nat.mod_eq_of_lt hend, ← hlength]
        exact Nat.add_le_add_left hroom _
    · rw [if_neg hlen]
      trivial

end Directory

/-! ### The table loader -/

section Acpi

variable {edata : BitVec 32} {d : FileTable} {s₀ s : Firmware} {placed : Fin 20 → Bool}
  {new : List Alloc} {script : List LoaderCmd}

/-- A script whose plan does not fit puts a block outside. The commands before
it have done what they should, so the block is the planned one. -/
theorem runScriptReread_misfits (hedata : fsegStart ≤ edata.toNat) (hready : LoaderReady d s₀)
    (hs : PointersInside edata s) (h : LoaderState d s₀ placed s new)
    (hne : ¬ s.room.Fits (scriptPlan (d.read s₀.mem) script placed).requests) :
    ¬ LogKept edata (StateRun.final (runScriptReread d script s)) := by
  induction script generalizing s placed new with
  | nil => exact absurd trivial hne
  | cons cmd rest ih =>
    by_cases hquit : cmd = .quit
    · subst hquit
      exact absurd trivial hne
    have hleads := h.leads hready cmd
    rw [scriptPlan] at hne
    rw [runScriptReread_cons d hquit]
    cases haction : cmd.action (d.read s₀.mem) placed with
    | place i r =>
      rw [haction] at hleads hne
      obtain ⟨t, hrun, halign, -, hheap, hnext⟩ := hleads
      by_cases hfirst : s.room.cost r ≤ s.room.left r.zone
      · obtain ⟨hroom, hblock⟩ := allocate_fits hedata hs halign hfirst
        have hinside := hs.allocate halign ((request_fits s r).mpr hfirst)
        rw [StateRun.bind_of_ok hrun]
        refine ih (pointersInside_congr hheap.symm hinside) (hnext hblock) fun hrest =>
          hne ⟨hfirst, ?_⟩
        rwa [room_congr hheap, hroom] at hrest
      · refine not_logKept_bind (fun _ b => runScriptReread_keeps (heapInvariant_mem b) d rest) ?_
        rw [hrun]
        intro hkept
        have hallocs : t.allocs = s.request r.zone r.size r.align :: s.allocs :=
          (congrArg (fun heap => heap.2.2) hheap).trans (allocate_allocs s _)
        have hblock := (request_fits_iff r.zone hedata hs halign).mp
          (hkept _ (hallocs ▸ List.mem_cons_self))
        exact hfirst ((request_fits s r).mp hblock)
    | patch i =>
      rw [haction] at hleads hne
      obtain ⟨t, hrun, -, hheap, hnext⟩ := hleads
      rw [StateRun.bind_of_ok hrun]
      refine ih (pointersInside_congr hheap.symm hs) hnext ?_
      rwa [room_congr hheap]
    | stop e =>
      rw [haction] at hne
      exact absurd trivial hne

/-- `extract_acpi` follows its plan and leaves the directory alone. -/
theorem extractAcpiReread_follows (hedata : fsegStart ≤ edata.toNat)
    (hs : PointersInside edata s) (hready : LoaderReady d s) :
    Follows edata (extractAcpiReread d) (s.loaderPlan d) s fun _ t =>
      DirectoryKept d (d.read s.mem) s.dev.entry t := by
  refine ⟨acpiPlan_aligned _ _, fun hfits => ?_, fun hne => ?_⟩
  · obtain ⟨-, -, hblocks, -⟩ := takes_fits hedata hs (acpiPlan_aligned _ _) hfits
    have hends := extractAcpiReread_ends hready hblocks
    cases hend : (s.loaderPlan d).ending with
    | returns =>
      rw [hend] at hends
      obtain ⟨t, hrun, ⟨placed, new, hstate⟩, hheap⟩ := hends
      refine ⟨(), t, hrun, hheap, hready.fits, fun a ha hahead => ?_, hstate.intact hready,
        hstate.entry⟩
      exact hready.passed a ha (hstate.shrinks a hahead)
    | panics =>
      rw [hend] at hends
      obtain ⟨t, hrun, -, hheap⟩ := hends
      exact ⟨t, hrun, hheap⟩
    | indexes => trivial
    | strays => trivial
    | overruns => trivial
  · by_cases hwhole : (s.reread d).ScriptWhole
    · rw [loaderPlan_of_whole hwhole] at hne
      rw [extractAcpiReread_eq hwhole]
      have hheap := loaderStart_heap s d
      refine runScriptReread_misfits hedata hready (pointersInside_congr hheap.symm hs)
        (loaderState_start hready) ?_
      rwa [room_congr hheap]
    · rw [loaderPlan_of_part hwhole] at hne
      exact absurd trivial hne

end Acpi

/-! ### The memory map -/

section MemoryMap

variable {edata : BitVec 32} {d : FileTable} {files : List FwCfgFile}
  {entry : BitVec 16 → List Byte} {s : Firmware}

/-- With the directory off the map, the file is read as it was found. -/
theorem fillMapReread_eq (hread : d.read s.mem = s.files)
    (hfits : fwCfgFileBytes * d.filecnt ≤ 2 ^ 32) {e820 : BitVec 32}
    (hoff : ∀ a, d.Holds a → ¬ Within e820 104 a) (id : Int) (size : BitVec 32) (nrMap : Nat) :
    fillMapReread d id size nrMap e820 s = fillMap id size nrMap e820 s := by
  have hextra := length_mmconfigEntries_le s.haveMmconfig
  have hextraBytes : e820EntryBytes * (mmconfigEntries s.haveMmconfig).length ≤ 20 :=
    Nat.mul_le_mul_left 20 hextra
  -- the map before the file is read
  let fixed : Mem := store (store s.mem e820 (toLE 4 nrMap)) (mapEntry e820 0)
    (encodeEntries fixedEntries)
  let m : Mem := store fixed (mapEntry e820 4) (encodeEntries (mmconfigEntries s.haveMmconfig))
  let t : Firmware := { s with e820 := e820, mem := m }
  let rest (u : Firmware) : Fw Unit := do
    let i := 4 + (mmconfigEntries u.haveMmconfig).length
    fwCfgReadFile id (mapEntry e820 i) size
    let count ← peek e820 4
    rebaseLoop e820 i (ofLE count - i)
    modify fun s => { s with e820Seg := (e820 >>> 4).setWidth 16 }
  have hstart (f : Firmware → Fw Unit) :
      (do
        modify fun s => { s with e820 := e820 }
        poke e820 (toLE 4 nrMap)
        storeEntries e820 0 fixedEntries
        let u ← get
        storeEntries e820 4 (mmconfigEntries u.haveMmconfig)
        f u : Fw Unit) s = f { s with e820 := e820, mem := fixed } t := by
    rw [StateRun.bind_of_ok (StateRun.modify_apply _ s), StateRun.bind_of_ok (poke_apply _ _ _),
      StateRun.bind_of_ok (storeEntries_apply _ _ _ (by decide)),
      StateRun.bind_of_ok (StateRun.get_apply _)]
    exact StateRun.bind_of_ok (storeEntries_apply _ _ _ (hextraBytes.trans (by decide)))
  have hmem : ∀ a, d.Holds a → m a = s.mem a := by
    intro a ha
    have hpart {k n : Nat} (hk : k + n ≤ 104) : ¬ Within (e820 + BitVec.ofNat 32 k) n a :=
      fun hin => hoff a ha (within_part hin hk (by decide))
    have hcount : ¬ Within e820 (toLE 4 nrMap).length a := by
      have hzero := hpart (k := 0) (n := 4) (by decide)
      rwa [BitVec.add_zero] at hzero
    have hfixed : ¬ Within (mapEntry e820 0) (encodeEntries fixedEntries).length a :=
      hpart (k := 4) (n := 80) (by decide)
    have hlast : ¬ Within (mapEntry e820 4)
        (encodeEntries (mmconfigEntries s.haveMmconfig)).length a := by
      apply hpart
      rw [length_encodeEntries]
      exact Nat.add_le_add_left hextraBytes 84
    exact (store_of_not_within _ hlast).trans
      ((store_of_not_within _ hfixed).trans (store_of_not_within _ hcount))
  have hintact : d.read t.mem = t.files := (FileTable.read_congr hfits hmem).trans hread
  have hreread := hstart fun u => rereadFiles d >>= fun _ => rest u
  rw [StateRun.bind_of_ok (rereadFiles_of_intact hintact)] at hreread
  exact hreread.trans (hstart rest).symm

/-- Without a map there is no boot. -/
theorem extractE820Reread_absent (hfound : fileIndex (s.reread d).files e820Name = none) :
    extractE820Reread d s = .error .panic (s.reread d) := by
  rw [extractE820Reread, StateRun.bind_of_ok (rereadFiles_apply d s)]
  exact (StateRun.bind_of_ok (fwCfgFileId_none hfound)).trans
    (StateRun.bind_of_error (panicIf_of rfl _))

/-- `extract_e820` up to its block. -/
theorem extractE820Reread_found {i : Nat} (hfound : fileIndex (s.reread d).files e820Name = some i)
    (hlt : i < (s.reread d).files.length) :
    extractE820Reread d s =
      (mallocIn .low (BitVec.ofNat 32 (4 + e820EntryBytes *
          ((s.reread d).files[i].size.toNat / e820EntryBytes + 5))) 16#32 >>=
        fillMapReread d i (s.reread d).files[i].size
          ((s.reread d).files[i].size.toNat / e820EntryBytes + 5)) (s.reread d) := by
  have hne : ¬ (i : Int) = -1 := by omega
  rw [extractE820Reread, StateRun.bind_of_ok (rereadFiles_apply d s)]
  exact (StateRun.bind_of_ok (fwCfgFileId_some hfound)).trans
    ((StateRun.bind_of_ok (panicIf_of_not hne _)).trans
      (StateRun.bind_of_ok (fwCfgFileSize_lt hlt)))

/-- The map goes to a block ahead of the allocators, so the directory stays. -/
theorem extractE820Reread_eq (hedata : fsegStart ≤ edata.toNat) (hs : PointersInside edata s)
    (h : DirectoryKept d files entry s) {i : Nat}
    (hfound : fileIndex (s.reread d).files e820Name = some i)
    (hmult : e820EntryBytes ∣ (s.reread d).fileSize i)
    (hfit : 104 + (s.reread d).fileSize i < 2 ^ 32)
    (hfits : s.room.Fits [{ zone := .low, size := BitVec.ofNat 32 (4 + e820EntryBytes *
      ((s.reread d).fileSize i / e820EntryBytes + 5)), align := 16#32 }]) :
    extractE820Reread d s = extractE820 (s.reread d) := by
  have hlt := fileIndex_lt hfound
  have hne : ¬ (i : Int) = -1 := by omega
  have hsize := e820Block_size (s := s.reread d) hmult
  rw [Nat.mod_eq_of_lt hfit] at hsize
  obtain ⟨hahead, -⟩ := allocate_ahead hedata hs _ (by decide : 0 < (16#32).toNat) hfits
  have hoff : ∀ a, d.Holds a →
      ¬ Within ((s.reread d).e820Block ((s.reread d).fileSize i)).base 104 a := by
    intro a ha hin
    refine h.passed a ha (hahead a ?_)
    have hblock : 104 ≤ ((s.reread d).e820Block ((s.reread d).fileSize i)).size.toNat := by omega
    exact Nat.lt_of_lt_of_le hin hblock
  rw [extractE820Reread_found hfound hlt, extractE820,
    StateRun.bind_of_ok (fwCfgFileId_some hfound), StateRun.bind_of_ok (panicIf_of_not hne _),
    StateRun.bind_of_ok (fwCfgFileSize_lt hlt)]
  rw [fileSize_eq hlt] at hoff
  have hfill := fillMapReread_eq
    (s := (s.reread d).allocate ((s.reread d).e820Block (s.reread d).files[i].size.toNat)) (by
      rw [allocate_mem, allocate_files]
      rfl) h.fits hoff
  exact (StateRun.bind_of_ok (mallocIn_apply .low _ _ _)).trans ((hfill _ _ _).trans
    (StateRun.bind_of_ok (mallocAlign_apply _ _ _)).symm)

/-- `extract_e820` follows its plan and leaves the directory alone. -/
theorem extractE820Reread_follows (hedata : fsegStart ≤ edata.toNat)
    (hs : PointersInside edata s) (h : DirectoryKept d files entry s) :
    Follows edata (extractE820Reread d) (e820Plan files) s fun _ t =>
      DirectoryKept d files entry t := by
  have hfiles := h.files_reread
  unfold e820Plan
  cases hfound : fileIndex files e820Name with
  | none =>
    rw [fileNamed_none hfound]
    rw [← hfiles] at hfound
    exact Follows.silent ⟨s.reread d, extractE820Reread_absent hfound, rfl⟩
  | some i =>
    subst hfiles
    have hlt := fileIndex_lt hfound
    have hsize := fileSize_eq hlt
    rw [fileNamed_some hfound hlt]
    apply Follows.of_heap hedata hs _ (by decide : 0 < (16#32).toNat)
    · rw [extractE820Reread_found hfound hlt]
      exact heap_malloc_bind (fun _ => fillMapReread_keepsHeap d _ _ _ _) .low _ _ (s.reread d)
    · intro hfits
      by_cases hwhole : e820EntryBytes ∣ (s.reread d).files[i].size.toNat ∧
          104 + (s.reread d).files[i].size.toNat < 2 ^ 32
      · rw [if_pos hwhole]
        rw [← hsize] at hwhole hfits
        obtain ⟨hmult, hfit⟩ := hwhole
        obtain ⟨dev, hrun⟩ := extractE820_apply hfound hfit
        have htouched := extractE820_touched settledE820_deviceFacts (fun _ => False) hfound hmult
          hfit hrun
        rw [extractE820Reread_eq hedata hs h hfound hmult hfit hfits, ← hsize]
        refine ⟨(), _, hrun, rfl, h.block hedata hs _ (by decide : 0 < (16#32).toNat) hfits rfl
          (fun a ha => ?_) (congrArg (fun facts => facts.2.1) htouched.kept)⟩
        refine htouched.frame a id fun b hb => ?_
        rw [List.mem_singleton.mp hb]
        exact ha
      · rw [if_neg hwhole]
        trivial

end MemoryMap

/-! ### The MP table -/

section Mptable

variable {edata : BitVec 32} {d : FileTable} {files : List FwCfgFile}
  {entry : BitVec 16 → List Byte} {s : Firmware} {dev : FwCfg}

theorem mpTableBytes_congr {d d' : FwCfg} (h : d.entry = d'.entry) :
    d.mpTableBytes = d'.mpTableBytes := by
  have hword (key : BitVec 16) : d.word key = d'.word key := by rw [FwCfg.word, FwCfg.word, h]
  rw [FwCfg.mpTableBytes, FwCfg.mpTableBytes, numCpus_congr h, FwCfg.irq0Override,
    FwCfg.irq0Override, hword]

/-- A table that ends below the blocks leaves the memory above it alone. -/
theorem setupMptable_below (stepping features : BitVec 32) (s : Firmware)
    (hroom : 0x9fc00 + (16 + s.dev.mpTableBytes) ≤ nvsStart) :
    ∃ dev m, setupMptable stepping features s = .ok () { s with dev := dev, mem := m } ∧
      dev.entry = s.dev.entry ∧ ∀ a : BitVec 32, nvsStart ≤ a.toNat → m a = s.mem a := by
  have hbytes := length_encodeAll_mpEntries stepping features s.dev
  rw [nvsStart] at *
  obtain ⟨dev, hrun⟩ := setupMptable_apply stepping features s (by
    unfold FwCfg.mpTableBytes at hroom
    omega)
  refine ⟨dev, _, hrun, ?_, fun a ha => ?_⟩
  · have hsettled : Settled fun t : Firmware => t.dev.entry :=
      ⟨fun _ _ => rfl, fun _ _ h => h, fun s a => by rw [allocate_dev]⟩
    obtain ⟨_, htouched⟩ := setupMptable_spares hsettled stepping features s
    rw [hrun] at htouched
    exact htouched.kept
  · apply store_of_not_within
    have hlength := length_mpBytes (mpEntries stepping features s.dev)
    have hstart : MPTABLE_START.toNat = 0x9fc00 := rfl
    rw [within_iff (by omega)]
    omega

theorem setupMptable_follows (hs : PointersInside edata s)
    (h : DirectoryKept d files dev.entry s) (stepping features : BitVec 32) :
    Follows edata (setupMptable stepping features) (mptablePlan dev) s fun _ t =>
      DirectoryKept d files dev.entry t := by
  apply Follows.silent
  split
  · rename_i hroom
    rw [← mpTableBytes_congr h.entry] at hroom
    obtain ⟨dev', m, hrun, hentry, hmem⟩ := setupMptable_below stepping features s hroom
    refine ⟨(), _, hrun, rfl, h.step (fun _ ha => ha) (fun a ha => hmem a ?_) hentry⟩
    have hlow := hs.low
    unfold Firmware.Ahead at ha
    omega
  · trivial

end Mptable

/-! ### The SMBIOS tables -/

section Smbios

variable {edata : BitVec 32} {d : FileTable} {files : List FwCfgFile}
  {entry : BitVec 16 → List Byte} {s : Firmware}

/-- Reading a file changes its buffer, and the place in the device. -/
theorem fwCfgReadFile_ok {i : Nat} (hlt : i < s.files.length) (buf len : BitVec 32) :
    ∃ t, fwCfgReadFile i buf len s = .ok () t ∧ t.heap = s.heap ∧ t.files = s.files ∧
      t.mem = store s.mem buf (s.dev.fileBytes s.files[i] len.toNat) ∧
      t.dev.entry = s.dev.entry := ⟨_, fwCfgReadFile_lt buf len hlt, rfl, rfl, rfl, rfl⟩

theorem readSmbiosTables_logs (hedata : fsegStart ≤ edata.toNat) (hs : PointersInside edata s)
    (hfiles : s.files = files) {ep : BitVec 32} {n : BitVec 16}
    (hlength : BitVec.ofNat 16 (ofLE (load s.mem (epStructureTableLength ep) 2)) = n) :
    Logs edata (readSmbiosTables ep) (smbiosTablesPlan files n) s := by
  subst hfiles
  have hsilent : Logs edata (pure () : Fw Unit) (Plan.stops .returns) s :=
    Logs.silent (KeepsHeap.pure _) _ _
  unfold smbiosTablesPlan
  apply Logs.after_step (peek_apply _ _ s) rfl
  simp only [hlength]
  cases hfound : fileIndex s.files smbiosTablesName with
  | none =>
    rw [fileNamed_none hfound]
    apply Logs.after_step (fwCfgFileId_none hfound) rfl
    apply Logs.after_step (fwCfgFileSize_neg_one s) rfl
    rw [if_pos (Or.inl rfl)]
    exact hsilent
  | some i =>
    have hlt := fileIndex_lt hfound
    have hne : ¬ (i : Int) = -1 := by omega
    simp only [fileNamed_some hfound hlt]
    apply Logs.after_step (fwCfgFileId_some hfound) rfl
    apply Logs.after_step (fwCfgFileSize_lt hlt) rfl
    by_cases hsize : n.setWidth 32 ≠ s.files[i].size
    · rw [if_pos (Or.inr hsize), if_pos hsize]
      exact hsilent
    · rw [if_neg (not_or.mpr ⟨hne, hsize⟩), if_neg hsize]
      have hrest : ∀ p, KeepsHeap (if p = 0#32 then pure ()
          else do
            fwCfgReadFile i (p + BitVec.ofNat 32 t0Len) (n.setWidth 32)
            publishSmbios ep (p + BitVec.ofNat 32 t0Len) n : Fw Unit) := fun p =>
        KeepsHeap.ite (KeepsHeap.pure _) ((fwCfgReadFile_keepsHeap _ _ _).bind fun _ =>
          publishSmbios_keepsHeap _ _ _)
      have hmalloc := Follows.malloc hedata hs .fseg (n.setWidth 32 + BitVec.ofNat 32 t0Len)
        (by decide : 0 < (16#32).toNat)
      exact hmalloc.andThen hedata hs (fun p => (hrest p).grows) (stops_aligned .returns)
        fun p t _ _ => Logs.silent (hrest p) t .returns

/-- The anchor is read into its block, and the directory stays. -/
theorem readAnchor (hedata : fsegStart ≤ edata.toNat) (hs : PointersInside edata s)
    (h : DirectoryKept d s.files entry s) {i : Nat} (hlt : i < s.files.length)
    (hfits : s.room.Fits
      (Plan.block .fseg (BitVec.ofNat 32 smbiosEntryPointBytes) 16#32).requests) :
    let b := s.request .fseg (BitVec.ofNat 32 smbiosEntryPointBytes) 16#32
    ∃ t, fwCfgReadFile i b.base (BitVec.ofNat 32 smbiosEntryPointBytes) (s.allocate b) = .ok () t ∧
      t.heap = (s.allocate b).heap ∧ t.files = s.files ∧ DirectoryKept d s.files entry t ∧
      BitVec.ofNat 16 (ofLE (load t.mem (epStructureTableLength b.base) 2)) =
        anchorLength (entryBytes (entry s.files[i].select) 0 smbiosEntryPointBytes) := by
  intro b
  have hlt' : i < (s.allocate b).files.length := by rwa [allocate_files]
  obtain ⟨t, hrun, hheap, hfiles, hmem, hentry⟩ :=
    fwCfgReadFile_ok hlt' b.base (BitVec.ofNat 32 smbiosEntryPointBytes)
  simp only [allocate_mem, allocate_files, allocate_dev] at hfiles hmem hentry
  have hbytes := FwCfg.length_fileBytes s.dev s.files[i] smbiosEntryPointBytes
  refine ⟨t, hrun, hheap, hfiles, h.block hedata hs _ (by decide : 0 < (16#32).toNat) hfits hheap
    (fun a ha => ?_) hentry, ?_⟩
  · rw [hmem]
    exact store_of_not_within s.mem (hbytes ▸ ha)
  · have hload := load_store_inside s.mem b.base
      (by rw [hbytes]; decide : 22 + 2 ≤ (s.dev.fileBytes s.files[i] smbiosEntryPointBytes).length)
      (by rw [hbytes]; decide)
    rw [anchorLength, ← h.entry, hmem]
    exact congrArg (fun bs => BitVec.ofNat 16 (ofLE bs)) hload

/-- The blocks of `extract_smbios` are those of its plan. -/
theorem extractSmbiosReread_logs (hedata : fsegStart ≤ edata.toNat)
    (hs : PointersInside edata s) (h : DirectoryKept d files entry s) :
    Logs edata (extractSmbiosReread d) (smbiosPlan files entry) s := by
  have hsilent : Logs edata (pure () : Fw Unit) (Plan.stops .returns) (s.reread d) :=
    Logs.silent (KeepsHeap.pure _) _ _
  obtain rfl := h.files_reread
  unfold smbiosPlan
  apply Logs.after_step (rereadFiles_apply d s) rfl
  change Logs edata _ _ (s.reread d)
  cases hfound : fileIndex (s.reread d).files smbiosAnchorName with
  | none =>
    rw [fileNamed_none hfound]
    apply Logs.after_step (fwCfgFileId_none hfound) rfl
    apply Logs.after_step (fwCfgFileSize_neg_one _) rfl
    rw [if_pos (Or.inl rfl)]
    exact hsilent
  | some i =>
    have hlt := fileIndex_lt hfound
    have hne : ¬ (i : Int) = -1 := by omega
    simp only [fileNamed_some hfound hlt]
    apply Logs.after_step (fwCfgFileId_some hfound) rfl
    apply Logs.after_step (fwCfgFileSize_lt hlt) rfl
    by_cases hsize : BitVec.ofNat 32 smbiosEntryPointBytes ≠ (s.reread d).files[i].size
    · rw [if_pos (Or.inr hsize), if_pos hsize]
      exact hsilent
    · rw [if_neg (not_or.mpr ⟨hne, hsize⟩), if_neg hsize]
      have halign : 0 < (16#32).toNat := by decide
      have hs' : PointersInside edata (s.reread d) :=
        pointersInside_congr (t := s.reread d) (rfl : s.heap = _) hs
      have hmalloc := Follows.malloc hedata hs' .fseg (BitVec.ofNat 32 smbiosEntryPointBytes) halign
      refine hmalloc.andThen hedata hs' (fun p b => ?_) (smbiosTablesPlan_aligned _ _)
        fun p t hinside hp => ?_
      · have hI := heapInvariant_mem b
        exact (StateRun.Keeps.pure _).ite (((fwCfgReadFile_keepsHeap _ _ _).keeps hI).bind
          fun _ => (rereadFiles_keeps hI d).bind fun _ => readSmbiosTables_keeps hI _)
      · obtain ⟨rfl, rfl, hfits⟩ := hp
        obtain ⟨-, -, hzero⟩ := allocate_fits hedata hs' halign hfits.1
        obtain ⟨t, hrun, hheap, -, hkept, hlength⟩ := readAnchor hedata hs' h.reread hlt hfits
        have hinside' : PointersInside edata (t.reread d) :=
          pointersInside_congr (t := t.reread d) hheap.symm hinside
        rw [if_neg hzero]
        apply Logs.after_step hrun hheap
        apply Logs.after_step (rereadFiles_apply d t) rfl
        exact readSmbiosTables_logs hedata hinside' hkept.read hlength

end Smbios

/-! ### The boot -/

section Boot

variable {edata : BitVec 32} {d : FileTable} {files : List FwCfgFile} {s : Firmware}
  {dev : FwCfg}

theorem finishPci_follows (hedata : fsegStart ≤ edata.toNat) (hs : PointersInside edata s)
    (platform : Platform) (labels : Labels) :
    Follows edata (finishPci platform labels)
      (if platform.knownBridge = false then Plan.stops .panics else Plan.block .fseg 16#32 16#32) s
      fun _ t => t.dev.entry = s.dev.entry ∧ t.fileAddress = s.fileAddress := by
  by_cases hbridge : platform.knownBridge = false
  · rw [if_pos hbridge]
    exact Follows.silent ⟨s, StateRun.bind_of_error (panicIf_of hbridge s), rfl⟩
  · rw [if_neg hbridge]
    let b := s.request .fseg 16#32 16#32
    have hrun : finishPci platform labels s =
        .ok () ((s.allocate b).withBlock b.base (bios32Directory labels.bios32Entry)) :=
      (StateRun.bind_of_ok (panicIf_of_not hbridge s)).trans (setupBios32_apply _ s)
    refine Follows.of_heap hedata hs { zone := .fseg, size := 16#32, align := 16#32 } (by decide)
      ?_ fun _ => ?_
    · rw [hrun]
      rfl
    · exact ⟨(), _, hrun, rfl, rfl, rfl⟩

/-- The tables of a boot are planned by the device, once its directory is in
memory. -/
theorem setupTablesReread_logs (hedata : fsegStart ≤ edata.toNat) (hs : PointersInside edata s)
    (platform : Platform) (hready : LoaderReady d s) (hread : d.read s.mem = files)
    (hentry : s.dev.entry = dev.entry) :
    Logs edata (setupTablesReread platform d) (tablesPlan files dev) s := by
  have hacpi := extractAcpiReread_follows hedata hs hready
  rw [Firmware.loaderPlan, hread, hentry] at hacpi
  refine hacpi.andThen hedata hs
    (fun _ b => afterAcpiReread_keeps (heapInvariant_mem b) platform d)
    (andThen_aligned (e820Plan_aligned _) (andThen_aligned (stops_aligned _)
      (smbiosPlan_aligned _ _))) fun _ t ht hkept => ?_
  refine (extractE820Reread_follows hedata ht hkept).andThen hedata ht
    (fun _ b => ((setupMptable_keepsHeap _ _).keeps (heapInvariant_mem b)).bind fun _ =>
      extractSmbiosReread_keeps (heapInvariant_mem b) d)
    (andThen_aligned (stops_aligned _) (smbiosPlan_aligned _ _)) fun _ u hu hkept => ?_
  refine (setupMptable_follows hu hkept platform.stepping platform.features).andThen hedata hu
    (fun _ b => extractSmbiosReread_keeps (heapInvariant_mem b) d) (smbiosPlan_aligned _ _)
    fun _ v hv hkept => ?_
  exact extractSmbiosReread_logs hedata hv hkept

/-- The directory behind the vectors. -/
theorem directory_follows (hedata : fsegStart ≤ edata.toNat) (hs : PointersInside edata s)
    (labels : Labels) (hentry : s.dev.entry = dev.entry) (hfresh : ∀ i, s.fileAddress i = 0#32) :
    let t := s.withBlock 0#32 (vectorTable labels)
    PointersInside edata t ∧ Follows edata fwCfgSetupTable (directoryPlan dev) t fun d u =>
      LoaderReady d u ∧ d.read u.mem = dev.directory.map RawRecord.file ∧
        u.dev.entry = dev.entry := by
  intro t
  have hcount : t.dev.fileCount = dev.fileCount := by
    rw [FwCfg.fileCount, FwCfg.fileCount, ← hentry]
    rfl
  have hdirectory : t.dev.directory = dev.directory := by
    rw [FwCfg.directory, FwCfg.directory, hcount, ← hentry]
    rfl
  have hsame : t.dev.entry = dev.entry := hentry
  have hinside : PointersInside edata t := pointersInside_congr (s := s) rfl hs
  have hplan := fwCfgSetupTable_follows hedata hinside hfresh
  rw [directoryPlan, hcount, hdirectory, hsame] at hplan
  exact ⟨hinside, hplan⟩

/-- From the directory on. -/
theorem setupDirectory_logs (hedata : fsegStart ≤ edata.toNat) (hs : PointersInside edata s)
    (platform : Platform) (labels : Labels) (hentry : s.dev.entry = dev.entry)
    (hfresh : ∀ i, s.fileAddress i = 0#32) :
    Logs edata (do
        setupIdt labels
        let d ← fwCfgSetupTable
        setupTablesReread platform d : Fw Unit)
      ((directoryPlan dev).andThen (tablesPlan (dev.directory.map RawRecord.file) dev)) s := by
  obtain ⟨hinside, hplan⟩ := directory_follows hedata hs labels hentry hfresh
  apply Logs.after_step (setupIdt_apply labels s) rfl
  refine hplan.andThen hedata hinside
    (fun d b => setupTablesReread_keeps (heapInvariant_mem b) platform d)
    (tablesPlan_aligned _ _) fun d u hu hready => ?_
  obtain ⟨hready, hread, hkept⟩ := hready
  exact setupTablesReread_logs hedata hu platform hready hread hkept

/-- A boot allocates the blocks of its plan. -/
theorem setupReread_logs (hedata : fsegStart ≤ edata.toNat ∧ edata.toNat ≤ fsegEnd)
    (dev : FwCfg) (mem : Mem) (platform : Platform) (labels : Labels) :
    Logs edata (setupReread platform labels) (bootPlan platform dev)
      (Firmware.initial dev mem 0xf0000#32 edata) := by
  let s : Firmware := { Firmware.initial dev mem 0xf0000#32 edata with
    haveMmconfig := platform.haveMmconfig }
  have hs : PointersInside edata s := pointersInside_congr
    (s := Firmware.initial dev mem 0xf0000#32 edata) rfl (pointersInside_start dev mem hedata.2)
  apply Logs.after_step (StateRun.modify_apply _ _) rfl
  change Logs edata _ _ s
  by_cases hpci : platform.havePci = true
  · rw [bootPlan, pciPlan, if_pos hpci, if_pos hpci]
    refine (finishPci_follows hedata.1 hs platform labels).andThen hedata.1 hs (fun _ b => ?_)
      (andThen_aligned (directoryPlan_aligned _) (tablesPlan_aligned _ _)) fun _ t ht hkept => ?_
    · have hI := heapInvariant_mem b
      exact ((setupIdt_keepsHeap labels).keeps hI).bind fun _ =>
        (fwCfgSetupTable_keeps hI).bind fun d => setupTablesReread_keeps hI platform d
    · have hentry : t.dev.entry = dev.entry := hkept.1
      have hfresh : ∀ i, t.fileAddress i = 0#32 := fun i => congrFun hkept.2 i
      exact setupDirectory_logs hedata.1 ht platform labels hentry hfresh
  · rw [bootPlan, pciPlan, if_neg hpci, if_neg hpci, Plan.stops_andThen]
    exact setupDirectory_logs hedata.1 hs platform labels (rfl : s.dev.entry = dev.entry)
      fun _ => rfl

end Boot

/-- The addresses `stext` and `edata` are the linker's: the firmware starts at
`stext`, and `edata` lies before the end of the F-segment. All blocks of a boot
are refused or in their reserved ranges only if the requests of its plan fit. If
the plan ends as the code means it to, they are so exactly then. -/
theorem setup_blocks_iff (dev : FwCfg) (mem : Mem) {edata : BitVec 32} (platform : Platform)
    (labels : Labels) (hedata : fsegStart ≤ edata.toNat ∧ edata.toNat ≤ fsegEnd) :
    let t := StateRun.final
      (setupReread platform labels (Firmware.initial dev mem 0xf0000#32 edata))
    let fits := Room.Fits { top := 0xf0000, base := edata.toNat } (bootPlan platform dev).requests
    ((∀ b ∈ t.allocs, b.Refused ∨ b.InReserved edata) → fits) ∧
      ((bootPlan platform dev).ending.Meant →
        ((∀ b ∈ t.allocs, b.Refused ∨ b.InReserved edata) ↔ fits)) := by
  have hs := pointersInside_start dev mem hedata.2
  have hlog : LogKept edata (Firmware.initial dev mem 0xf0000#32 edata) := fun b hb =>
    absurd hb List.not_mem_nil
  obtain ⟨honly, hif⟩ :=
    (setupReread_logs hedata dev mem platform labels).logKept hedata.1 hs hlog
  exact ⟨honly, fun hmeant => ⟨honly, hif hmeant⟩⟩

/-- A device with two ACPI files, one for each zone, a pointer from the second
to the first, and an SMBIOS table. The first file has `size` bytes. -/
def tablesDevice (size : Nat) : FwCfg where
  entry := fun key =>
    if key = FW_CFG_FILE_DIR then
      toBE 4 6 ++ dirRecord 512#32 0x20#16 tableLoaderName ++
        dirRecord (BitVec.ofNat 32 size) 0x21#16 acpiTablesName ++
        dirRecord 36#32 0x22#16 acpiRsdpName ++ dirRecord 40#32 0x23#16 e820Name ++
        dirRecord 31#32 0x24#16 smbiosAnchorName ++ dirRecord 300#32 0x25#16 smbiosTablesName
    else if key = 0x20#16 then
      padTo 128 (toLE 4 1 ++ padTo 56 acpiTablesName ++ toLE 4 64 ++ [1#8]) ++
        padTo 128 (toLE 4 1 ++ padTo 56 acpiRsdpName ++ toLE 4 16 ++ [2#8]) ++
        padTo 128 (toLE 4 2 ++ padTo 56 acpiRsdpName ++ padTo 56 acpiTablesName ++
          toLE 4 16 ++ [4#8]) ++
        padTo 128 (toLE 4 3 ++ padTo 56 acpiRsdpName ++ toLE 4 8 ++ toLE 4 0 ++ toLE 4 20)
    else if key = 0x23#16 then
      toLE 8 0x100000000 ++ toLE 8 0x40000000 ++ toLE 4 1 ++ toLE 8 0 ++ toLE 8 0x8000000 ++
        toLE 4 1
    else if key = 0x24#16 then padTo 31 (List.replicate 22 0 ++ toLE 2 300)
    else if key = FW_CFG_NB_CPUS then toLE 4 2
    else []
  key := 0#16
  pos := 0

/-- The seven blocks of a boot of this device. -/
example : (bootPlan q35Platform (tablesDevice 0x100)).requests.map Request.size =
    [16#32, 384#32, 256#32, 36#32, 144#32, 31#32, 346#32] := by decide +kernel

theorem setup_blocks_iff_tables : (bootPlan q35Platform (tablesDevice 0x100)).ending = .returns ∧
    ∀ b ∈ (StateRun.final (setupReread q35Platform fsegLabels
      (Firmware.initial (tablesDevice 0x100) (fun _ => 0#8) 0xf0000#32 0xf4000#32))).allocs,
      b.Refused ∨ b.InReserved 0xf4000#32 := by
  have hends : (bootPlan q35Platform (tablesDevice 0x100)).ending = .returns := by decide +kernel
  exact ⟨hends, ((setup_blocks_iff (tablesDevice 0x100) (fun _ => 0#8) q35Platform fsegLabels
    (by decide)).2 (.inl hends)).mpr (by decide +kernel)⟩

/-- ACPI tables of 256 KiB go to the VGA memory, and the boot goes on. -/
theorem blocks_not_always_reserved : ¬ ∀ (dev : FwCfg) (mem : Mem) (edata : BitVec 32)
    (platform : Platform) (labels : Labels), fsegStart ≤ edata.toNat ∧ edata.toNat ≤ fsegEnd →
    ∀ b ∈ (StateRun.final (setupReread platform labels
      (Firmware.initial dev mem 0xf0000#32 edata))).allocs, b.Refused ∨ b.InReserved edata := by
  intro hall
  have hedata : fsegStart ≤ (0xf4000#32).toNat ∧ (0xf4000#32).toNat ≤ fsegEnd := by decide
  have hlogs := setupReread_logs hedata (tablesDevice 0x40000) (fun _ => 0#8) q35Platform fsegLabels
  exact hlogs.misfits (by decide +kernel) (hall _ _ _ _ _ hedata)

end Qboot
