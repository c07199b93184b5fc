import Qboot.Boot.Blocks

/-!
`main` keeps the records of the directory as they were when `fw_cfg_setup` ended,
and `setupReread` looks at them again at every lookup. While the plan of the
device fits and ends as the code means it to, nothing writes to a record, and
both boots are one.
-/

namespace Qboot

open Bytes ByteMemory

/-- A look that finds what the last one found. -/
theorem reread_of_intact {d : FileTable} {s : Firmware} (h : d.read s.mem = s.files) :
    s.reread d = s := by
  rw [Firmware.reread, h]

/-- The plan fits and ends as the code means it to. -/
structure Plan.Works (p : Plan) (m : Room) : Prop where
  meant : p.ending.Meant
  fits : m.Fits p.requests

/-- The first part of a plan that works. -/
theorem Plan.Works.first {p q : Plan} {m : Room} (h : (p.andThen q).Works m) : p.Works m := by
  by_cases hreturns : p.ending = .returns
  · have hfits := h.fits
    rw [andThen, if_pos hreturns] at hfits
    exact ⟨.inl hreturns, ((m.fits_append _ _).mp hfits).1⟩
  · rwa [andThen, if_neg hreturns] at h

/-! ### The table loader -/

section Acpi

variable {d : FileTable} {s₀ s : Firmware} {placed : Fin 20 → Bool} {new : List Alloc}
  {script : List LoaderCmd}

/-- A script that goes as planned finds the directory as it was. -/
theorem runScriptReread_eq (hready : LoaderReady d s₀) (h : LoaderState d s₀ placed s new)
    (hfiles : s.files = d.read s₀.mem)
    (hmeant : (scriptPlan (d.read s₀.mem) script placed).ending.Meant)
    (hblocks : s.BlocksUsable (scriptPlan (d.read s₀.mem) script placed).requests) :
    runScriptReread d script s = runScript script s := by
  induction script generalizing s placed new with
  | nil => rfl
  | cons cmd rest ih =>
    by_cases hquit : cmd = .quit
    · subst hquit
      rfl
    have hlook : s.reread d = s := reread_of_intact ((h.intact hready).trans hfiles.symm)
    have hleads := h.leads hready cmd
    rw [hlook] at hleads
    rw [runScriptReread_cons d hquit, runScript_cons hquit, hlook]
    rw [scriptPlan] at hmeant hblocks
    cases haction : cmd.action (d.read s₀.mem) placed with
    | place i r =>
      rw [haction] at hleads hmeant hblocks
      obtain ⟨t, hrun, -, hkept, hheap, hnext⟩ := hleads
      obtain ⟨hblock, hlater⟩ := blocksUsable_cons.mp hblocks
      rw [StateRun.bind_of_ok hrun, StateRun.bind_of_ok hrun]
      exact ih (hnext hblock) hkept hmeant ((blocksUsable_congr hheap).mpr hlater)
    | patch i =>
      rw [haction] at hleads hmeant hblocks
      obtain ⟨t, hrun, hkept, hheap, hnext⟩ := hleads
      rw [StateRun.bind_of_ok hrun, StateRun.bind_of_ok hrun]
      exact ih hnext hkept hmeant ((blocksUsable_congr hheap).mpr hblocks)
    | stop e =>
      rw [haction] at hleads hmeant
      rcases hmeant with rfl | rfl
      · exact absurd (action_returns haction) hquit
      · have hpanics : cmd.run s = .error .panic (s.reread d) := hleads
        rw [StateRun.bind_of_error hpanics, StateRun.bind_of_error hpanics]

theorem extractAcpiReread_snapshot (hready : LoaderReady d s)
    (hmeant : (s.loaderPlan d).ending.Meant) (hblocks : s.BlocksUsable (s.loaderPlan d).requests) :
    extractAcpiReread d s = extractAcpi (s.reread d) := by
  by_cases hwhole : (s.reread d).ScriptWhole
  · rw [loaderPlan_of_whole hwhole] at hmeant hblocks
    rw [extractAcpiReread_eq hwhole, extractAcpi_eq hwhole]
    have hstart : (s.reread d).loaderStart.files = d.read s.mem := by
      obtain ⟨dev, hstart⟩ := loaderStart_eq (s.reread d)
      rw [hstart]
      rfl
    exact runScriptReread_eq hready (loaderState_start hready) hstart hmeant
      ((blocksUsable_congr (loaderStart_heap s d)).mpr hblocks)
  · rw [extractAcpiReread_overruns hwhole, extractAcpi_overruns hwhole]

end Acpi

/-! ### The other tables -/

section Tables

variable {edata : BitVec 32} {d : FileTable} {files : List FwCfgFile}
  {entry : BitVec 16 → List Byte} {s : Firmware}

theorem extractE820Reread_snapshot (hedata : fsegStart ≤ edata.toNat)
    (hs : PointersInside edata s) (h : DirectoryKept d files entry s)
    (hworks : (e820Plan files).Works s.room) :
    extractE820Reread d s = extractE820 (s.reread d) := by
  obtain rfl := h.files_reread
  obtain ⟨hmeant, hfits⟩ := hworks
  rw [e820Plan] at hmeant hfits
  cases hfound : fileIndex (s.reread d).files e820Name with
  | none =>
    have hpanics : extractE820 (s.reread d) = .error .panic (s.reread d) :=
      (StateRun.bind_of_ok (fwCfgFileId_none hfound)).trans
        (StateRun.bind_of_error (panicIf_of rfl _))
    rw [extractE820Reread_absent hfound, hpanics]
  | some i =>
    have hlt := fileIndex_lt hfound
    rw [fileNamed_some hfound hlt] at hmeant hfits
    simp only [← fileSize_eq hlt] at hmeant hfits
    have hwhole : e820EntryBytes ∣ (s.reread d).fileSize i ∧
        104 + (s.reread d).fileSize i < 2 ^ 32 := by
      by_contra hpart
      rw [if_neg hpart] at hmeant
      exact absurd hmeant (by decide)
    exact extractE820Reread_eq hedata hs h hfound hwhole.1 hwhole.2 hfits

theorem extractSmbiosReread_snapshot (hedata : fsegStart ≤ edata.toNat)
    (hs : PointersInside edata s) (h : DirectoryKept d files entry s)
    (hworks : (smbiosPlan files entry).Works s.room) :
    extractSmbiosReread d s = extractSmbios (s.reread d) := by
  obtain rfl := h.files_reread
  have hfits := hworks.fits
  rw [smbiosPlan] at hfits
  refine (StateRun.bind_of_ok (rereadFiles_apply d s)).trans ?_
  cases hfound : fileIndex (s.reread d).files smbiosAnchorName with
  | none =>
    have hlookup (f : Int → BitVec 32 → Fw Unit) :
        (fwCfgFileId smbiosAnchorName >>= fun id => fwCfgFileSize id >>= f id) (s.reread d) =
          f (-1) 0#32 (s.reread d) :=
      (StateRun.bind_of_ok (fwCfgFileId_none hfound)).trans
        (StateRun.bind_of_ok (fwCfgFileSize_neg_one _))
    refine (hlookup _).trans (Eq.trans ?_ (hlookup _).symm)
    rw [if_pos (Or.inl rfl), if_pos (Or.inl rfl)]
  | some i =>
    have hlt := fileIndex_lt hfound
    have hne : ¬ (i : Int) = -1 := by omega
    have hlookup (f : Int → BitVec 32 → Fw Unit) :
        (fwCfgFileId smbiosAnchorName >>= fun id => fwCfgFileSize id >>= f id) (s.reread d) =
          f i (s.reread d).files[i].size (s.reread d) :=
      (StateRun.bind_of_ok (fwCfgFileId_some hfound)).trans
        (StateRun.bind_of_ok (fwCfgFileSize_lt hlt))
    refine (hlookup _).trans (Eq.trans ?_ (hlookup _).symm)
    simp only [fileNamed_some hfound hlt] at hfits
    by_cases hsize : BitVec.ofNat 32 smbiosEntryPointBytes ≠ (s.reread d).files[i].size
    · rw [if_pos (Or.inr hsize), if_pos (Or.inr hsize)]
    · rw [if_neg (not_or.mpr ⟨hne, hsize⟩), if_neg (not_or.mpr ⟨hne, hsize⟩)]
      rw [if_neg hsize] at hfits
      have hs' : PointersInside edata (s.reread d) :=
        pointersInside_congr (t := s.reread d) (rfl : s.heap = _) hs
      have hanchor : (s.reread d).room.Fits
          (Plan.block .fseg (BitVec.ofNat 32 smbiosEntryPointBytes) 16#32).requests :=
        ((s.room.fits_append _ _).mp hfits).1
      obtain ⟨-, -, hzero⟩ := allocate_fits hedata hs' (by decide) hanchor.1
      obtain ⟨t, hrun, -, hfiles, hkept, -⟩ := readAnchor hedata hs' h.reread hlt hanchor
      -- the anchor lies ahead of the records
      have hintact : d.read t.mem = t.files := hkept.read.trans hfiles.symm
      have halloc := mallocIn_apply .fseg (BitVec.ofNat 32 smbiosEntryPointBytes) 16#32 (s.reread d)
      refine (StateRun.bind_of_ok halloc).trans (Eq.trans ?_ (StateRun.bind_of_ok halloc).symm)
      rw [if_neg hzero, if_neg hzero]
      refine (StateRun.bind_of_ok hrun).trans (Eq.trans ?_ (StateRun.bind_of_ok hrun).symm)
      exact StateRun.bind_of_ok (rereadFiles_of_intact hintact)

end Tables

/-! ### The boot -/

section Boot

variable {α β : Type} {edata : BitVec 32} {x : Fw α} {p q : Plan} {s t : Firmware} {a : α}
  {Q : α → Firmware → Prop}

/-- The second plan works where the first part has returned. -/
theorem Follows.second (hedata : fsegStart ≤ edata.toNat) (hs : PointersInside edata s)
    (hx : Follows edata x p s Q) (hworks : (p.andThen q).Works s.room) (hrun : x s = .ok a t) :
    PointersInside edata t ∧ Q a t ∧ q.Works t.room := by
  obtain ⟨hmeant, hfits⟩ := hworks.first
  by_cases hreturns : p.ending = .returns
  · obtain ⟨b, u, hdone, -, hroom, hinside, hQ⟩ := hx.returned hedata hs hreturns hfits
    obtain ⟨rfl, rfl⟩ := EStateM.Result.ok.inj (hrun.symm.trans hdone)
    rw [Plan.andThen, if_pos hreturns] at hworks
    exact ⟨hinside, hQ, hworks.meant, hroom ▸ ((s.room.fits_append _ _).mp hworks.fits).2⟩
  · have hcarried := hx.fits hfits
    rw [hmeant.resolve_left hreturns] at hcarried
    obtain ⟨u, hstops, -⟩ := hcarried
    cases hrun.symm.trans hstops

variable {d : FileTable} {files : List FwCfgFile} {dev : FwCfg}

/-- What spares the device's facts leaves the last look at the directory. -/
theorem files_of_spares {x : Fw α} (hx : Spares Firmware.deviceFacts x) (hrun : x s = .ok a t) :
    t.files = s.files := by
  obtain ⟨new, htouched⟩ := hx s
  rw [hrun] at htouched
  exact congrArg Prod.fst htouched.kept

/-- The tables of a boot that goes as planned. -/
theorem setupTablesReread_snapshot (hedata : fsegStart ≤ edata.toNat)
    (hs : PointersInside edata s) (platform : Platform) (hready : LoaderReady d s)
    (hread : d.read s.mem = files) (hentry : s.dev.entry = dev.entry)
    (hworks : (tablesPlan files dev).Works s.room) :
    setupTablesReread platform d s = setupTables platform (s.reread d) := by
  have hplan : s.loaderPlan d = acpiPlan files dev.entry := by
    rw [Firmware.loaderPlan, hread, hentry]
  have hfollows := extractAcpiReread_follows hedata hs hready
  rw [hplan, hread, hentry] at hfollows
  obtain ⟨hmeant, hfits⟩ := hworks.first
  obtain ⟨-, -, hblocks, -⟩ := takes_fits hedata hs hfollows.aligned hfits
  have hacpi := extractAcpiReread_snapshot hready (hplan ▸ hmeant) (hplan ▸ hblocks)
  refine StateRun.bind_eq hacpi fun _ t hrun => ?_
  obtain ⟨ht, hkept, hworks⟩ := hfollows.second hedata hs hworks (hacpi.trans hrun)
  have hfiles : t.files = files := (files_of_spares
    (extractAcpi_spares settledAcpi_deviceFacts) hrun).trans hread
  have hlook : t.reread d = t := reread_of_intact (hkept.read.trans hfiles.symm)
  have he820 := extractE820Reread_snapshot hedata ht hkept hworks.first
  rw [hlook] at he820
  refine StateRun.bind_eq he820 fun _ u hrun => ?_
  obtain ⟨hu, hkept, hworks⟩ :=
    (extractE820Reread_follows hedata ht hkept).second hedata ht hworks (he820.trans hrun)
  have hfiles : u.files = files := (files_of_spares
    (extractE820_spares settledE820_deviceFacts) hrun).trans hfiles
  refine StateRun.bind_eq rfl fun _ v hrun => ?_
  obtain ⟨hv, hkept, hworks⟩ :=
    (setupMptable_follows hu hkept platform.stepping platform.features).second hedata hu hworks hrun
  have hfiles : v.files = files := (files_of_spares
    (setupMptable_spares settledE820_deviceFacts.toSettled _ _) hrun).trans hfiles
  rw [extractSmbiosReread_snapshot hedata hv hkept hworks,
    reread_of_intact (hkept.read.trans hfiles.symm)]

/-- From the directory on. -/
theorem setupDirectory_snapshot (hedata : fsegStart ≤ edata.toNat) (hs : PointersInside edata s)
    (platform : Platform) (labels : Labels) (hentry : s.dev.entry = dev.entry)
    (hfresh : ∀ i, s.fileAddress i = 0#32)
    (hworks : ((directoryPlan dev).andThen
      (tablesPlan (dev.directory.map RawRecord.file) dev)).Works s.room) :
    (do
      setupIdt labels
      let d ← fwCfgSetupTable
      setupTablesReread platform d : Fw Unit) s =
    (do
      setupIdt labels
      fwCfgSetup
      setupTables platform : Fw Unit) s := by
  obtain ⟨hinside, hplan⟩ := directory_follows hedata hs labels hentry hfresh
  refine StateRun.bind_eq rfl fun _ u hidt => ?_
  obtain rfl : u = s.withBlock 0#32 (vectorTable labels) :=
    (EStateM.Result.ok.inj (hidt.symm.trans (setupIdt_apply labels s))).2
  rw [fwCfgSetup_eq_reread, bind_assoc]
  refine StateRun.bind_eq rfl fun d u hrun => ?_
  obtain ⟨hu, ⟨hready, hread, hkept⟩, hworks⟩ := hplan.second hedata hinside hworks hrun
  have hlook : (rereadFiles d >>= fun _ => setupTables platform) u =
      setupTables platform (u.reread d) := StateRun.bind_of_ok (rereadFiles_apply d u)
  rw [hlook]
  exact setupTablesReread_snapshot hedata hu platform hready hread hkept hworks

/-- In a boot that goes as the device's plan says, `main` finds with every lookup
what is in memory. -/
theorem main_eq_reread (hedata : fsegStart ≤ edata.toNat ∧ edata.toNat ≤ fsegEnd) (dev : FwCfg)
    (mem : Mem) (platform : Platform) (labels : Labels)
    (hworks : (bootPlan platform dev).Works { top := 0xf0000, base := edata.toNat }) :
    main platform labels (Firmware.initial dev mem 0xf0000#32 edata) =
      (do
        setupReread platform labels
        bootFromFwcfg
        throw Stop.panic : Fw Unit) (Firmware.initial dev mem 0xf0000#32 edata) := by
  let boot : Fw Unit := do
    bootFromFwcfg
    throw Stop.panic
  let rest : Fw Unit := do
    setupIdt labels
    let d ← fwCfgSetupTable
    setupTablesReread platform d
  -- the part of `main` behind the BIOS32 directory
  have hrest (s : Firmware) (hs : PointersInside edata s) (hentry : s.dev.entry = dev.entry)
      (hfresh : ∀ i, s.fileAddress i = 0#32)
      (hworks : ((directoryPlan dev).andThen
        (tablesPlan (dev.directory.map RawRecord.file) dev)).Works s.room) :
      (do
        setupIdt labels
        fwCfgSetup
        extractAcpi
        extractE820
        setupMptable platform.stepping platform.features
        extractSmbios
        boot : Fw Unit) s = (rest >>= fun _ => boot) s := by
    have hsame := setupDirectory_snapshot hedata.1 hs platform labels hentry hfresh hworks
    refine Eq.trans ?_ (StateRun.bind_eq hsame.symm fun _ _ _ => rfl)
    simp only [setupTables, bind_assoc]
  let s : Firmware := { Firmware.initial dev mem 0xf0000#32 edata with
    haveMmconfig := platform.haveMmconfig }
  have hs : PointersInside edata s := pointersInside_congr
    (s := Firmware.initial dev mem 0xf0000#32 edata) rfl (pointersInside_start dev mem hedata.2)
  have hroom : s.room = { top := 0xf0000, base := edata.toNat } := rfl
  rw [← hroom, bootPlan, pciPlan] at hworks
  rw [main, setupReread, bind_assoc]
  refine StateRun.bind_eq rfl fun _ t hstart => ?_
  obtain rfl : t = s := (EStateM.Result.ok.inj (hstart.symm.trans (StateRun.modify_apply _ _))).2
  by_cases hpci : platform.havePci = true
  · rw [if_pos hpci] at hworks
    rw [if_pos hpci, if_pos hpci, bind_assoc]
    refine StateRun.bind_eq rfl fun _ u hrun => ?_
    obtain ⟨hu, hkept, hworks⟩ :=
      (finishPci_follows hedata.1 hs platform labels).second hedata.1 hs hworks hrun
    exact hrest u hu hkept.1 (fun i => congrFun hkept.2 i) hworks
  · rw [if_neg hpci, Plan.stops_andThen] at hworks
    rw [if_neg hpci, if_neg hpci]
    exact hrest s hs rfl (fun _ => rfl) hworks

end Boot

/-- A device with ACPI and SMBIOS tables, and such a boot. -/
example : (bootPlan q35Platform (tablesDevice 0x100)).Works
    { top := 0xf0000, base := (0xf4000#32).toNat } := ⟨by decide +kernel, by decide +kernel⟩

end Qboot
