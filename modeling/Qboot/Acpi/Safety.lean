import Qboot.Acpi.Reread

/-!
What the table loader indexes and what its commands change, for every directory
and script. Lookups see the directory in memory, so the results hold as long as
no command has changed it: a pointer command outside its file, a script with a
part of a command or a block that wraps may do that, and what comes after such
a step is not for the script to say.
-/

namespace Qboot

open Bytes ByteMemory

section Start

variable {d : FileTable} {s : Firmware}

theorem loaderStart_entry (s : Firmware) : s.loaderStart.dev.entry = s.dev.entry := by
  unfold Firmware.loaderStart
  split
  · split <;> rfl
  · rfl

/-- The state in which the first command runs. -/
theorem loaderState_start (h : LoaderReady d s) :
    LoaderState d s (fun _ => false) (s.reread d).loaderStart [] := by
  obtain ⟨dev, hstart⟩ := loaderStart_eq (s.reread d)
  have hentry := loaderStart_entry (s.reread d)
  rw [hstart] at hentry ⊢
  exact (LoaderState.start h).congr rfl hentry rfl rfl

theorem loaderStart_heap (s : Firmware) (d : FileTable) :
    (s.reread d).loaderStart.heap = s.heap := by
  obtain ⟨dev, hstart⟩ := loaderStart_eq (s.reread d)
  rw [hstart]
  rfl

/-- The allocators have passed the directory. -/
theorem loaderReady_of_bounds (hlow : s.mallocTop.toNat ≤ d.files.toNat)
    (hend : d.files.toNat + fwCfgFileBytes * d.filecnt ≤ s.fsegBase.toNat)
    (hfresh : ∀ i, s.fileAddress i = 0#32) : LoaderReady d s where
  zones := by omega
  fits := by
    have := s.fsegBase.isLt
    omega
  passed a ha := by
    have hlt := s.fsegBase.isLt
    have hrange := (within_iff (p := d.files) (n := fwCfgFileBytes * d.filecnt) (by omega)).mp ha
    rw [Firmware.Ahead]
    omega
  fresh := hfresh

/-- `extract_acpi` goes as planned. -/
theorem extractAcpiReread_ends (hready : LoaderReady d s)
    (hblocks : s.BlocksUsable (s.loaderPlan d).requests) :
    (s.loaderPlan d).ending.Reached (extractAcpiReread d s)
      (LoaderDone d s s (s.loaderPlan d).requests) := by
  by_cases hwhole : (s.reread d).ScriptWhole
  · rw [loaderPlan_of_whole hwhole] at hblocks ⊢
    rw [extractAcpiReread_eq hwhole]
    have hends := runScriptReread_ends hready (loaderState_start hready)
      ((blocksUsable_congr (loaderStart_heap s d)).mpr hblocks)
    exact hends.mono fun t ht => ⟨ht.1, ht.2.trans (heap_takes_congr (loaderStart_heap s d) _)⟩
  · rw [loaderPlan_of_part hwhole]
    trivial

end Start

/-! ### Indexes of the address table -/

/-- Every access to `file_address` is inside the table. -/
def IndexesInside (d : FileTable) (s : Firmware) : Prop :=
  ∀ t, extractAcpiReread d s ≠ .error (.fault .addressTable) t

/-- The field of a pointer command fits in the union that it is copied to. -/
def LoaderCmd.UnionFits : LoaderCmd → Prop
  | .ptr _ _ _ size => size.toNat ≤ 8
  | _ => True

theorem indexesInside_iff_reached {d : FileTable} {s : Firmware}
    (hwhole : (s.reread d).ScriptWhole) :
    IndexesInside d s ↔ ∀ cmd t, s.AcpiRereads d cmd t → cmd.IndexOk t := by
  rw [IndexesInside, extractAcpiReread_eq hwhole]
  constructor
  · intro hnever cmd t hreach
    by_contra hbad
    obtain ⟨s', hstop⟩ := (run_addressTable cmd t).mpr hbad
    exact hnever s' (runScriptReread_error.mpr ⟨cmd, t, hreach.2, hstop⟩)
  · intro hok s' hstop
    obtain ⟨cmd, t, hreach, hcmd⟩ := runScriptReread_error.mp hstop
    exact (run_addressTable cmd t).mp ⟨s', hcmd⟩ (hok cmd t ⟨hwhole, hreach⟩)

theorem indexesInside_iff_plan {d : FileTable} {s : Firmware} (hready : LoaderReady d s)
    (hblocks : s.BlocksUsable (s.loaderPlan d).requests)
    (hstrays : (s.loaderPlan d).ending ≠ .strays)
    (hoverruns : (s.loaderPlan d).ending ≠ .overruns) :
    IndexesInside d s ↔ (s.loaderPlan d).ending ≠ .indexes := by
  have hends := extractAcpiReread_ends hready hblocks
  rw [IndexesInside]
  cases hend : (s.loaderPlan d).ending with
  | returns =>
    rw [hend] at hends
    obtain ⟨t, hrun, -⟩ := hends
    rw [hrun]
    exact iff_of_true (fun t h => by cases h) (by decide)
  | panics =>
    rw [hend] at hends
    obtain ⟨t, hrun, -⟩ := hends
    rw [hrun]
    exact iff_of_true (fun t h => by cases h) (by decide)
  | indexes =>
    rw [hend] at hends
    obtain ⟨t, hrun⟩ := hends
    exact iff_of_false (fun h => h t hrun) (not_not.mpr rfl)
  | strays => exact absurd hend hstrays
  | overruns => exact absurd hend hoverruns

/-- In any run that overruns no stack array, every access to `file_address` is
inside the table exactly when the lookups of every command that is reached find
files of the table. If the blocks do not wrap and no pointer command leaves its
file, the directory and the script decide it: exactly when the plan does not end
at an index. -/
theorem extractAcpi_indexes_iff (d : FileTable) (s : Firmware) :
    ((s.reread d).ScriptWhole → (∀ cmd t, s.AcpiRereads d cmd t → cmd.UnionFits) →
      (IndexesInside d s ↔ ∀ cmd t, s.AcpiRereads d cmd t → cmd.IndexOk t)) ∧
    (LoaderReady d s → s.BlocksUsable (s.loaderPlan d).requests →
      (s.loaderPlan d).ending ≠ .strays → (s.loaderPlan d).ending ≠ .overruns →
      (IndexesInside d s ↔ (s.loaderPlan d).ending ≠ .indexes)) :=
  ⟨fun hwhole _ => indexesInside_iff_reached hwhole, indexesInside_iff_plan⟩

/-! ### A machine with a script -/

/-- A device with a script and one file `T` of 8 bytes. -/
def loaderDevice (script : List Byte) : FwCfg where
  entry := fun key =>
    if key = FW_CFG_FILE_DIR then
      toBE 4 2 ++ dirRecord (BitVec.ofNat 32 script.length) 0x20#16 tableLoaderName ++
        dirRecord 8#32 0x21#16 (cstring ['T'])
    else if key = 0x20#16 then script
    else if key = 0x21#16 then [4#8, 0#8, 0#8, 0#8, 5#8, 6#8, 7#8, 8#8]
    else []
  key := 0#16
  pos := 0

/-- The machine after `fw_cfg_setup`. -/
def loaderMachine (script : List Byte) : Firmware :=
  StateRun.final (fwCfgSetupTable
    (Firmware.initial (loaderDevice script) (fun _ => 0#8) 0xf0000#32 0xf4000#32))

/-- Its directory. -/
def loaderTable : FileTable := { files := 0xf4000#32, filecnt := 2 }

/-- A script that places `T` and adds its address to the four bytes at
`offset`. -/
def placeAndPatch (offset : Nat) : List Byte :=
  padTo 128 (toLE 4 1 ++ padTo 56 (cstring ['T']) ++ toLE 4 16 ++ [1#8]) ++
    padTo 128 (toLE 4 2 ++ padTo 56 (cstring ['T']) ++ padTo 56 (cstring ['T']) ++
      toLE 4 offset ++ [4#8])

/-- A script that fixes the checksum of a file that does not exist. -/
def sumUnknown : List Byte := padTo 128 (toLE 4 3 ++ padTo 56 (cstring ['U']))

theorem loaderReady_patch : LoaderReady loaderTable (loaderMachine (placeAndPatch 0)) :=
  loaderReady_of_bounds (by decide +kernel) (by decide +kernel) (by decide +kernel)

theorem extractAcpi_indexes_patch : IndexesInside loaderTable (loaderMachine (placeAndPatch 0)) :=
  ((extractAcpi_indexes_iff loaderTable (loaderMachine (placeAndPatch 0))).2 loaderReady_patch
    (by decide +kernel) (by decide +kernel) (by decide +kernel)).mpr (by decide +kernel)

/-- A checksum command for a file that does not exist reads `file_address[-1]`. -/
theorem extractAcpi_indexes_unknown :
    ¬ ∀ (d : FileTable) (s : Firmware), LoaderReady d s → IndexesInside d s := by
  intro hall
  have hready : LoaderReady loaderTable (loaderMachine sumUnknown) :=
    loaderReady_of_bounds (by decide +kernel) (by decide +kernel) (by decide +kernel)
  have hinside := hall _ _ hready
  rw [indexesInside_iff_plan hready (by decide +kernel) (by decide +kernel) (by decide +kernel)]
    at hinside
  exact hinside (by decide +kernel)

/-! ### Writes -/

/-- What a pointer or checksum command may do in a state `t` of a run that
started in `s`: return or panic, change bytes of its target only, none of a file
with another index, and none that the allocators had passed before the run. -/
structure LoaderCmd.Contained (s t : Firmware) (cmd : LoaderCmd) : Prop where
  stays : cmd.StaysInTarget t
  width : ∀ dest src offset size t', cmd = .ptr dest src offset size →
    cmd.run t = .ok () t' → size.toNat ≤ 8
  others : ∀ name, cmd.target = some name → ∀ i : Fin 20, t.fileAddress i ≠ 0#32 →
    fileIndex t.files name ≠ some i.val → ∀ a, Within (t.fileAddress i) (t.fileSize i.val) a →
      (StateRun.final (cmd.run t)).mem a = t.mem a
  passed : ∀ name, cmd.target = some name → ∀ a, ¬ s.Ahead a →
    (StateRun.final (cmd.run t)).mem a = s.mem a

/-- A command that is in its plan is contained. -/
theorem LoaderState.contained {d : FileTable} {s t : Firmware} {placed : Fin 20 → Bool}
    {new : List Alloc} (h : LoaderState d s placed t new) (hfiles : t.files = d.read s.mem)
    {cmd : LoaderCmd} (hmeant : ∀ e, cmd.action (d.read s.mem) placed = .stop e → e.Meant) :
    cmd.Contained s t := by
  have hdoes := run_action h.placed cmd
  rw [hfiles] at hdoes
  have hsize (i : Fin 20) : (sizeAt (d.read s.mem) i.val).toNat = t.fileSize i.val := by
    rw [← hfiles, toNat_sizeAt]
  -- a command with a target changes its file or panics
  have hcases : ∀ name, cmd.target = some name → cmd.run t = .error .panic t ∨
      ∃ (i : Fin 20) (u : Firmware), fileIndex t.files name = some i.val ∧
        cmd.run t = .ok () u ∧ Patches i t u := by
    intro name hname
    obtain ⟨i, haction, hi⟩ | ⟨e, haction, hne⟩ :=
      @action_target (d.read s.mem) name placed cmd hname
    · rw [haction] at hdoes
      obtain ⟨u, hrun, hstep⟩ := hdoes
      exact .inr ⟨i, u, by rw [hfiles, hi], hrun, hstep⟩
    · rcases hmeant e haction with rfl | rfl
      · exact absurd rfl hne
      · rw [haction] at hdoes
        exact .inl hdoes
  constructor
  · intro name hname
    rcases hcases name hname with hpanics | ⟨i, u, hi, hrun, hstep⟩
    · rw [hpanics]
      exact ⟨.inr rfl, fun _ _ => rfl⟩
    · rw [hrun, nameAddr_eq hi, nameSize_eq hi, ← hsize, ← hfiles]
      exact ⟨.inl ⟨u, rfl⟩, hstep.frame⟩
  · rintro dest src offset size t' rfl hrun
    obtain ⟨-, -, -, -, -, -, hsize8, -⟩ := doPtr_ok hrun
    exact hsize8
  · intro name hname j hj hother a ha
    rcases hcases name hname with hpanics | ⟨i, u, hi, hrun, hstep⟩
    · rw [hpanics]
      rfl
    · rw [hrun]
      have hij : j ≠ i := fun hij => hother (by rw [hi, hij])
      apply hstep.frame
      rw [← hsize] at ha
      rw [hfiles]
      exact h.apart j i hij hj hstep.placed a ha
  · intro name hname a ha
    rcases hcases name hname with hpanics | ⟨i, u, hi, hrun, hstep⟩
    · rw [hpanics]
      exact h.kept ha
    · rw [hrun]
      exact (h.patch hstep hfiles).kept ha

/-- In a run whose plan returns or panics, and whose blocks do not wrap, every
pointer and checksum command panics or writes inside its target: no other file,
not the firmware and not the directory. -/
theorem extractAcpi_contained {d : FileTable} {s : Firmware} (hready : LoaderReady d s)
    (hmeant : (s.loaderPlan d).ending.Meant)
    (hblocks : s.BlocksUsable (s.loaderPlan d).requests) :
    ∀ cmd t, s.AcpiRereads d cmd t → cmd.Contained s t := by
  rintro cmd t ⟨hwhole, hreach⟩
  rw [loaderPlan_of_whole hwhole] at hmeant hblocks
  obtain ⟨placed, new, hstate, hfiles, hstop⟩ := hreach.state hready (loaderState_start hready)
    hmeant ((blocksUsable_congr (loaderStart_heap s d)).mpr hblocks)
  exact hstate.contained hfiles hstop

/-- The pointer command of the script. -/
def patchCmd (offset : BitVec 32) : LoaderCmd :=
  .ptr (padTo 56 (cstring ['T'])) (padTo 56 (cstring ['T'])) offset 4#8

/-- The machine when the pointer command runs. -/
def patchingMachine (offset : Nat) : Firmware :=
  (StateRun.final (doAlloc (padTo 56 (cstring ['T'])) 16#32 1#8
    (((loaderMachine (placeAndPatch offset)).reread loaderTable).loaderStart.reread
      loaderTable))).reread loaderTable

/-- The pointer command is reached once the file is placed. -/
theorem placeAndPatch_reaches {offset : Nat}
    (hscript : ((loaderMachine (placeAndPatch offset)).reread loaderTable).loaderScript =
      [.alloc (padTo 56 (cstring ['T'])) 16#32 1#8, patchCmd (BitVec.ofNat 32 offset)])
    (hindex : fileIndex ((loaderMachine (placeAndPatch offset)).reread loaderTable).files
      tableLoaderName = some 0)
    (hsize : ((loaderMachine (placeAndPatch offset)).reread loaderTable).fileSize 0 = 256)
    (hplace : StateRun.returned (doAlloc (padTo 56 (cstring ['T'])) 16#32 1#8
      (((loaderMachine (placeAndPatch offset)).reread loaderTable).loaderStart.reread
        loaderTable)) = true) :
    (loaderMachine (placeAndPatch offset)).AcpiRereads loaderTable
      (patchCmd (BitVec.ofNat 32 offset)) (patchingMachine offset) := by
  constructor
  · intro i hi
    rw [hindex] at hi
    obtain rfl := Option.some.inj hi
    rw [hsize]
    decide
  · rw [hscript]
    exact .next (by simp) (StateRun.eq_ok_of_returned hplace) (.here (by simp [patchCmd]))

theorem extractAcpi_contained_patch :
    (loaderMachine (placeAndPatch 0)).AcpiRereads loaderTable (patchCmd 0#32) (patchingMachine 0) ∧
      (patchCmd 0#32).Contained (loaderMachine (placeAndPatch 0)) (patchingMachine 0) := by
  have hreach := @placeAndPatch_reaches 0 (by decide +kernel) (by decide +kernel)
    (by decide +kernel) (by decide +kernel)
  exact ⟨hreach, extractAcpi_contained loaderReady_patch (by decide +kernel) (by decide +kernel)
    _ _ hreach⟩

/-- With offset 16 the command changes the first bytes of the firmware. -/
theorem extractAcpi_strays : ¬ ∀ (d : FileTable) (s : Firmware), LoaderReady d s →
    ∀ cmd t, s.AcpiRereads d cmd t → cmd.Contained s t := by
  intro hall
  have hready : LoaderReady loaderTable (loaderMachine (placeAndPatch 16)) :=
    loaderReady_of_bounds (by decide +kernel) (by decide +kernel) (by decide +kernel)
  have hreach := @placeAndPatch_reaches 16 (by decide +kernel) (by decide +kernel)
    (by decide +kernel) (by decide +kernel)
  have hkept := ((hall _ _ hready _ _ hreach).stays (padTo 56 (cstring ['T'])) rfl).2 0xf0000#32
    (by decide +kernel)
  revert hkept
  decide +kernel

end Qboot
