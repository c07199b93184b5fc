import Qboot.Acpi.Checksums

/-!
Pointer commands commute. A run of pointer commands in a script may be
reordered: additions to one field commute as modular additions, additions to
fields that share no byte commute as stores, and a command on a file without
an address panics in every order.

Two machines that differ in their script only differ in the bytes the device
returns for one key. No command that leaves this key alone can tell them
apart.
-/

namespace Qboot

open Bytes ByteMemory

/-! ### Machines that differ in the script -/

/-- The machine whose device holds `bs` under `key`. -/
def Firmware.withEntry (s : Firmware) (key : BitVec 16) (bs : List Byte) : Firmware :=
  { s with dev := { s.dev with entry := Function.update s.dev.entry key bs } }

/-- The key of the script file. -/
def Firmware.scriptKey (s : Firmware) : Option (BitVec 16) :=
  ((fileIndex s.files tableLoaderName).bind fun i => s.files[i]?).map FwCfgFile.select

/-- The machine whose script file holds `bs`. -/
def Firmware.withScript (s : Firmware) (bs : List Byte) : Firmware :=
  match s.scriptKey with
  | some key => s.withEntry key bs
  | none => s

/-- The command places a file that the device keeps under `key`. -/
def LoaderCmd.Loads (files : List FwCfgFile) (key : BitVec 16) (cmd : LoaderCmd) : Prop :=
  ((cmd.allocates files).bind fun i => files[i]?).map FwCfgFile.select = some key

instance (files : List FwCfgFile) (key : BitVec 16) (cmd : LoaderCmd) :
    Decidable (cmd.Loads files key) :=
  inferInstanceAs (Decidable (_ = _))

section Entry

variable {key : BitVec 16} {bs : List Byte}

theorem allocate_withEntry (s : Firmware) (a : Alloc) :
    (s.withEntry key bs).allocate a = (s.allocate a).withEntry key bs := by
  unfold Firmware.allocate
  cases a.zone <;> rfl

theorem fileBytes_withEntry (s : Firmware) {f : FwCfgFile} (h : f.select ≠ key) (n : Nat) :
    (s.withEntry key bs).dev.fileBytes f n = s.dev.fileBytes f n := by
  have hentry : Function.update s.dev.entry key bs f.select = s.dev.entry f.select :=
    Function.update_of_ne h ..
  exact congrArg (fun content => entryBytes content 0 n) hentry

theorem place_withEntry (s : Firmware) (i : Fin 20) {f : FwCfgFile} (h : f.select ≠ key)
    (align : BitVec 32) (zone : Byte) :
    (s.withEntry key bs).place i f align zone = (s.place i f align zone).withEntry key bs := by
  have ha : (s.withEntry key bs).tableAlloc f align zone = s.tableAlloc f align zone := rfl
  dsimp only [Firmware.place]
  rw [fileBytes_withEntry s h, ha, allocate_withEntry]
  rfl

/-- A command that does not load a key cannot tell what is stored under it. -/
theorem run_withEntry {s : Firmware} {cmd : LoaderCmd} (h : ¬ cmd.Loads s.files key) :
    cmd.run (s.withEntry key bs) =
      StateRun.mapState (fun t => t.withEntry key bs) (cmd.run s) := by
  cases cmd with
  | quit => rfl
  | unknown cmd => rfl
  | alloc file align zone =>
    change doAlloc file align zone _ = StateRun.mapState _ (doAlloc file align zone s)
    cases hfound : fileIndex s.files file with
    | none =>
      have hfound' : fileIndex (s.withEntry key bs).files file = none := hfound
      rw [doAlloc_unknown hfound, doAlloc_unknown hfound']
      rfl
    | some i =>
      have hlt := fileIndex_lt hfound
      have hfound' : fileIndex (s.withEntry key bs).files file = some i := hfound
      have hselect : s.files[i].select ≠ key := by
        intro hkey
        apply h
        rw [LoaderCmd.Loads, LoaderCmd.allocates, hfound, Option.bind_some,
          List.getElem?_eq_getElem hlt, Option.map_some, hkey]
      by_cases hroom : i < 20
      · have hplace := @doAlloc_indexed file align zone s ⟨i, hroom⟩ hfound hlt
        have hplace' := @doAlloc_indexed file align zone (s.withEntry key bs) ⟨i, hroom⟩ hfound' hlt
        rw [hplace, hplace']
        exact congrArg (EStateM.Result.ok ()) (place_withEntry s _ hselect align zone)
      · rw [doAlloc_beyond hfound hlt hroom, doAlloc_beyond hfound' hlt hroom]
        exact congrArg (EStateM.Result.error _) (allocate_withEntry s _)
  | ptr dest src offset size =>
    change doPtr dest src offset size _ = StateRun.mapState _ (doPtr dest src offset size s)
    rw [doPtr_eq, doPtr_eq]
    change (if ¬ s.Indexed src then _ else if s.nameAddr src = 0#32 then _ else
      if ¬ s.Indexed dest then _ else if s.nameAddr dest = 0#32 then _ else _) = _
    split_ifs <;> rfl
  | checksum file offset start len =>
    change doChecksum file offset start len _ =
      StateRun.mapState _ (doChecksum file offset start len s)
    rw [doChecksum_eq, doChecksum_eq]
    change (if ¬ s.Indexed file then _ else if s.nameAddr file = 0#32 then _ else
      if ¬ (offset.toNat < s.nameSize file ∧ start.toNat + len.toNat ≤ s.nameSize file) then _
      else _) = _
    split_ifs <;> rfl

/-- A command keeps the directory, whether it returns or stops. -/
theorem run_files (cmd : LoaderCmd) (t : Firmware) :
    (StateRun.final (cmd.run t)).files = t.files ∧
      t.allocs <:+ (StateRun.final (cmd.run t)).allocs := by
  cases cmd with
  | quit => exact ⟨rfl, List.suffix_refl _⟩
  | unknown cmd => exact ⟨rfl, List.suffix_refl _⟩
  | alloc file align zone =>
    change (StateRun.final (doAlloc file align zone t)).files = _ ∧
      _ <:+ (StateRun.final (doAlloc file align zone t)).allocs
    cases hfound : fileIndex t.files file with
    | none =>
      rw [doAlloc_unknown hfound]
      exact ⟨rfl, List.suffix_refl _⟩
    | some i =>
      have hlt := fileIndex_lt hfound
      by_cases hroom : i < 20
      · have hplace := @doAlloc_indexed file align zone t ⟨i, hroom⟩ hfound hlt
        rw [hplace]
        exact ⟨allocate_files _ _, [_], (allocate_allocs _ _).symm⟩
      · rw [doAlloc_beyond hfound hlt hroom]
        exact ⟨allocate_files _ _, [_], (allocate_allocs _ _).symm⟩
  | ptr dest src offset size =>
    change (StateRun.final (doPtr dest src offset size t)).files = _ ∧
      _ <:+ (StateRun.final (doPtr dest src offset size t)).allocs
    rw [doPtr_eq]
    split_ifs <;> exact ⟨rfl, List.suffix_refl _⟩
  | checksum file offset start len =>
    change (StateRun.final (doChecksum file offset start len t)).files = _ ∧
      _ <:+ (StateRun.final (doChecksum file offset start len t)).allocs
    rw [doChecksum_eq]
    split_ifs <;> exact ⟨rfl, List.suffix_refl _⟩

/-- The log of allocations of a whole script, whether it returns or stops. -/
theorem runScript_log (script : List LoaderCmd) (t : Firmware) :
    t.allocs <:+ (StateRun.final (runScript script t)).allocs := by
  induction script generalizing t with
  | nil => exact List.suffix_refl _
  | cons cmd rest ih =>
    by_cases hquit : cmd = .quit
    · subst hquit
      exact List.suffix_refl _
    · rw [runScript_cons hquit, StateRun.bind_apply]
      have hcmd := (run_files cmd t).2
      cases hrun : cmd.run t with
      | ok u t' =>
        rw [hrun] at hcmd
        exact hcmd.trans (ih t')
      | error e t' =>
        rw [hrun] at hcmd
        exact hcmd

/-- A script that never loads a key cannot tell what is stored under it. -/
theorem runScript_withEntry {script : List LoaderCmd} {s : Firmware}
    (h : ∀ cmd ∈ executed script, ¬ cmd.Loads s.files key) :
    runScript script (s.withEntry key bs) =
      StateRun.mapState (fun t => t.withEntry key bs) (runScript script s) := by
  induction script generalizing s with
  | nil => rfl
  | cons cmd rest ih =>
    by_cases hquit : cmd = .quit
    · subst hquit
      rfl
    · rw [executed_cons hquit] at h
      rw [runScript_cons hquit]
      refine StateRun.bind_mapState (f := fun t : Firmware => t.withEntry key bs)
        (run_withEntry (h cmd (by simp))) fun u t hrun => ?_
      have hfiles := (run_files cmd s).1
      rw [hrun] at hfiles
      exact ih fun c hc => by rw [show t.files = s.files from hfiles]; exact h c (by simp [hc])

/-- `extract_acpi` sees the script file only as the list of its commands. -/
theorem extractAcpi_withEntry {s : Firmware} (hwhole : s.ScriptWhole)
    (h : ∀ cmd ∈ executed (s.withEntry key bs).loaderScript, ¬ cmd.Loads s.files key) :
    extractAcpi (s.withEntry key bs) =
      StateRun.mapState (fun t => t.withEntry key bs)
        (runScript (s.withEntry key bs).loaderScript s.loaderStart) := by
  have hwhole' : (s.withEntry key bs).ScriptWhole := hwhole
  have hstart : (s.withEntry key bs).loaderStart = s.loaderStart.withEntry key bs := by
    have hfiles : (s.withEntry key bs).files = s.files := rfl
    unfold Firmware.loaderStart
    rw [hfiles]
    cases (fileIndex s.files tableLoaderName).bind fun i => s.files[i]? with
    | none => rfl
    | some f =>
      by_cases hzero : f.size = 0#32
      · simp only [hzero, if_true]
      · simp only [hzero, if_false]
        rfl
  have hfiles : s.loaderStart.files = s.files := by
    obtain ⟨dev, hdev⟩ := loaderStart_eq s
    rw [hdev]
  rw [extractAcpi_eq hwhole', hstart]
  exact runScript_withEntry (by rwa [hfiles])

end Entry

/-! ### A run of pointer commands -/

/-- A pointer command of 1, 2, 4 or 8 bytes inside its file, on files that the
address table has room for. -/
def LoaderCmd.PtrInBounds (s : Firmware) : LoaderCmd → Prop
  | .ptr dest src offset size => s.Indexed src ∧ s.Indexed dest ∧
      (size = 1#8 ∨ size = 2#8 ∨ size = 4#8 ∨ size = 8#8) ∧
      offset.toNat + size.toNat ≤ s.nameSize dest
  | _ => False

instance (s : Firmware) : (cmd : LoaderCmd) → Decidable (cmd.PtrInBounds s)
  | .ptr _ _ _ _ => inferInstanceAs (Decidable (_ ∧ _ ∧ _ ∧ _))
  | .quit | .alloc _ _ _ | .checksum _ _ _ _ | .unknown _ => inferInstanceAs (Decidable False)

/-- Both files of a pointer command have an address. -/
def LoaderCmd.Placed (s : Firmware) : LoaderCmd → Prop
  | .ptr dest src _ _ => s.nameAddr src ≠ 0#32 ∧ s.nameAddr dest ≠ 0#32
  | _ => False

/-- The fields of two pointer commands are one field or share no byte. -/
def LoaderCmd.FieldsFit (s : Firmware) : LoaderCmd → LoaderCmd → Prop
  | .ptr dest _ offset size, .ptr dest' _ offset' size' =>
      (fileIndex s.files dest = fileIndex s.files dest' ∧ offset = offset' ∧ size = size') ∨
      (fileIndex s.files dest ≠ fileIndex s.files dest' ∨
        offset.toNat + size.toNat ≤ offset'.toNat ∨ offset'.toNat + size'.toNat ≤ offset.toNat)
  | _, _ => False

instance (s : Firmware) : (cmd cmd' : LoaderCmd) → Decidable (cmd.FieldsFit s cmd')
  | .ptr _ _ _ _, .ptr _ _ _ _ => inferInstanceAs (Decidable (_ ∨ _))
  | .ptr _ _ _ _, .quit | .ptr _ _ _ _, .alloc _ _ _ | .ptr _ _ _ _, .checksum _ _ _ _
  | .ptr _ _ _ _, .unknown _ => inferInstanceAs (Decidable False)
  | .quit, _ | .alloc _ _ _, _ | .checksum _ _ _ _, _ | .unknown _, _ =>
    inferInstanceAs (Decidable False)

/-- Memory after a pointer command. -/
def Firmware.addPointer (s : Firmware) (m : Mem) : LoaderCmd → Mem
  | .ptr dest src offset size =>
    addLE m (s.nameAddr dest + offset) size.toNat (s.nameAddr src).toNat
  | _ => m

section Run

variable {s t : Firmware} {cmd cmd' : LoaderCmd} {run run' : List LoaderCmd}

theorem run_placed (hptr : cmd.PtrInBounds t) (hplaced : cmd.Placed t) :
    cmd.run t = .ok () { t with mem := t.addPointer t.mem cmd } := by
  cases cmd with
  | ptr dest src offset size =>
    obtain ⟨hsrc, hdest, hsize, -⟩ := hptr
    have hsize8 : ¬ 8#8 < size := by
      rcases hsize with rfl | rfl | rfl | rfl <;> decide
    change doPtr dest src offset size t = _
    rw [doPtr_eq, if_neg (not_not.mpr hsrc), if_neg hplaced.1, if_neg (not_not.mpr hdest),
      if_neg hplaced.2, if_neg hsize8]
    rfl
  | _ => cases hptr

theorem run_unplaced (hptr : cmd.PtrInBounds t) (hplaced : ¬ cmd.Placed t) :
    cmd.run t = .error .panic t := by
  cases cmd with
  | ptr dest src offset size =>
    obtain ⟨hsrc, hdest, -⟩ := hptr
    change doPtr dest src offset size t = _
    rw [doPtr_eq, if_neg (not_not.mpr hsrc)]
    by_cases hp : t.nameAddr src = 0#32
    · rw [if_pos hp]
    · have hq : t.nameAddr dest = 0#32 := by
        by_contra hq
        exact hplaced ⟨hp, hq⟩
      rw [if_neg hp, if_neg (not_not.mpr hdest), if_pos hq]
  | _ => cases hptr

theorem quit_notMem_run (hptr : ∀ cmd ∈ run, cmd.PtrInBounds t) : ∀ cmd ∈ run, cmd ≠ .quit := by
  rintro cmd hcmd rfl
  exact hptr _ hcmd

/-- A run whose files all have an address adds up in memory. -/
theorem runScript_placed (hptr : ∀ cmd ∈ run, cmd.PtrInBounds t)
    (hplaced : ∀ cmd ∈ run, cmd.Placed t) :
    runScript run t = .ok () { t with mem := run.foldl t.addPointer t.mem } := by
  induction run generalizing t with
  | nil => rfl
  | cons cmd rest ih =>
    have hquit := quit_notMem_run hptr cmd (by simp)
    rw [runScript_cons hquit,
      StateRun.bind_of_ok (run_placed (hptr cmd (by simp)) (hplaced cmd (by simp)))]
    have hrest := @ih { t with mem := t.addPointer t.mem cmd }
      (fun c hc => hptr c (by simp [hc])) fun c hc => hplaced c (by simp [hc])
    rw [hrest]
    rfl

/-- A run with a file that has no address panics. -/
theorem runScript_unplaced (hptr : ∀ cmd ∈ run, cmd.PtrInBounds t)
    (hplaced : ¬ ∀ cmd ∈ run, cmd.Placed t) : ∃ t', runScript run t = .error .panic t' := by
  induction run generalizing t with
  | nil => exact absurd (by simp) hplaced
  | cons cmd rest ih =>
    have hquit := quit_notMem_run hptr cmd (by simp)
    have hcmd := hptr cmd (by simp)
    by_cases hhead : cmd.Placed t
    · rw [runScript_cons hquit, StateRun.bind_of_ok (run_placed hcmd hhead)]
      refine @ih { t with mem := t.addPointer t.mem cmd } (fun c hc => hptr c (by simp [hc])) ?_
      intro hrest
      refine hplaced fun c hc => ?_
      obtain rfl | hc := List.mem_cons.mp hc
      · exact hhead
      · exact hrest c hc
    · rw [runScript_cons hquit, StateRun.bind_of_error (run_unplaced hcmd hhead)]
      exact ⟨t, rfl⟩

/-- Two pointer commands whose fields fit commute. -/
theorem addPointer_comm (h : Blocks s t) (hptr : cmd.PtrInBounds t) (hptr' : cmd'.PtrInBounds t)
    (hplaced : cmd.Placed t) (hplaced' : cmd'.Placed t) (hfit : cmd.FieldsFit t cmd') (m : Mem) :
    t.addPointer (t.addPointer m cmd) cmd' = t.addPointer (t.addPointer m cmd') cmd := by
  cases cmd with
  | ptr dest src offset size =>
    cases cmd' with
    | ptr dest' src' offset' size' =>
      obtain ⟨-, ⟨i, hi⟩, -, hin⟩ := hptr
      obtain ⟨-, ⟨j, hj⟩, -, hin'⟩ := hptr'
      have hsize : size.toNat ≤ 2 ^ 32 := size.isLt.le.trans (by decide)
      have hsize' : size'.toNat ≤ 2 ^ 32 := size'.isLt.le.trans (by decide)
      have hiaddr := nameAddr_eq hi
      have hjaddr := nameAddr_eq hj
      have hine : t.fileAddress i ≠ 0#32 := hiaddr ▸ hplaced.2
      have hjne : t.fileAddress j ≠ 0#32 := hjaddr ▸ hplaced'.2
      rw [nameSize_eq hi, h.fileSize_eq] at hin
      rw [nameSize_eq hj, h.fileSize_eq] at hin'
      have hend := h.block_end hine
      have hend' := h.block_end hjne
      have hpos : t.fileAddress i + offset = t.fileAddress i + BitVec.ofNat 32 offset.toNat := by
        simp
      have hpos' : t.fileAddress j + offset' = t.fileAddress j + BitVec.ofNat 32 offset'.toNat := by
        simp
      simp only [Firmware.addPointer, hiaddr, hjaddr]
      rcases hfit with ⟨hsame, rfl, rfl⟩ | hapart
      · obtain rfl : i = j := by
          rw [hi, hj] at hsame
          exact Fin.ext (Option.some.inj hsame)
        exact addLE_comm_self m _ hsize _ _
      · refine addLE_comm_apart m hsize hsize' ?_ _ _
        rw [hpos, hpos']
        by_cases hij : i = j
        · subst hij
          refine apart_parts _ ?_ (by omega) (by omega)
          rcases hapart with hne | hapart
          · rw [hi, hj] at hne
            exact absurd rfl hne
          · exact hapart
        · exact (((h.apart i j hine hjne hij).part hin (by omega)).symm.part hin' (by omega)).symm
    | _ => cases hptr'
  | _ => cases hptr

end Run

/-! ### Reordered scripts -/

/-- Both runs stop for the same reason, or both return with the same memory,
`file_address` table and `start_info`. -/
inductive SameOutcome :
    EStateM.Result Stop Firmware Unit → EStateM.Result Stop Firmware Unit → Prop where
  | returned {t t' : Firmware} : t.mem = t'.mem → t.fileAddress = t'.fileAddress →
      t.startInfo = t'.startInfo → SameOutcome (.ok () t) (.ok () t')
  | stopped {e : Stop} {t t' : Firmware} : SameOutcome (.error e t) (.error e t')

theorem SameOutcome.refl (r : EStateM.Result Stop Firmware Unit) : SameOutcome r r := by
  cases r with
  | ok u t => exact .returned rfl rfl rfl
  | error e t => exact .stopped

theorem SameOutcome.withEntry {r r' : EStateM.Result Stop Firmware Unit} (h : SameOutcome r r')
    (key : BitVec 16) (bs bs' : List Byte) :
    SameOutcome (StateRun.mapState (fun t => t.withEntry key bs) r)
      (StateRun.mapState (fun t => t.withEntry key bs') r') := by
  cases h with
  | returned hmem haddr hinfo => exact .returned hmem haddr hinfo
  | stopped => exact .stopped

theorem SameOutcome.mem {r r' : EStateM.Result Stop Firmware Unit} (h : SameOutcome r r')
    (hok : StateRun.returned r = true) (p : BitVec 32) :
    (StateRun.final r).mem p = (StateRun.final r').mem p := by
  cases h with
  | returned hmem _ _ => exact congrFun hmem p
  | stopped => cases hok

theorem executed_append {cmds : List LoaderCmd} (hquit : ∀ cmd ∈ cmds, cmd ≠ .quit)
    (rest : List LoaderCmd) : executed (cmds ++ rest) = cmds ++ executed rest :=
  List.takeWhile_append_of_pos fun cmd hcmd => decide_eq_true (hquit cmd hcmd)

/-- What follows a `CMD_QUIT` does not run. -/
theorem executed_append_quit {cmds : List LoaderCmd} (hquit : LoaderCmd.quit ∈ cmds)
    (rest : List LoaderCmd) : executed (cmds ++ rest) = executed cmds := by
  induction cmds with
  | nil => cases hquit
  | cons cmd cmds ih =>
    by_cases hcmd : cmd = .quit
    · subst hcmd
      rw [List.cons_append, executed_quit, executed_quit]
    · have hrest : LoaderCmd.quit ∈ cmds := by
        obtain h | h := List.mem_cons.mp hquit
        · exact absurd h.symm hcmd
        · exact h
      rw [List.cons_append, executed_cons hcmd, executed_cons hcmd, ih hrest]

/-- The second script is the first one with a run of pointer commands
reordered. -/
structure Reordered (s : Firmware) (script script' : List LoaderCmd)
    (before run run' after : List LoaderCmd) : Prop where
  first : script = before ++ (run ++ after)
  second : script' = before ++ (run' ++ after)
  perm : run.Perm run'
  inBounds : ∀ cmd ∈ run, cmd.PtrInBounds s
  fit : ∀ cmd ∈ run, ∀ cmd' ∈ run, cmd.FieldsFit s cmd'

namespace Reordered

variable {s t : Firmware} {script script' before run run' after : List LoaderCmd}

/-- The two scripts execute the same commands up to their order. -/
theorem executed_iff (h : Reordered s script script' before run run' after) {cmd : LoaderCmd} :
    cmd ∈ executed script ↔ cmd ∈ executed script' := by
  have hrun := quit_notMem_run h.inBounds
  have hrun' : ∀ cmd ∈ run', cmd ≠ .quit := fun cmd hcmd => hrun cmd (h.perm.mem_iff.mpr hcmd)
  rw [h.first, h.second]
  by_cases hquit : LoaderCmd.quit ∈ before
  · rw [executed_append_quit hquit, executed_append_quit hquit]
  · have hbefore : ∀ cmd ∈ before, cmd ≠ .quit := fun cmd hcmd e => hquit (e ▸ hcmd)
    rw [executed_append hbefore, executed_append hbefore, executed_append hrun,
      executed_append hrun']
    simp only [List.mem_append, h.perm.mem_iff]

/-- Where the blocks of the files do not meet, both orders of the run do the
same. -/
theorem run_eq (h : Reordered s script script' before run run' after) (hblocks : Blocks s t) :
    SameOutcome ((runScript run >>= fun _ => runScript after) t)
      ((runScript run' >>= fun _ => runScript after) t) := by
  have hptr : ∀ cmd ∈ run, cmd.PtrInBounds t := by
    intro cmd hcmd
    have hin := h.inBounds cmd hcmd
    cases cmd with
    | ptr dest src offset size =>
      simp only [LoaderCmd.PtrInBounds, Firmware.Indexed, Firmware.nameSize, Firmware.fileSize,
        hblocks.files] at hin ⊢
      exact hin
    | _ => cases hin
  have hptr' : ∀ cmd ∈ run', cmd.PtrInBounds t := fun cmd hcmd =>
    hptr cmd (h.perm.mem_iff.mpr hcmd)
  by_cases hplaced : ∀ cmd ∈ run, cmd.Placed t
  · have hplaced' : ∀ cmd ∈ run', cmd.Placed t := fun cmd hcmd =>
      hplaced cmd (h.perm.mem_iff.mpr hcmd)
    have hfold : run.foldl t.addPointer t.mem = run'.foldl t.addPointer t.mem := by
      apply h.perm.foldl_eq'
      intro cmd hcmd cmd' hcmd' m
      refine addPointer_comm hblocks (hptr cmd hcmd) (hptr cmd' hcmd') (hplaced cmd hcmd)
        (hplaced cmd' hcmd') ?_ m
      have hfit := h.fit cmd hcmd cmd' hcmd'
      cases cmd with
      | ptr dest src offset size =>
        cases cmd' with
        | ptr dest' src' offset' size' =>
          simp only [LoaderCmd.FieldsFit, hblocks.files] at hfit ⊢
          exact hfit
        | _ => cases hfit
      | _ => cases hfit
    rw [StateRun.bind_of_ok (runScript_placed hptr hplaced),
      StateRun.bind_of_ok (runScript_placed hptr' hplaced'), hfold]
    exact SameOutcome.refl _
  · have hplaced' : ¬ ∀ cmd ∈ run', cmd.Placed t := fun hall =>
      hplaced fun cmd hcmd => hall cmd (h.perm.mem_iff.mp hcmd)
    obtain ⟨u, hpanic⟩ := runScript_unplaced hptr hplaced
    obtain ⟨u', hpanic'⟩ := runScript_unplaced hptr' hplaced'
    rw [StateRun.bind_of_error hpanic, StateRun.bind_of_error hpanic']
    exact .stopped

/-- Reordered scripts have the same outcome if no allocation wraps. -/
theorem runScript_eq (h : Reordered s script script' before run run' after)
    (hzones : s.mallocTop.toNat ≤ s.fsegBase.toNat) (hblocks : Blocks s t)
    (hwrap : ∀ new, (StateRun.final (runScript script t)).allocs = new ++ t.allocs →
      ∀ a ∈ new, a.NoWrap) :
    SameOutcome (runScript script t) (runScript script' t) := by
  have hrun := quit_notMem_run h.inBounds
  have hrun' : ∀ cmd ∈ run', cmd ≠ .quit := fun cmd hcmd => hrun cmd (h.perm.mem_iff.mpr hcmd)
  rw [h.first] at hwrap ⊢
  rw [h.second]
  by_cases hquit : LoaderCmd.quit ∈ before
  · rw [runScript_executed (before ++ (run ++ after)),
      runScript_executed (before ++ (run' ++ after)), executed_append_quit hquit,
      executed_append_quit hquit]
    exact SameOutcome.refl _
  · have hbefore : ∀ cmd ∈ before, cmd ≠ .quit := fun cmd hcmd e => hquit (e ▸ hcmd)
    rw [runScript_append hbefore, runScript_append hrun] at hwrap ⊢
    rw [runScript_append hbefore, runScript_append hrun']
    cases hfirst : runScript before t with
    | error e u =>
      rw [StateRun.bind_of_error hfirst, StateRun.bind_of_error hfirst]
      exact .stopped
    | ok u t' =>
      rw [StateRun.bind_of_ok hfirst] at hwrap ⊢
      rw [StateRun.bind_of_ok hfirst]
      have hlater : t'.allocs <:+
          (StateRun.final ((runScript run >>= fun _ => runScript after) t')).allocs := by
        rw [← runScript_append hrun]
        exact runScript_log _ t'
      have hwrapFirst := (newAllocs_split (runScript_allocs hfirst) hlater hwrap).1
      exact h.run_eq (runScript_blocks hzones hbefore hblocks hfirst hwrapFirst)

end Reordered

/-- A script file of whole records holds their commands. -/
theorem scriptOf_flatten {rs : List (List Byte)} (h : ∀ r ∈ rs, r.length = loaderCmdBytes) :
    scriptOf rs.flatten = rs.map LoaderCmd.decode := by
  rw [scriptOf, records_flatten (by decide) h]

/-- The 56-byte name field of a file with a short name. -/
def tableName (c : Char) : List Byte := padTo 56 (cstring [c])

def allocRecord (file : List Byte) (align : Nat) (zone : Byte) : List Byte :=
  padTo 128 (toLE 4 1 ++ padTo 56 file ++ toLE 4 align ++ [zone])

/-- Add the address of `C` to the 4 bytes at `offset` of another file. -/
def pointerToC (file : Char) (offset : Nat) : LoaderCmd :=
  .ptr (tableName file) (tableName 'C') (BitVec.ofNat 32 offset) 4#8

def pointerRecord (file : Char) (offset : Nat) : List Byte :=
  padTo 128 (toLE 4 2 ++ tableName file ++ tableName 'C' ++ toLE 4 offset ++ [4#8])

/-- A machine with a script of 7 records and the files `A`, `B` and `C` of 8
bytes. -/
def tablesMachine : Firmware :=
  { Firmware.initial { entry := fun _ => [0#8, 0#8, 8#8], key := 0#16, pos := 0 }
      (fun _ => 0#8) 0xf0000#32 0xf4000#32 with
    files :=
      [{ size := 896#32, select := 0x20#16, name := paddedName tableLoaderName },
       { size := 8#32, select := 0x21#16, name := paddedName (cstring ['A']) },
       { size := 8#32, select := 0x22#16, name := paddedName (cstring ['B']) },
       { size := 8#32, select := 0x23#16, name := paddedName (cstring ['C']) }] }

theorem tablesMachine_loader :
    fileIndex tablesMachine.files tableLoaderName = some 0 ∧
      tablesMachine.scriptKey = some 0x20#16 := by
  decide +kernel

/-- The machine runs the commands of its 7 records. -/
theorem tablesMachine_script {rs : List (List Byte)} (h : ∀ r ∈ rs, r.length = loaderCmdBytes)
    (h7 : rs.length = 7) :
    (tablesMachine.withScript rs.flatten).loaderScript = rs.map LoaderCmd.decode ∧
      extractAcpi (tablesMachine.withScript rs.flatten) =
        runScript (rs.map LoaderCmd.decode) (tablesMachine.withScript rs.flatten).loaderStart := by
  have hentry : tablesMachine.withScript rs.flatten =
      tablesMachine.withEntry 0x20#16 rs.flatten := by
    rw [Firmware.withScript, tablesMachine_loader.2]
  have hindex : fileIndex (tablesMachine.withEntry 0x20#16 rs.flatten).files tableLoaderName =
      some 0 := tablesMachine_loader.1
  have hlen : rs.flatten.length = 896 := by
    rw [length_flatten_records h, h7]
    rfl
  have hall := entryBytes_all rs.flatten
  rw [hlen] at hall
  have hcontent : (tablesMachine.withEntry 0x20#16 rs.flatten).fileContent 0 = rs.flatten := hall
  have hscript : (tablesMachine.withEntry 0x20#16 rs.flatten).loaderScript =
      rs.map LoaderCmd.decode := by
    rw [Firmware.loaderScript, hindex]
    exact (congrArg scriptOf hcontent).trans (scriptOf_flatten h)
  have hwhole : (tablesMachine.withEntry 0x20#16 rs.flatten).ScriptWhole := by
    intro i hi
    rw [hindex] at hi
    obtain rfl : 0 = i := Option.some.inj hi
    exact (by decide : loaderCmdBytes ∣ 896)
  rw [hentry]
  exact ⟨hscript, (extractAcpi_eq hwhole).trans (by rw [hscript])⟩

/-- Five records in front of two pointer commands. -/
def pointerScript (before : List (List Byte)) : List (List Byte) :=
  before ++ [pointerRecord 'A' 0, pointerRecord 'B' 2]

/-- The same with the pointer commands in the other order. -/
def pointerScriptSwapped (before : List (List Byte)) : List (List Byte) :=
  before ++ [pointerRecord 'B' 2, pointerRecord 'A' 0]

theorem decode_pointerRecords :
    LoaderCmd.decode (pointerRecord 'A' 0) = pointerToC 'A' 0 ∧
      LoaderCmd.decode (pointerRecord 'B' 2) = pointerToC 'B' 2 := by
  constructor <;> decide +kernel

section Swap

variable {before : List (List Byte)} {cmds : List LoaderCmd}

theorem pointerScript_runs (h : ∀ r ∈ before, r.length = loaderCmdBytes) (h5 : before.length = 5)
    (hcmds : before.map LoaderCmd.decode = cmds) :
    Reordered tablesMachine
        (tablesMachine.withScript (pointerScript before).flatten).loaderScript
        (tablesMachine.withScript (pointerScriptSwapped before).flatten).loaderScript
        cmds [pointerToC 'A' 0, pointerToC 'B' 2] [pointerToC 'B' 2, pointerToC 'A' 0] [] ∧
      extractAcpi (tablesMachine.withScript (pointerScript before).flatten) =
        runScript (cmds ++ [pointerToC 'A' 0, pointerToC 'B' 2])
          (tablesMachine.withScript (pointerScript before).flatten).loaderStart ∧
      extractAcpi (tablesMachine.withScript (pointerScriptSwapped before).flatten) =
        runScript (cmds ++ [pointerToC 'B' 2, pointerToC 'A' 0])
          (tablesMachine.withScript (pointerScriptSwapped before).flatten).loaderStart := by
  obtain ⟨hA, hB⟩ := decode_pointerRecords
  have hlen : ∀ r ∈ pointerScript before, r.length = loaderCmdBytes := by
    intro r hr
    obtain hr | hr := List.mem_append.mp hr
    · exact h r hr
    · simp only [List.mem_cons, List.not_mem_nil, or_false] at hr
      obtain rfl | rfl := hr <;> exact length_padTo _ _
  have hlen' : ∀ r ∈ pointerScriptSwapped before, r.length = loaderCmdBytes := by
    intro r hr
    obtain hr | hr := List.mem_append.mp hr
    · exact h r hr
    · simp only [List.mem_cons, List.not_mem_nil, or_false] at hr
      obtain rfl | rfl := hr <;> exact length_padTo _ _
  have hdecode : (pointerScript before).map LoaderCmd.decode =
      cmds ++ [pointerToC 'A' 0, pointerToC 'B' 2] := by
    rw [pointerScript, List.map_append, hcmds, List.map_cons, List.map_cons, List.map_nil, hA, hB]
  have hdecode' : (pointerScriptSwapped before).map LoaderCmd.decode =
      cmds ++ [pointerToC 'B' 2, pointerToC 'A' 0] := by
    rw [pointerScriptSwapped, List.map_append, hcmds, List.map_cons, List.map_cons, List.map_nil,
      hA, hB]
  obtain ⟨hfirst, hrun⟩ := tablesMachine_script hlen (by simp [pointerScript, h5])
  obtain ⟨hsecond, hrun'⟩ := tablesMachine_script hlen' (by simp [pointerScriptSwapped, h5])
  rw [hdecode] at hfirst hrun
  rw [hdecode'] at hsecond hrun'
  refine ⟨⟨?_, ?_, .swap _ _ [], by decide +kernel, by decide +kernel⟩, hrun, hrun'⟩
  · rw [hfirst, List.append_nil]
  · rw [hsecond, List.append_nil]

end Swap

/-- `C`, `A` and `B` are placed, `B` three times. -/
def placeTables (align : Nat) (alignB : Nat) (zone : Byte) : List (List Byte) :=
  [allocRecord (tableName 'C') 16 1#8, allocRecord (tableName 'A') align 1#8,
   allocRecord (tableName 'B') alignB zone, allocRecord (tableName 'B') alignB zone,
   allocRecord (tableName 'B') align zone]

/-- The tables and the script itself are placed. -/
def placeScript : List (List Byte) :=
  [allocRecord (tableName 'C') 16 1#8, allocRecord (tableName 'C') 16 1#8,
   allocRecord (tableName 'A') 16 1#8, allocRecord (tableName 'B') 16 1#8,
   allocRecord tableLoaderName 16 1#8]

end Qboot
