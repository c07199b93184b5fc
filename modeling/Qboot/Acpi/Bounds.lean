import Qboot.Acpi.Refinement

/-!
What the table loader checks and what it does not. A command that is reached
in a run may index the address table with any directory position, and a
pointer command may name a field outside its file. The conditions here say
which commands are harmless, in the state in which they are reached.
-/

namespace Qboot

open Bytes ByteMemory

/-! ### The commands a run reaches -/

/-- In the run of a script from a state, the command is about to run in the
state `t`. -/
inductive Reaches : List LoaderCmd → Firmware → LoaderCmd → Firmware → Prop where
  | here {cmd : LoaderCmd} {rest : List LoaderCmd} {s : Firmware} :
    cmd ≠ .quit → Reaches (cmd :: rest) s cmd s
  | next {cmd later : LoaderCmd} {rest : List LoaderCmd} {s s' t : Firmware} :
    cmd ≠ .quit → cmd.run s = .ok () s' → Reaches rest s' later t →
      Reaches (cmd :: rest) s later t

/-- The script file holds whole commands. -/
def Firmware.ScriptWhole (s : Firmware) : Prop :=
  ∀ i, fileIndex s.files tableLoaderName = some i → loaderCmdBytes ∣ s.fileSize i

/-- The machine when the first command runs. -/
def Firmware.loaderStart (s : Firmware) : Firmware :=
  match (fileIndex s.files tableLoaderName).bind fun i => s.files[i]? with
  | some f => if f.size = 0#32 then s
    else { s with dev := (s.dev.select f.select).skip f.size.toNat }
  | none => s

/-- Only the device has changed when the first command runs. -/
theorem loaderStart_eq (s : Firmware) : ∃ dev, s.loaderStart = { s with dev := dev } := by
  unfold Firmware.loaderStart
  split
  · split
    · exact ⟨s.dev, rfl⟩
    · exact ⟨_, rfl⟩
  · exact ⟨s.dev, rfl⟩

/-- `extract_acpi` reaches the command in the state `t`. -/
def Firmware.AcpiReaches (s : Firmware) (cmd : LoaderCmd) (t : Firmware) : Prop :=
  s.ScriptWhole ∧ Reaches s.loaderScript s.loaderStart cmd t

/-- `extract_acpi`, for any command loop `run`. -/
def withScript (run : List LoaderCmd → Fw Unit) : Fw Unit := do
  let id ← fwCfgFileId tableLoaderName
  let n ← fwCfgFileSize id
  if n = 0#32 then pure ()
  else if n.toNat % loaderCmdBytes ≠ 0 then throw (Stop.fault .stackBuffer)
  else do
    let script ← fwCfgReadFileLocal id n
    run (scriptOf script)

theorem extractAcpi_eq_withScript : extractAcpi = withScript runScript := rfl

theorem withScript_eq {run : List LoaderCmd → Fw Unit} (hnil : run [] = pure ()) {s : Firmware}
    (hwhole : s.ScriptWhole) : withScript run s = run s.loaderScript s.loaderStart := by
  cases hfound : fileIndex s.files tableLoaderName with
  | none =>
    have hscript : s.loaderScript = [] := by rw [Firmware.loaderScript, hfound]
    have hstart : s.loaderStart = s := by rw [Firmware.loaderStart, hfound]; rfl
    rw [withScript, StateRun.bind_of_ok (fwCfgFileId_none hfound),
      StateRun.bind_of_ok (fwCfgFileSize_neg_one s), if_pos rfl, hscript, hstart, hnil]
  | some i =>
    have hlt := fileIndex_lt hfound
    have hfile : (some i).bind (fun i => s.files[i]?) = some s.files[i] :=
      List.getElem?_eq_getElem hlt
    have hscript : s.loaderScript =
        scriptOf (s.dev.fileBytes s.files[i] s.files[i].size.toNat) := by
      rw [Firmware.loaderScript, hfound]
      exact congrArg scriptOf (fileContent_eq hlt)
    have hdvd := hwhole i hfound
    rw [fileSize_eq hlt] at hdvd
    rw [withScript, StateRun.bind_of_ok (fwCfgFileId_some hfound),
      StateRun.bind_of_ok (fwCfgFileSize_lt hlt), hscript, Firmware.loaderStart, hfound, hfile]
    simp only []
    by_cases hzero : s.files[i].size = 0#32
    · have hempty : s.dev.fileBytes s.files[i] (0#32).toNat = [] := rfl
      have hnone : scriptOf [] = [] := rfl
      rw [if_pos hzero, if_pos hzero, hzero, hempty, hnone, hnil]
    · rw [if_neg hzero, if_neg hzero, if_neg (not_not.mpr (Nat.mod_eq_zero_of_dvd hdvd)),
        StateRun.bind_of_ok (fwCfgReadFileLocal_lt _ hlt)]

theorem extractAcpi_eq {s : Firmware} (hwhole : s.ScriptWhole) :
    extractAcpi s = runScript s.loaderScript s.loaderStart := by
  rw [extractAcpi_eq_withScript]
  exact withScript_eq rfl hwhole

/-- A script with a part of a command overruns the script array. -/
theorem withScript_overruns (run : List LoaderCmd → Fw Unit) {s : Firmware}
    (hpart : ¬ s.ScriptWhole) : withScript run s = .error (.fault .stackBuffer) s := by
  unfold Firmware.ScriptWhole at hpart
  push Not at hpart
  obtain ⟨i, hfound, hdvd⟩ := hpart
  have hlt := fileIndex_lt hfound
  rw [fileSize_eq hlt] at hdvd
  have hzero : ¬ s.files[i].size = 0#32 := by
    intro hzero
    rw [hzero] at hdvd
    exact hdvd (dvd_zero _)
  have hmod : s.files[i].size.toNat % loaderCmdBytes ≠ 0 := fun hmod =>
    hdvd (Nat.dvd_of_mod_eq_zero hmod)
  rw [withScript, StateRun.bind_of_ok (fwCfgFileId_some hfound),
    StateRun.bind_of_ok (fwCfgFileSize_lt hlt), if_neg hzero, if_pos hmod]
  rfl

theorem extractAcpi_overruns {s : Firmware} (hpart : ¬ s.ScriptWhole) :
    extractAcpi s = .error (.fault .stackBuffer) s := by
  rw [extractAcpi_eq_withScript]
  exact withScript_overruns runScript hpart

/-! ### Indexes of the address table -/

/-- The name resolves to an entry of the address table. -/
def Firmware.Indexed (s : Firmware) (name : List Byte) : Prop :=
  ∃ i : Fin 20, fileIndex s.files name = some i.val

instance (s : Firmware) (name : List Byte) : Decidable (s.Indexed name) := by
  unfold Firmware.Indexed
  infer_instance

/-- The lookups of a command that are used as indexes stay below 20. A pointer
command looks up its target only if the source has an address. -/
def LoaderCmd.IndexOk (s : Firmware) : LoaderCmd → Prop
  | .alloc file _ _ => ∀ i, fileIndex s.files file = some i → i < 20
  | .ptr dest src _ _ => s.Indexed src ∧ (s.nameAddr src ≠ 0#32 → s.Indexed dest)
  | .checksum file _ _ _ => s.Indexed file
  | .quit => True
  | .unknown _ => True

theorem addrOfName_indexed {name : List Byte} {s : Firmware} (h : s.Indexed name) :
    (fwCfgFileId name >>= idToAddr) s = .ok (s.nameAddr name) s := by
  obtain ⟨i, hi⟩ := h
  exact addrOfName_ok.mpr ⟨i, hi, nameAddr_eq hi, rfl⟩

/-- A name without an index is looked up, but its id is not one of the table. -/
theorem idToAddr_not_indexed {name : List Byte} {s : Firmware} (h : ¬ s.Indexed name) :
    ∃ id, fwCfgFileId name s = .ok id s ∧
      idToAddr id s = .error (.fault .addressTable) s := by
  have hfault {id : Int} (hid : ¬ (0 ≤ id ∧ id.toNat < 20)) :
      idToAddr id s = .error (.fault .addressTable) s := by
    rw [idToAddr, StateRun.bind_of_ok (StateRun.get_apply s), dif_neg hid]
    rfl
  cases hfound : fileIndex s.files name with
  | none => exact ⟨-1, fwCfgFileId_none hfound, hfault (by decide)⟩
  | some j =>
    exact ⟨j, fwCfgFileId_some hfound, hfault fun hj => h ⟨⟨j, hj.2⟩, hfound⟩⟩

theorem addrOfName_not_indexed {name : List Byte} {s : Firmware} (h : ¬ s.Indexed name) :
    (fwCfgFileId name >>= idToAddr) s = .error (.fault .addressTable) s := by
  obtain ⟨id, hid, hfault⟩ := idToAddr_not_indexed h
  rw [StateRun.bind_of_ok hid, hfault]

/-- `start_info.rsdp_paddr` after `do_alloc` has placed `bs` at `addr`. -/
def rsdpAfter (zone : Byte) (bs : List Byte) (addr : BitVec 32) (old : BitVec 64) : BitVec 64 :=
  if zone = ALLOC_FSEG ∧ memcmp bs [0x52, 0x53, 0x44, 0x20, 0x50, 0x54, 0x52, 0x20] = 0 then
    addr.setWidth 64
  else old

theorem saveRsdp_indexed (zone : Byte) (i : Fin 20) (p : BitVec 32) (s : Firmware) :
    saveRsdp zone (i.val : Int) p s = .ok () { s with
      startInfo := { s.startInfo with
        rsdpPaddr :=
          rsdpAfter zone (load s.mem p 8) (s.fileAddress i) s.startInfo.rsdpPaddr } } := by
  have haddr : idToAddr (i.val : Int) s = .ok (s.fileAddress i) s :=
    idToAddr_ok.mpr ⟨i, rfl, rfl, rfl⟩
  unfold saveRsdp rsdpAfter
  by_cases hzone : zone = ALLOC_FSEG
  · rw [if_pos hzone, StateRun.bind_of_ok (peek_apply _ _ _)]
    by_cases hsig : memcmp (load s.mem p 8) [0x52, 0x53, 0x44, 0x20, 0x50, 0x54, 0x52, 0x20] = 0
    · rw [if_pos hsig, if_pos ⟨hzone, hsig⟩, StateRun.bind_of_ok haddr, StateRun.modify_apply]
    · rw [if_neg hsig, if_neg fun h => hsig h.2, StateRun.pure_apply]
  · rw [if_neg hzone, if_neg fun h => hzone h.1, StateRun.pure_apply]

/-- The machine after `do_alloc` has placed the file `f` of directory position `i`. -/
def Firmware.place (s : Firmware) (i : Fin 20) (f : FwCfgFile) (align : BitVec 32) (zone : Byte) :
    Firmware :=
  let a := s.tableAlloc f align zone
  let mem := store s.mem a.base (s.dev.fileBytes f f.size.toNat)
  { s.allocate a with
    mem := mem
    dev := (s.dev.select f.select).skip f.size.toNat
    fileAddress := Function.update s.fileAddress i a.base
    startInfo := { s.startInfo with
      rsdpPaddr := rsdpAfter zone (load mem a.base 8) a.base s.startInfo.rsdpPaddr } }

/-- An allocation command of a file that the table has room for returns. -/
theorem doAlloc_indexed {file : List Byte} {align : BitVec 32} {zone : Byte} {s : Firmware}
    {i : Fin 20} (hi : fileIndex s.files file = some i.val) (hlt : i.val < s.files.length) :
    doAlloc file align zone s = .ok () (s.place i s.files[i.val] align zone) := by
  have hne : ¬ (i.val : Int) = -1 := by omega
  let a := s.request (zoneOf zone) s.files[i.val].size (tableAlign align)
  have hset : setFileAddr (i.val : Int) a.base (s.allocate a) = .ok ()
      { s.allocate a with fileAddress := Function.update (s.allocate a).fileAddress i a.base } :=
    setFileAddr_ok.mpr ⟨i, rfl, rfl⟩
  rw [doAlloc, StateRun.bind_of_ok (fwCfgFileId_some hi),
    StateRun.bind_of_ok (fwCfgFileSize_lt hlt), StateRun.bind_of_ok (panicIf_of_not hne s),
    StateRun.bind_of_ok (mallocIn_apply _ _ _ s), StateRun.bind_of_ok hset,
    StateRun.bind_of_ok (fwCfgReadFile_lt _ _ (by simpa using hlt)), saveRsdp_indexed]
  simp [Firmware.place, Firmware.tableAlloc, a]

/-- A file beyond the table is allocated, but its address cannot be kept. -/
theorem doAlloc_beyond {file : List Byte} {align : BitVec 32} {zone : Byte} {s : Firmware} {i : Nat}
    (hi : fileIndex s.files file = some i) (hlt : i < s.files.length) (hbeyond : ¬ i < 20) :
    doAlloc file align zone s =
      .error (.fault .addressTable) (s.allocate (s.tableAlloc s.files[i] align zone)) := by
  have hne : ¬ (i : Int) = -1 := by omega
  have hrange : ¬ (0 ≤ (i : Int) ∧ (i : Int).toNat < 20) := fun h => hbeyond h.2
  let a := s.request (zoneOf zone) s.files[i].size (tableAlign align)
  have hset : setFileAddr (i : Int) a.base (s.allocate a) =
      .error (.fault .addressTable) (s.allocate a) := by
    rw [setFileAddr, StateRun.bind_of_ok (StateRun.get_apply _), dif_neg hrange]
    rfl
  rw [doAlloc, StateRun.bind_of_ok (fwCfgFileId_some hi),
    StateRun.bind_of_ok (fwCfgFileSize_lt hlt), StateRun.bind_of_ok (panicIf_of_not hne s),
    StateRun.bind_of_ok (mallocIn_apply _ _ _ s), StateRun.bind_of_error hset]
  rfl

/-- An allocation command of a file that does not exist panics. -/
theorem doAlloc_unknown {file : List Byte} {align : BitVec 32} {zone : Byte} {s : Firmware}
    (hi : fileIndex s.files file = none) : doAlloc file align zone s = .error .panic s := by
  rw [doAlloc, StateRun.bind_of_ok (fwCfgFileId_none hi),
    StateRun.bind_of_ok (fwCfgFileSize_neg_one s), StateRun.bind_of_error (panicIf_of rfl s)]

/-- Size of a named file, zero for a file the directory does not have. -/
def Firmware.nameSize (s : Firmware) (name : List Byte) : Nat :=
  match fileIndex s.files name with
  | some i => s.fileSize i
  | none => 0

/-- All that a pointer command can do. -/
theorem doPtr_eq (dest src : List Byte) (offset : BitVec 32) (size : Byte) (s : Firmware) :
    doPtr dest src offset size s =
      if ¬ s.Indexed src then .error (.fault .addressTable) s
      else if s.nameAddr src = 0#32 then .error .panic s
      else if ¬ s.Indexed dest then .error (.fault .addressTable) s
      else if s.nameAddr dest = 0#32 then .error .panic s
      else if 8#8 < size then .error (.fault .stackBuffer) s
      else .ok () { s with
        mem := store s.mem (s.nameAddr dest + offset)
          (toLE size.toNat (loadLE s.mem (s.nameAddr dest + offset) size.toNat +
            (s.nameAddr src).toNat)) } := by
  rw [doPtr, ← bind_assoc]
  by_cases hsrc : s.Indexed src
  · rw [if_neg (not_not.mpr hsrc), StateRun.bind_of_ok (addrOfName_indexed hsrc)]
    by_cases hp : s.nameAddr src = 0#32
    · rw [if_pos hp, StateRun.bind_of_error (panicIf_of hp s)]
    · rw [if_neg hp, StateRun.bind_of_ok (panicIf_of_not hp s), ← bind_assoc]
      by_cases hdest : s.Indexed dest
      · rw [if_neg (not_not.mpr hdest), StateRun.bind_of_ok (addrOfName_indexed hdest)]
        by_cases hq : s.nameAddr dest = 0#32
        · rw [if_pos hq, StateRun.bind_of_error (panicIf_of hq s)]
        · rw [if_neg hq, StateRun.bind_of_ok (panicIf_of_not hq s)]
          by_cases hsize : 8#8 < size
          · rw [if_pos hsize, if_pos hsize]
            rfl
          · have hsize8 : size.toNat ≤ 8 := by
              simpa [BitVec.lt_def] using hsize
            have hsum : (BitVec.ofNat 64
                (ofLE (load s.mem (s.nameAddr dest + offset) size.toNat)) +
                (s.nameAddr src).setWidth 64).toNat =
                (loadLE s.mem (s.nameAddr dest + offset) size.toNat +
                  (s.nameAddr src).toNat) % 256 ^ 8 := by
              simp [loadLE]
            rw [if_neg hsize, if_neg hsize, StateRun.bind_of_ok (peek_apply _ _ _), poke_apply,
              hsum, toLE_mod_of_le hsize8]
      · rw [if_pos hdest, StateRun.bind_of_error (addrOfName_not_indexed hdest)]
  · rw [if_pos hsrc, StateRun.bind_of_error (addrOfName_not_indexed hsrc)]

/-- All that a checksum command can do: its guard is the range check in
unbounded arithmetic. -/
theorem doChecksum_eq (file : List Byte) (offset start len : BitVec 32) (s : Firmware) :
    doChecksum file offset start len s =
      if ¬ s.Indexed file then .error (.fault .addressTable) s
      else if s.nameAddr file = 0#32 then .error .panic s
      else if ¬ (offset.toNat < s.nameSize file ∧ start.toNat + len.toNat ≤ s.nameSize file) then
        .error .panic s
      else .ok () { s with
        mem := store s.mem (s.nameAddr file + offset)
          [s.mem (s.nameAddr file + offset) -
            (load s.mem (s.nameAddr file + start) len.toNat).sum] } := by
  rw [doChecksum]
  by_cases hfile : s.Indexed file
  · obtain ⟨i, hi⟩ := hfile
    have hlt := fileIndex_lt hi
    have haddr : idToAddr (i.val : Int) s = .ok (s.fileAddress i) s :=
      idToAddr_ok.mpr ⟨i, rfl, rfl, rfl⟩
    have hsize : s.nameSize file = s.files[i.val].size.toNat := by
      rw [Firmware.nameSize, hi]
      exact fileSize_eq hlt
    rw [if_neg (not_not.mpr ⟨i, hi⟩), StateRun.bind_of_ok (fwCfgFileId_some hi),
      StateRun.bind_of_ok haddr, nameAddr_eq hi, hsize]
    by_cases hp : s.fileAddress i = 0#32
    · rw [if_pos hp, StateRun.bind_of_error (panicIf_of hp s)]
    · rw [if_neg hp, StateRun.bind_of_ok (panicIf_of_not hp s),
        StateRun.bind_of_ok (fwCfgFileSize_lt hlt)]
      have hguard : (offset ≥ s.files[i.val].size ∨ s.files[i.val].size < start ∨
          len > s.files[i.val].size - start) ↔
          ¬ (offset.toNat < s.files[i.val].size.toNat ∧
            start.toNat + len.toNat ≤ s.files[i.val].size.toNat) := by
        have hlen := s.files[i.val].size.isLt
        simp only [ge_iff_le, gt_iff_lt, BitVec.le_def, BitVec.lt_def]
        rcases Nat.lt_or_ge s.files[i.val].size.toNat start.toNat with hstart | hstart
        · omega
        · have hsub : (s.files[i.val].size - start).toNat =
              s.files[i.val].size.toNat - start.toNat := BitVec.toNat_sub_of_le hstart
          omega
      by_cases hrange : offset.toNat < s.files[i.val].size.toNat ∧
          start.toNat + len.toNat ≤ s.files[i.val].size.toNat
      · rw [if_neg (not_not.mpr hrange),
          StateRun.bind_of_ok (panicIf_of_not (mt hguard.mp (not_not.mpr hrange)) s),
          StateRun.bind_of_ok (StateRun.get_apply _), poke_apply, csum8_eq_sum]
      · rw [if_pos hrange, StateRun.bind_of_error (panicIf_of (hguard.mpr hrange) s)]
  · obtain ⟨id, hid, hfault⟩ := idToAddr_not_indexed hfile
    rw [if_pos hfile, StateRun.bind_of_ok hid, StateRun.bind_of_error hfault]

/-- A command indexes the table out of range exactly when a lookup it uses
fails or finds a file beyond the table. -/
theorem run_addressTable (cmd : LoaderCmd) (s : Firmware) :
    (∃ s', cmd.run s = .error (.fault .addressTable) s') ↔ ¬ cmd.IndexOk s := by
  cases cmd with
  | quit =>
    constructor
    · rintro ⟨s', h⟩
      cases h
    · intro h
      exact absurd trivial h
  | unknown cmd =>
    constructor
    · rintro ⟨s', h⟩
      cases h
    · intro h
      exact absurd trivial h
  | alloc file align zone =>
    change (∃ s', doAlloc file align zone s = _) ↔ ¬ ∀ i, fileIndex s.files file = some i → i < 20
    constructor
    · rintro ⟨s', hrun⟩ hok
      cases hfound : fileIndex s.files file with
      | none =>
        rw [doAlloc_unknown hfound] at hrun
        cases hrun
      | some i =>
        have hdone := @doAlloc_indexed file align zone s ⟨i, hok i hfound⟩ hfound
          (fileIndex_lt hfound)
        rw [hdone] at hrun
        cases hrun
    · intro hbad
      push Not at hbad
      obtain ⟨i, hfound, hbeyond⟩ := hbad
      exact ⟨_, doAlloc_beyond hfound (fileIndex_lt hfound) (by omega)⟩
  | ptr dest src offset size =>
    change (∃ s', doPtr dest src offset size s = _) ↔
      ¬ (s.Indexed src ∧ (s.nameAddr src ≠ 0#32 → s.Indexed dest))
    rw [doPtr_eq]
    by_cases hsrc : s.Indexed src
    · by_cases hp : s.nameAddr src = 0#32
      · simp [hsrc, hp]
      · by_cases hdest : s.Indexed dest
        · rw [if_neg (not_not.mpr hsrc), if_neg hp, if_neg (not_not.mpr hdest)]
          refine ⟨fun h => ?_, fun h => absurd ⟨hsrc, fun _ => hdest⟩ h⟩
          obtain ⟨s', h⟩ := h
          split at h
          · cases h
          · split at h
            · cases h
            · cases h
        · simp [hsrc, hp, hdest]
    · simp [hsrc]
  | checksum file offset start len =>
    change (∃ s', doChecksum file offset start len s = _) ↔ ¬ s.Indexed file
    rw [doChecksum_eq]
    by_cases hfile : s.Indexed file
    · rw [if_neg (not_not.mpr hfile)]
      refine ⟨fun h => ?_, fun h => absurd hfile h⟩
      obtain ⟨s', h⟩ := h
      split at h
      · cases h
      · split at h
        · cases h
        · cases h
    · simp [hfile]

/-! ### Writes outside a file -/

/-- The file a command changes. -/
def LoaderCmd.target : LoaderCmd → Option (List Byte)
  | .ptr dest _ _ _ => some dest
  | .checksum file _ _ _ => some file
  | _ => none

/-- A pointer field has at most 8 bytes, all of them in its file. -/
def LoaderCmd.Inside (s : Firmware) : LoaderCmd → Prop
  | .ptr dest _ offset size => size.toNat ≤ 8 ∧ offset.toNat + size.toNat ≤ s.nameSize dest
  | _ => True

/-- A pointer or checksum command returns or panics, and every byte it changes
lies in the block of the file it names. -/
def LoaderCmd.StaysInTarget (s : Firmware) (cmd : LoaderCmd) : Prop :=
  ∀ name, cmd.target = some name →
    ((∃ s', cmd.run s = .ok () s') ∨ cmd.run s = .error .panic s) ∧
    ∀ a, ¬ Within (s.nameAddr name) (s.nameSize name) a →
      (StateRun.final (cmd.run s)).mem a = s.mem a

theorem nameSize_le (s : Firmware) (name : List Byte) : s.nameSize name ≤ 2 ^ 32 := by
  unfold Firmware.nameSize Firmware.fileSize
  cases fileIndex s.files name with
  | none => exact Nat.zero_le _
  | some i =>
    cases h : s.files[i]? with
    | none => simp [h]
    | some f =>
      simp only [h]
      exact f.size.isLt.le

/-- A store inside a block leaves everything outside the block. -/
theorem store_outside_block {m : Mem} {p offset a : BitVec 32} {bs : List Byte} {n : Nat}
    (h : offset.toNat + bs.length ≤ n) (hn : n ≤ 2 ^ 32) (ha : ¬ Within p n a) :
    store m (p + offset) bs a = m a := by
  have hpos : p + offset = p + BitVec.ofNat 32 offset.toNat := by simp
  refine store_of_not_within m fun hin => ha ?_
  rw [hpos] at hin
  have hlen : 0 < bs.length := by
    unfold Within at hin
    omega
  have hshift := (within_shift (by omega) hlen).mp hin
  unfold Within
  omega

/-- A command whose lookups succeed and whose field lies in its file stays in
its target. -/
theorem staysInTarget {cmd : LoaderCmd} {s : Firmware} (hindex : cmd.IndexOk s)
    (hinside : cmd.Inside s) : cmd.StaysInTarget s := by
  intro name htarget
  cases cmd with
  | quit => cases htarget
  | unknown cmd => cases htarget
  | alloc file align zone => cases htarget
  | ptr dest src offset size =>
    obtain rfl : dest = name := Option.some.inj htarget
    obtain ⟨hsrc, hdest⟩ := hindex
    obtain ⟨hsize, hfield⟩ := hinside
    change ((∃ s', doPtr dest src offset size s = _) ∨ doPtr dest src offset size s = _) ∧
      ∀ a, _ → (StateRun.final (doPtr dest src offset size s)).mem a = _
    rw [doPtr_eq, if_neg (not_not.mpr hsrc)]
    by_cases hp : s.nameAddr src = 0#32
    · rw [if_pos hp]
      exact ⟨Or.inr rfl, fun _ _ => rfl⟩
    · rw [if_neg hp, if_neg (not_not.mpr (hdest hp))]
      by_cases hq : s.nameAddr dest = 0#32
      · rw [if_pos hq]
        exact ⟨Or.inr rfl, fun _ _ => rfl⟩
      · have hsize8 : ¬ 8#8 < size := by
          simpa [BitVec.lt_def] using hsize
        rw [if_neg hq, if_neg hsize8]
        refine ⟨Or.inl ⟨_, rfl⟩, fun a ha => ?_⟩
        exact store_outside_block (by rwa [length_toLE]) (nameSize_le s dest) ha
  | checksum file offset start len =>
    obtain rfl : file = name := Option.some.inj htarget
    change ((∃ s', doChecksum file offset start len s = _) ∨
        doChecksum file offset start len s = _) ∧
      ∀ a, _ → (StateRun.final (doChecksum file offset start len s)).mem a = _
    have hfile : s.Indexed file := hindex
    rw [doChecksum_eq, if_neg (not_not.mpr hfile)]
    by_cases hp : s.nameAddr file = 0#32
    · rw [if_pos hp]
      exact ⟨Or.inr rfl, fun _ _ => rfl⟩
    · rw [if_neg hp]
      by_cases hrange : offset.toNat < s.nameSize file ∧
          start.toNat + len.toNat ≤ s.nameSize file
      · rw [if_neg (not_not.mpr hrange)]
        refine ⟨Or.inl ⟨_, rfl⟩, fun a ha => ?_⟩
        exact store_outside_block (by simpa using hrange.1) (nameSize_le s file) ha
      · rw [if_pos hrange]
        exact ⟨Or.inr rfl, fun _ _ => rfl⟩

/-- State `t` of a run that started in `s`: every address of a file is a block
allocated in the run, and memory outside these blocks is what it was. -/
structure OwnsBlocks (s t : Firmware) (new : List Alloc) : Prop where
  files : t.files = s.files
  allocs : t.allocs = new ++ s.allocs
  block : ∀ i, t.fileAddress i ≠ 0#32 →
    ∃ b ∈ new, b.base = t.fileAddress i ∧ b.size.toNat = s.fileSize i
  frame : ∀ a, (∀ b ∈ new, ¬ Within b.base b.size.toNat a) → t.mem a = s.mem a

theorem nameSize_eq {s : Firmware} {name : List Byte} {i : Nat}
    (h : fileIndex s.files name = some i) : s.nameSize name = s.fileSize i := by
  rw [Firmware.nameSize, h]

namespace OwnsBlocks

variable {s t t' : Firmware} {new : List Alloc}

theorem start (hfresh : ∀ i, s.fileAddress i = 0#32) : OwnsBlocks s s.loaderStart [] := by
  obtain ⟨dev, hstart⟩ := loaderStart_eq s
  rw [hstart]
  exact ⟨rfl, rfl, fun i hi => absurd (hfresh i) hi, fun _ _ => rfl⟩

/-- Outside all blocks means outside the block of any named file. -/
theorem outside (h : OwnsBlocks s t new) {name : List Byte} (hname : t.Indexed name)
    (haddr : t.nameAddr name ≠ 0#32) {a : BitVec 32}
    (ha : ∀ b ∈ new, ¬ Within b.base b.size.toNat a) :
    ¬ Within (t.nameAddr name) (t.nameSize name) a := by
  obtain ⟨i, hi⟩ := hname
  rw [nameAddr_eq hi] at haddr ⊢
  obtain ⟨b, hb, hbase, hsize⟩ := h.block i haddr
  have hout := ha b hb
  rw [nameSize_eq hi, Firmware.fileSize, h.files]
  rwa [hbase, hsize] at hout

/-- One command that stays in its target keeps the blocks the only memory
that changes. -/
theorem step (h : OwnsBlocks s t new) {cmd : LoaderCmd} (hrun : cmd.run t = .ok () t')
    (hindex : cmd.IndexOk t) (hinside : cmd.Inside t) :
    ∃ new', OwnsBlocks s t' new' := by
  have hstays := staysInTarget hindex hinside
  cases cmd with
  | quit =>
    obtain rfl : t = t' := by simpa [LoaderCmd.run] using hrun
    exact ⟨new, h⟩
  | unknown cmd => cases hrun
  | alloc file align zone =>
    obtain ⟨i, hlt, rsdp, hi, rfl⟩ := doAlloc_ok hrun
    have hsize : t.files[i.val].size.toNat = s.fileSize i := by
      rw [← fileSize_eq hlt, Firmware.fileSize, h.files, Firmware.fileSize]
    have hblock : (t.tableAlloc t.files[i.val] align zone).size = t.files[i.val].size := by
      unfold Firmware.tableAlloc
      cases zoneOf zone <;> rfl
    refine ⟨t.tableAlloc t.files[i.val] align zone :: new, ?_, ?_, ?_, ?_⟩
    · simpa using h.files
    · simp [h.allocs]
    · intro j hj
      by_cases hij : j = i
      · subst hij
        have hself := Function.update_self j (t.tableAlloc t.files[j.val] align zone).base
          t.fileAddress
        exact ⟨_, List.mem_cons_self .., hself.symm, by rw [hblock, hsize]⟩
      · have hsame := Function.update_of_ne hij
          (t.tableAlloc t.files[i.val] align zone).base t.fileAddress
        change Function.update t.fileAddress i _ j ≠ 0#32 at hj
        rw [hsame] at hj
        obtain ⟨b, hb, hbase, hbsize⟩ := h.block j hj
        exact ⟨b, List.mem_cons_of_mem _ hb, hbase.trans hsame.symm, hbsize⟩
    · intro a ha
      have hout := ha _ (List.mem_cons_self ..)
      rw [hblock] at hout
      rw [← h.frame a fun b hb => ha b (List.mem_cons_of_mem _ hb)]
      exact store_of_not_within t.mem (by rwa [FwCfg.length_fileBytes])
  | ptr dest src offset size =>
    obtain ⟨i, j, hi, hj, hine, hjne, hsize, rfl⟩ := doPtr_ok hrun
    refine ⟨new, h.files, h.allocs, h.block, fun a ha => ?_⟩
    rw [← h.frame a ha]
    have hkept := (hstays dest rfl).2 a (h.outside ⟨j, hj⟩ (by rwa [nameAddr_eq hj]) ha)
    rwa [hrun] at hkept
  | checksum file offset start len =>
    obtain ⟨i, hlt, hi, hne, hoff, hlen, rfl⟩ := doChecksum_ok hrun
    refine ⟨new, h.files, h.allocs, h.block, fun a ha => ?_⟩
    rw [← h.frame a ha]
    have hkept := (hstays file rfl).2 a (h.outside ⟨i, hi⟩ (by rwa [nameAddr_eq hi]) ha)
    rwa [hrun] at hkept

end OwnsBlocks

end Qboot
