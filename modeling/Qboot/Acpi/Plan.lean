import Qboot.Acpi.Bounds
import Qboot.Heap

/-!
What a script asks for. Which blocks a run of the table loader allocates, in
which order, and how it ends are decided by the directory and the script alone,
as long as every pointer command stays in its file.
-/

namespace Qboot

open Bytes ByteMemory

/-- How a part of the boot ends. -/
inductive Ending where
  | returns
  | panics
  /-- At an index that `file_address` does not have. -/
  | indexes
  /-- At a pointer command that does not stay in its file. -/
  | strays
  /-- At data that have no room where they go. -/
  | overruns
deriving DecidableEq

/-- The allocations of a part of the boot, and its end. -/
structure Plan where
  requests : List Request
  ending : Ending
deriving DecidableEq

/-- It ends as the code means it to. -/
def Ending.Meant (e : Ending) : Prop := e = .returns ∨ e = .panics

instance (e : Ending) : Decidable e.Meant := inferInstanceAs (Decidable (_ ∨ _))

/-- What one command does. -/
inductive LoaderAction where
  /-- Places the file of an index in a block of its own. -/
  | place (i : Fin 20) (r : Request)
  /-- Changes the file of an index, or nothing. -/
  | patch (i : Fin 20)
  | stop (e : Ending)
deriving DecidableEq

/-- The file of a name. -/
def fileNamed (files : List FwCfgFile) (name : List Byte) : Option FwCfgFile :=
  (fileIndex files name).bind fun i => files[i]?

/-- Size of the file at position `i` of a directory. -/
def sizeAt (files : List FwCfgFile) (i : Nat) : BitVec 32 :=
  match files[i]? with
  | some f => f.size
  | none => 0#32

/-- The index of a name in `file_address`. -/
def tableIndex (files : List FwCfgFile) (name : List Byte) : Option (Fin 20) :=
  (fileIndex files name).bind fun i => if h : i < 20 then some ⟨i, h⟩ else none

/-- What a command does when the files `placed` have their addresses. -/
def LoaderCmd.action (files : List FwCfgFile) (placed : Fin 20 → Bool) : LoaderCmd → LoaderAction
  | .quit => .stop .returns
  | .unknown _ => .stop .panics
  | .alloc file align zone =>
    match fileIndex files file with
    | none => .stop .panics
    | some i =>
      if h : i < 20 then
        .place ⟨i, h⟩ { zone := zoneOf zone, size := sizeAt files i, align := tableAlign align }
      else .stop .indexes
  | .ptr dest src offset size =>
    match tableIndex files src with
    | none => .stop .indexes
    | some i =>
      if placed i = false then .stop .panics
      else
        match tableIndex files dest with
        | none => .stop .indexes
        | some j =>
          if placed j = false then .stop .panics
          else if size.toNat ≤ 8 ∧ offset.toNat + size.toNat ≤ (sizeAt files j).toNat then .patch j
          else .stop .strays
  | .checksum file offset start len =>
    match tableIndex files file with
    | none => .stop .indexes
    | some i =>
      if placed i = false then .stop .panics
      else if offset.toNat < (sizeAt files i).toNat ∧
          start.toNat + len.toNat ≤ (sizeAt files i).toNat then .patch i
      else .stop .panics

/-- What a script does. -/
def scriptPlan (files : List FwCfgFile) : List LoaderCmd → (Fin 20 → Bool) → Plan
  | [], _ => { requests := [], ending := .returns }
  | cmd :: rest, placed =>
    match cmd.action files placed with
    | .place i r =>
      let later := scriptPlan files rest (Function.update placed i true)
      { requests := r :: later.requests, ending := later.ending }
    | .patch _ => scriptPlan files rest placed
    | .stop e => { requests := [], ending := e }

/-- What `extract_acpi` does with a directory and the entries of a device. -/
def acpiPlan (files : List FwCfgFile) (entry : BitVec 16 → List Byte) : Plan :=
  match fileNamed files tableLoaderName with
  | none => { requests := [], ending := .returns }
  | some f =>
    if loaderCmdBytes ∣ f.size.toNat then
      scriptPlan files (scriptOf (entryBytes (entry f.select) 0 f.size.toNat)) fun _ => false
    else { requests := [], ending := .overruns }

section Action

variable {files : List FwCfgFile} {name : List Byte} {placed : Fin 20 → Bool} {s : Firmware}

theorem tableIndex_eq_some {i : Fin 20} :
    tableIndex files name = some i ↔ fileIndex files name = some i.val := by
  unfold tableIndex
  cases hfound : fileIndex files name with
  | none => simp
  | some j =>
    by_cases hj : j < 20
    · simp [hj, Fin.ext_iff]
    · simp only [Option.bind_some, dif_neg hj, Option.some.injEq, reduceCtorEq, false_iff]
      omega

theorem tableIndex_eq_none : tableIndex s.files name = none ↔ ¬ s.Indexed name := by
  rw [Option.eq_none_iff_forall_ne_some]
  constructor
  · rintro h ⟨i, hi⟩
    exact h i (tableIndex_eq_some.mpr hi)
  · intro h i hi
    exact h ⟨i, tableIndex_eq_some.mp hi⟩

theorem fileNamed_none (h : fileIndex files name = none) : fileNamed files name = none := by
  rw [fileNamed, h]
  rfl

theorem fileNamed_some {i : Nat} (h : fileIndex files name = some i) (hi : i < files.length) :
    fileNamed files name = some files[i] := by
  rw [fileNamed, h]
  exact List.getElem?_eq_getElem hi

theorem sizeAt_lt {i : Nat} (h : i < files.length) : sizeAt files i = files[i].size := by
  rw [sizeAt, List.getElem?_eq_getElem h]

theorem toNat_sizeAt (s : Firmware) (i : Nat) : (sizeAt s.files i).toNat = s.fileSize i := by
  unfold sizeAt Firmware.fileSize
  cases s.files[i]? <;> rfl

theorem nameSize_sizeAt {i : Nat} (h : fileIndex s.files name = some i) :
    s.nameSize name = (sizeAt s.files i).toNat := (nameSize_eq h).trans (toNat_sizeAt s i).symm

/-- The indexes that have addresses. -/
def Firmware.Placed (s : Firmware) (placed : Fin 20 → Bool) : Prop :=
  ∀ i, placed i = true ↔ s.fileAddress i ≠ 0#32

theorem Firmware.Placed.eq_false (h : s.Placed placed) {i : Fin 20} :
    placed i = false ↔ s.fileAddress i = 0#32 := by
  rw [← Bool.not_eq_true, h i, not_not]

/-- A file is placed by an allocation and the read of its bytes. -/
structure Places (i : Fin 20) (r : Request) (s t : Firmware) : Prop where
  size : r.size = sizeAt s.files i.val
  align : 0 < r.align.toNat
  heap : t.heap = (s.allocate (s.request r.zone r.size r.align)).heap
  files : t.files = s.files
  entry : t.dev.entry = s.dev.entry
  address : t.fileAddress =
    Function.update s.fileAddress i (s.request r.zone r.size r.align).base
  frame : ∀ a, ¬ Within (s.request r.zone r.size r.align).base r.size.toNat a → t.mem a = s.mem a

theorem place_places {i : Fin 20} (hlt : i.val < s.files.length) (align : BitVec 32) (zone : Byte) :
    Places i { zone := zoneOf zone, size := sizeAt s.files i.val, align := tableAlign align } s
      (s.place i s.files[i.val] align zone) := by
  have hsize := sizeAt_lt hlt
  refine ⟨rfl, tableAlign_pos align, ?_, ?_, rfl, ?_, fun a ha => ?_⟩
  · rw [hsize]
    rfl
  · exact allocate_files s _
  · rw [hsize]
    rfl
  · rw [hsize] at ha
    exact store_of_not_within s.mem (by rwa [FwCfg.length_fileBytes])

/-- A file that has its address is changed, and only inside its block. -/
structure Patches (i : Fin 20) (s t : Firmware) : Prop where
  placed : s.fileAddress i ≠ 0#32
  only : ∃ m, t = { s with mem := m }
  frame : ∀ a, ¬ Within (s.fileAddress i) (sizeAt s.files i.val).toNat a → t.mem a = s.mem a

/-- A command from the state `s` has the result `x`. -/
def LoaderAction.Does (s : Firmware) (x : EStateM.Result Stop Firmware Unit) : LoaderAction → Prop
  | .place i r => ∃ t, x = .ok () t ∧ Places i r s t
  | .patch i => ∃ t, x = .ok () t ∧ Patches i s t
  | .stop .returns => x = .ok () s
  | .stop .panics => x = .error .panic s
  | .stop .indexes => ∃ t, x = .error (.fault .addressTable) t ∧ t.mem = s.mem
  | .stop .strays => True
  | .stop .overruns => True

theorem doAlloc_does (file : List Byte) (align : BitVec 32) (zone : Byte) :
    ((LoaderCmd.alloc file align zone).action s.files placed).Does s
      (doAlloc file align zone s) := by
  rw [LoaderCmd.action]
  cases hfound : fileIndex s.files file with
  | none => exact doAlloc_unknown hfound
  | some i =>
    have hlt := fileIndex_lt hfound
    by_cases hi : i < 20
    · simp only [dif_pos hi]
      exact ⟨_, doAlloc_indexed (i := ⟨i, hi⟩) hfound hlt,
        place_places (i := ⟨i, hi⟩) hlt align zone⟩
    · simp only [dif_neg hi]
      exact ⟨_, doAlloc_beyond hfound hlt hi, allocate_mem s _⟩

theorem doPtr_does (hplaced : s.Placed placed) (dest src : List Byte) (offset : BitVec 32)
    (size : Byte) : ((LoaderCmd.ptr dest src offset size).action s.files placed).Does s
      (doPtr dest src offset size s) := by
  rw [LoaderCmd.action, doPtr_eq]
  cases hsrc : tableIndex s.files src with
  | none =>
    rw [if_pos (tableIndex_eq_none.mp hsrc)]
    exact ⟨s, rfl, rfl⟩
  | some i =>
    have hi := tableIndex_eq_some.mp hsrc
    rw [if_neg (not_not.mpr ⟨i, hi⟩), nameAddr_eq hi]
    by_cases hp : s.fileAddress i = 0#32
    · simp only [if_pos (hplaced.eq_false.mpr hp), if_pos hp]
      rfl
    · simp only [if_neg (mt hplaced.eq_false.mp hp), if_neg hp]
      cases hdest : tableIndex s.files dest with
      | none =>
        rw [if_pos (tableIndex_eq_none.mp hdest)]
        exact ⟨s, rfl, rfl⟩
      | some j =>
        have hj := tableIndex_eq_some.mp hdest
        rw [if_neg (not_not.mpr ⟨j, hj⟩), nameAddr_eq hj]
        by_cases hq : s.fileAddress j = 0#32
        · simp only [if_pos (hplaced.eq_false.mpr hq), if_pos hq]
          rfl
        · simp only [if_neg (mt hplaced.eq_false.mp hq), if_neg hq]
          by_cases hfield : size.toNat ≤ 8 ∧ offset.toNat + size.toNat ≤ (sizeAt s.files j).toNat
          · have hsize8 : ¬ 8#8 < size := by
              simpa [BitVec.lt_def] using hfield.1
            rw [if_pos hfield, if_neg hsize8]
            refine ⟨_, rfl, hq, ⟨_, rfl⟩, fun a ha => ?_⟩
            exact store_outside_block (by rw [length_toLE]; exact hfield.2) (BitVec.isLt _).le ha
          · rw [if_neg hfield]
            trivial

theorem doChecksum_does (hplaced : s.Placed placed) (file : List Byte)
    (offset start len : BitVec 32) :
    ((LoaderCmd.checksum file offset start len).action s.files placed).Does s
      (doChecksum file offset start len s) := by
  rw [LoaderCmd.action, doChecksum_eq]
  cases hfile : tableIndex s.files file with
  | none =>
    rw [if_pos (tableIndex_eq_none.mp hfile)]
    exact ⟨s, rfl, rfl⟩
  | some i =>
    have hi := tableIndex_eq_some.mp hfile
    rw [if_neg (not_not.mpr ⟨i, hi⟩), nameAddr_eq hi, nameSize_sizeAt hi]
    by_cases hp : s.fileAddress i = 0#32
    · simp only [if_pos (hplaced.eq_false.mpr hp), if_pos hp]
      rfl
    · simp only [if_neg (mt hplaced.eq_false.mp hp), if_neg hp]
      by_cases hrange : offset.toNat < (sizeAt s.files i).toNat ∧
          start.toNat + len.toNat ≤ (sizeAt s.files i).toNat
      · rw [if_pos hrange, if_neg (not_not.mpr hrange)]
        refine ⟨_, rfl, hp, ⟨_, rfl⟩, fun a ha => ?_⟩
        exact store_outside_block (by simpa using hrange.1) (BitVec.isLt _).le ha
      · rw [if_neg hrange, if_pos hrange]
        rfl

/-- Every command does what the directory and the placed files say. -/
theorem run_action (hplaced : s.Placed placed) (cmd : LoaderCmd) :
    (cmd.action s.files placed).Does s (cmd.run s) := by
  cases cmd with
  | quit => rfl
  | unknown _ => rfl
  | alloc file align zone => exact doAlloc_does file align zone
  | ptr dest src offset size => exact doPtr_does hplaced dest src offset size
  | checksum file offset start len => exact doChecksum_does hplaced file offset start len

/-- A command that names a target changes that file, or stops. -/
theorem action_target {cmd : LoaderCmd} (h : cmd.target = some name) :
    (∃ i : Fin 20, cmd.action files placed = .patch i ∧ fileIndex files name = some i.val) ∨
      ∃ e, cmd.action files placed = .stop e ∧ e ≠ .returns := by
  cases cmd with
  | quit => cases h
  | unknown _ => cases h
  | alloc file align zone => cases h
  | ptr dest src offset size =>
    obtain rfl : dest = name := Option.some.inj h
    rw [LoaderCmd.action]
    split
    · exact .inr ⟨_, rfl, by decide⟩
    · split
      · exact .inr ⟨_, rfl, by decide⟩
      · split
        · exact .inr ⟨_, rfl, by decide⟩
        · rename_i j hdest
          split
          · exact .inr ⟨_, rfl, by decide⟩
          · split
            · exact .inl ⟨j, rfl, tableIndex_eq_some.mp hdest⟩
            · exact .inr ⟨_, rfl, by decide⟩
  | checksum file offset start len =>
    obtain rfl : file = name := Option.some.inj h
    rw [LoaderCmd.action]
    split
    · exact .inr ⟨_, rfl, by decide⟩
    · rename_i j hfile
      split
      · exact .inr ⟨_, rfl, by decide⟩
      · split
        · exact .inl ⟨j, rfl, tableIndex_eq_some.mp hfile⟩
        · exact .inr ⟨_, rfl, by decide⟩

/-- Only `CMD_ALLOC` places a file. -/
theorem action_aligned {cmd : LoaderCmd} {i : Fin 20} {r : Request}
    (h : cmd.action files placed = .place i r) : 0 < r.align.toNat := by
  cases htarget : cmd.target with
  | some name =>
    obtain ⟨j, haction, -⟩ | ⟨e, haction, -⟩ := @action_target files name placed cmd htarget
    · rw [haction] at h
      cases h
    · rw [haction] at h
      cases h
  | none =>
    cases cmd with
    | quit => cases h
    | unknown _ => cases h
    | alloc file align zone =>
      rw [LoaderCmd.action] at h
      split at h
      · cases h
      · split at h
        · obtain ⟨-, rfl⟩ := LoaderAction.place.inj h
          exact tableAlign_pos align
        · cases h
    | ptr dest src offset size => cases htarget
    | checksum file offset start len => cases htarget

/-- Only `CMD_QUIT` returns from the loop. -/
theorem action_returns {cmd : LoaderCmd} (h : cmd.action files placed = .stop .returns) :
    cmd = .quit := by
  cases htarget : cmd.target with
  | some name =>
    obtain ⟨i, haction, -⟩ | ⟨e, haction, hne⟩ := @action_target files name placed cmd htarget
    · rw [haction] at h
      cases h
    · rw [haction] at h
      exact absurd (LoaderAction.stop.inj h) hne
  | none =>
    cases cmd with
    | quit => rfl
    | unknown _ => cases h
    | alloc file align zone =>
      rw [LoaderCmd.action] at h
      split at h
      · cases h
      · split at h
        · cases h
        · cases h
    | ptr dest src offset size => cases htarget
    | checksum file offset start len => cases htarget

end Action

end Qboot
