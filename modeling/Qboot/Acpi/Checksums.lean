import Qboot.Acpi.Bounds

/-!
A checksum that a script fixes stays fixed. Blocks of different files never
meet, even if a script places a file again, so only a command on the file
itself can change the bytes of a range.
-/

namespace Qboot

open Bytes ByteMemory

/-- State `t` of a run that started in `s`: the blocks of the files that have
an address lie on one of the two sides of the unallocated memory and do not
meet. -/
structure Blocks (s t : Firmware) : Prop where
  files : t.files = s.files
  top : t.mallocTop.toNat ≤ s.mallocTop.toNat
  base : s.fsegBase.toNat ≤ t.fsegBase.toNat
  block : ∀ i, t.fileAddress i ≠ 0#32 →
    (t.mallocTop.toNat ≤ (t.fileAddress i).toNat ∧
      (t.fileAddress i).toNat + s.fileSize i ≤ s.mallocTop.toNat) ∨
    (s.fsegBase.toNat ≤ (t.fileAddress i).toNat ∧
      (t.fileAddress i).toNat + s.fileSize i ≤ t.fsegBase.toNat)
  apart : ∀ i j, t.fileAddress i ≠ 0#32 → t.fileAddress j ≠ 0#32 → i ≠ j →
    Apart (t.fileAddress i) (s.fileSize i) (t.fileAddress j) (s.fileSize j)

namespace Blocks

variable {s t t' : Firmware}

theorem start (hfresh : ∀ i, s.fileAddress i = 0#32) {dev : FwCfg} :
    Blocks s { s with dev := dev } :=
  ⟨rfl, le_rfl, le_rfl, fun i hi => absurd (hfresh i) hi, fun i _ hi => absurd (hfresh i) hi⟩

theorem block_end (h : Blocks s t) {i : Fin 20} (hi : t.fileAddress i ≠ 0#32) :
    (t.fileAddress i).toNat + s.fileSize i ≤ 2 ^ 32 := by
  have htop := s.mallocTop.isLt
  have hbase := t.fsegBase.isLt
  rcases h.block i hi with ⟨-, hend⟩ | ⟨-, hend⟩ <;> omega

/-- A new block is apart from every block there is. -/
theorem new_apart (h : Blocks s t) (hzones : s.mallocTop.toNat ≤ s.fsegBase.toNat) {zone : Zone}
    {n align : BitVec 32} (ha : 0 < align.toNat) (hwrap : (t.request zone n align).NoWrap)
    {j : Fin 20} (hj : t.fileAddress j ≠ 0#32) :
    Apart (t.request zone n align).base n.toNat (t.fileAddress j) (s.fileSize j) := by
  have hcases := allocate_cases ha hwrap
  have htop := h.top
  have hbase := h.base
  have hblock := h.block j hj
  have hjend := h.block_end hj
  have htLt := (t.allocate (t.request zone n align)).fsegBase.isLt
  have hsLt := s.mallocTop.isLt
  rcases hcases with ⟨hend, -, -⟩ | ⟨hstart, hend, -⟩
  · refine apart_of_le ?_ hjend
    rcases hblock with ⟨hlo, -⟩ | ⟨hlo, -⟩ <;> omega
  · refine (apart_of_le ?_ (by omega)).symm
    rcases hblock with ⟨-, hhi⟩ | ⟨-, hhi⟩ <;> omega

/-- Placing a file, for the first time or again. -/
theorem place (h : Blocks s t) (hzones : s.mallocTop.toNat ≤ s.fsegBase.toNat) {i : Fin 20}
    {zone : Zone} {n align : BitVec 32} (ha : 0 < align.toNat)
    (hwrap : (t.request zone n align).NoWrap) (hn : n.toNat = s.fileSize i)
    (hfiles : t'.files = t.files)
    (htop : t'.mallocTop = (t.allocate (t.request zone n align)).mallocTop)
    (hbase : t'.fsegBase = (t.allocate (t.request zone n align)).fsegBase)
    (haddr : t'.fileAddress =
      Function.update t.fileAddress i (t.request zone n align).base) :
    Blocks s t' := by
  have hcases := allocate_cases ha hwrap
  have hstop := h.top
  have hsbase := h.base
  have hnew (j : Fin 20) (hj : t.fileAddress j ≠ 0#32) :=
    h.new_apart hzones ha hwrap hj
  have hself : t'.fileAddress i = (t.request zone n align).base := by
    rw [haddr, Function.update_self]
  have hother {j : Fin 20} (hij : j ≠ i) : t'.fileAddress j = t.fileAddress j := by
    rw [haddr, Function.update_of_ne hij]
  refine ⟨hfiles.trans h.files, ?_, ?_, ?_, ?_⟩
  · rw [htop]
    rcases hcases with ⟨hend, hmt, -⟩ | ⟨-, -, hmt⟩ <;> rw [hmt] <;> omega
  · rw [hbase]
    rcases hcases with ⟨-, -, hfb⟩ | ⟨hstart, hend, -⟩
    · rw [hfb]
      exact hsbase
    · omega
  · intro j hj
    rw [htop, hbase]
    by_cases hij : j = i
    · subst hij
      rw [hself, ← hn]
      rcases hcases with ⟨hend, hmt, -⟩ | ⟨hstart, hend, -⟩
      · left
        rw [hmt]
        omega
      · right
        omega
    · rw [hother hij] at hj ⊢
      have hblock := h.block j hj
      rcases hcases with ⟨hend, hmt, hfb⟩ | ⟨hstart, hend, hmt⟩
      · rw [hmt, hfb]
        omega
      · rw [hmt]
        omega
  · intro j k hj hk hjk
    by_cases hji : j = i
    · subst hji
      have hki : k ≠ j := fun e => hjk e.symm
      rw [hself, hother hki, ← hn]
      exact hnew k (by rwa [hother hki] at hk)
    · by_cases hki : k = i
      · subst hki
        rw [hself, hother hji, ← hn]
        exact (hnew j (by rwa [hother hji] at hj)).symm
      · rw [hother hji] at hj ⊢
        rw [hother hki] at hk ⊢
        exact h.apart j k hj hk hjk

theorem fileSize_eq (h : Blocks s t) (i : Nat) : t.fileSize i = s.fileSize i := by
  rw [Firmware.fileSize, h.files, Firmware.fileSize]

/-- Every command that returns keeps the blocks apart. -/
theorem step (h : Blocks s t) (hzones : s.mallocTop.toNat ≤ s.fsegBase.toNat) {cmd : LoaderCmd}
    (hrun : cmd.run t = .ok () t')
    (hwrap : ∀ new, t'.allocs = new ++ t.allocs → ∀ a ∈ new, a.NoWrap) : Blocks s t' := by
  cases cmd with
  | quit =>
    obtain rfl : t = t' := by simpa [LoaderCmd.run] using hrun
    exact h
  | unknown cmd => cases hrun
  | alloc file align zone =>
    obtain ⟨i, hlt, rsdp, -, rfl⟩ := doAlloc_ok hrun
    have hfits : (t.tableAlloc t.files[i.val] align zone).NoWrap :=
      hwrap [t.tableAlloc t.files[i.val] align zone] (by simp) _ (by simp)
    have hn : t.files[i.val].size.toNat = s.fileSize i := by
      rw [← h.fileSize_eq, Qboot.fileSize_eq hlt]
    exact h.place hzones (tableAlign_pos align) hfits hn (allocate_files _ _) rfl rfl rfl
  | ptr dest src offset size =>
    obtain ⟨i, j, -, -, -, -, -, rfl⟩ := doPtr_ok hrun
    exact ⟨h.files, h.top, h.base, h.block, h.apart⟩
  | checksum file offset start len =>
    obtain ⟨i, hlt, -, -, -, -, rfl⟩ := doChecksum_ok hrun
    exact ⟨h.files, h.top, h.base, h.block, h.apart⟩

end Blocks

/-! ### Commands that leave a range alone -/

/-- The command places the file at directory position `i` again, or changes a
byte of its range. -/
def LoaderCmd.Touches (files : List FwCfgFile) (i start len : Nat) : LoaderCmd → Prop
  | .alloc file _ _ => fileIndex files file = some i
  | .ptr dest _ offset size => fileIndex files dest = some i ∧
      offset.toNat < start + len ∧ start < offset.toNat + size.toNat
  | .checksum file offset _ _ => fileIndex files file = some i ∧
      start ≤ offset.toNat ∧ offset.toNat < start + len
  | .quit => False
  | .unknown _ => False

section Range

variable {s t t' : Firmware} {i : Fin 20} {start len : Nat}

/-- A store to another file, or beside the range in the same file. -/
theorem load_range_store (h : Blocks s t) (hi : t.fileAddress i ≠ 0#32)
    (hrange : start + len ≤ s.fileSize i) {j : Fin 20} (hj : t.fileAddress j ≠ 0#32) {k : Nat}
    {bs : List Byte} (hk : k + bs.length ≤ s.fileSize j)
    (hbeside : j = i → k + bs.length ≤ start ∨ start + len ≤ k) :
    load (store t.mem (t.fileAddress j + BitVec.ofNat 32 k) bs)
        (t.fileAddress i + BitVec.ofNat 32 start) len =
      load t.mem (t.fileAddress i + BitVec.ofNat 32 start) len := by
  have hiend := h.block_end hi
  have hjend := h.block_end hj
  refine load_store_outside t.mem (by omega) ?_
  by_cases hij : j = i
  · subst hij
    exact (apart_parts _ (hbeside rfl) (by omega) (by omega)).symm
  · exact (((h.apart j i hj hi hij).part hk (by omega)).symm.part hrange (by omega))

/-- A command that does not touch a range leaves it where it is and as it is. -/
theorem step_range (h : Blocks s t) (hzones : s.mallocTop.toNat ≤ s.fsegBase.toNat)
    (hi : t.fileAddress i ≠ 0#32) (hrange : start + len ≤ s.fileSize i) {cmd : LoaderCmd}
    (hrun : cmd.run t = .ok () t') (hleaves : ¬ cmd.Touches s.files i start len)
    (hfield : cmd.FieldInFile s.files s.fileSize)
    (hwrap : ∀ new, t'.allocs = new ++ t.allocs → ∀ a ∈ new, a.NoWrap) :
    t'.fileAddress i = t.fileAddress i ∧
      load t'.mem (t'.fileAddress i + BitVec.ofNat 32 start) len =
        load t.mem (t.fileAddress i + BitVec.ofNat 32 start) len := by
  cases cmd with
  | quit =>
    obtain rfl : t = t' := by simpa [LoaderCmd.run] using hrun
    exact ⟨rfl, rfl⟩
  | unknown cmd => cases hrun
  | alloc file align zone =>
    obtain ⟨j, hlt, rsdp, hj, rfl⟩ := doAlloc_ok hrun
    have hfits : (t.tableAlloc t.files[j.val] align zone).NoWrap :=
      hwrap [t.tableAlloc t.files[j.val] align zone] (by simp) _ (by simp)
    have hij : i ≠ j := by
      rintro rfl
      exact hleaves (by rwa [h.files] at hj)
    have hkept : Function.update t.fileAddress j (t.tableAlloc t.files[j.val] align zone).base i =
        t.fileAddress i := Function.update_of_ne hij ..
    refine ⟨hkept, ?_⟩
    change load (store t.mem (t.tableAlloc t.files[j.val] align zone).base _)
      (Function.update t.fileAddress j _ i + BitVec.ofNat 32 start) len = _
    rw [hkept]
    have hiend := h.block_end hi
    have hnew := h.new_apart hzones (tableAlign_pos align) hfits hi
    refine load_store_outside t.mem (by omega) ?_
    rw [FwCfg.length_fileBytes]
    exact hnew.symm.part hrange (by omega)
  | ptr dest src offset size =>
    obtain ⟨k, j, -, hj, -, hjne, -, rfl⟩ := doPtr_ok hrun
    rw [h.files] at hj
    have hfit : offset.toNat + size.toNat ≤ s.fileSize j.val := hfield j.val hj
    have hpos : t.fileAddress j + offset = t.fileAddress j + BitVec.ofNat 32 offset.toNat := by
      simp
    refine ⟨rfl, ?_⟩
    rw [hpos]
    refine load_range_store h hi hrange hjne (by rwa [length_toLE]) fun hji => ?_
    rw [length_toLE]
    subst hji
    by_contra hmeets
    exact hleaves ⟨hj, by omega, by omega⟩
  | checksum file offset start' len' =>
    obtain ⟨j, hlt, hj, hjne, hoff, -, rfl⟩ := doChecksum_ok hrun
    rw [h.files] at hj
    have hfit : offset.toNat < s.fileSize j.val := by
      rwa [← h.fileSize_eq, Qboot.fileSize_eq hlt]
    have hpos : t.fileAddress j + offset = t.fileAddress j + BitVec.ofNat 32 offset.toNat := by
      simp
    refine ⟨rfl, ?_⟩
    rw [hpos]
    refine load_range_store h hi hrange hjne (by simpa using hfit) fun hji => ?_
    rw [List.length_singleton]
    subst hji
    by_contra hmeets
    exact hleaves ⟨hj, by omega, by omega⟩

/-- A script that does not touch a range leaves it as it is. -/
theorem runScript_range (hzones : s.mallocTop.toNat ≤ s.fsegBase.toNat) {cmds : List LoaderCmd}
    (hquit : ∀ cmd ∈ cmds, cmd ≠ .quit) :
    ∀ {t : Firmware}, Blocks s t → t.fileAddress i ≠ 0#32 → start + len ≤ s.fileSize i →
      runScript cmds t = .ok () t' → (∀ cmd ∈ cmds, ¬ cmd.Touches s.files i start len) →
      (∀ cmd ∈ cmds, cmd.FieldInFile s.files s.fileSize) →
      (∀ new, t'.allocs = new ++ t.allocs → ∀ a ∈ new, a.NoWrap) →
      t'.files = s.files ∧ t'.fileAddress i = t.fileAddress i ∧
        load t'.mem (t'.fileAddress i + BitVec.ofNat 32 start) len =
          load t.mem (t.fileAddress i + BitVec.ofNat 32 start) len := by
  induction cmds with
  | nil =>
    intro t h _ _ hrun _ _ _
    obtain rfl : t = t' := by simpa [runScript] using hrun
    exact ⟨h.files, rfl, rfl⟩
  | cons cmd rest ih =>
    intro t h hi hrange hrun hleaves hfield hwrap
    rw [runScript_cons (hquit cmd (by simp))] at hrun
    obtain ⟨u, t₁, hcmd, hrest⟩ := StateRun.bind_ok.mp hrun
    obtain ⟨hwrapNow, hwrapLater⟩ :=
      newAllocs_split (run_allocs hcmd) (runScript_allocs hrest) hwrap
    obtain ⟨haddr, hload⟩ := step_range h hzones hi hrange hcmd (hleaves cmd (by simp))
      (hfield cmd (by simp)) hwrapNow
    obtain ⟨hfiles, haddr', hload'⟩ := ih (fun c hc => hquit c (by simp [hc]))
      (h.step hzones hcmd hwrapNow) (by rwa [haddr]) hrange hrest
      (fun c hc => hleaves c (by simp [hc])) (fun c hc => hfield c (by simp [hc])) hwrapLater
    exact ⟨hfiles, haddr'.trans haddr, hload'.trans hload⟩

/-- Blocks stay apart along a script. -/
theorem runScript_blocks (hzones : s.mallocTop.toNat ≤ s.fsegBase.toNat) {cmds : List LoaderCmd}
    (hquit : ∀ cmd ∈ cmds, cmd ≠ .quit) :
    ∀ {t : Firmware}, Blocks s t → runScript cmds t = .ok () t' →
      (∀ new, t'.allocs = new ++ t.allocs → ∀ a ∈ new, a.NoWrap) → Blocks s t' := by
  induction cmds with
  | nil =>
    intro t h hrun _
    obtain rfl : t = t' := by simpa [runScript] using hrun
    exact h
  | cons cmd rest ih =>
    intro t h hrun hwrap
    rw [runScript_cons (hquit cmd (by simp))] at hrun
    obtain ⟨u, t₁, hcmd, hrest⟩ := StateRun.bind_ok.mp hrun
    obtain ⟨hwrapNow, hwrapLater⟩ :=
      newAllocs_split (run_allocs hcmd) (runScript_allocs hrest) hwrap
    exact ih (fun c hc => hquit c (by simp [hc])) (h.step hzones hcmd hwrapNow) hrest hwrapLater

end Range

/-- Only the commands before the first `CMD_QUIT` run. -/
theorem runScript_executed (script : List LoaderCmd) :
    runScript script = runScript (executed script) := by
  induction script with
  | nil => rfl
  | cons cmd rest ih =>
    by_cases hquit : cmd = .quit
    · subst hquit
      rw [executed_quit]
      rfl
    · rw [executed_cons hquit, runScript_cons hquit, runScript_cons hquit, ih]

theorem quit_notMem_executed (script : List LoaderCmd) : ∀ cmd ∈ executed script, cmd ≠ .quit :=
  fun cmd hcmd => by simpa using List.mem_takeWhile_imp hcmd

theorem runScript_append {cmds : List LoaderCmd} (hquit : ∀ cmd ∈ cmds, cmd ≠ .quit)
    (rest : List LoaderCmd) :
    runScript (cmds ++ rest) = runScript cmds >>= fun _ => runScript rest := by
  induction cmds with
  | nil => rfl
  | cons cmd cmds ih =>
    have hhead := hquit cmd (by simp)
    rw [List.cons_append, runScript_cons hhead, runScript_cons hhead, bind_assoc,
      ih fun c hc => hquit c (by simp [hc])]

/-- Right after a checksum command its range sums to zero. -/
theorem doChecksum_sum {file : List Byte} {offset start len : BitVec 32} {t t' : Firmware}
    (hrun : doChecksum file offset start len t = .ok () t') {i : Fin 20}
    (hi : fileIndex t.files file = some i.val) (hlo : start.toNat ≤ offset.toNat)
    (hhi : offset.toNat < start.toNat + len.toNat) :
    (load t'.mem (t'.fileAddress i + BitVec.ofNat 32 start.toNat) len.toNat).sum = 0 := by
  obtain ⟨j, hlt, hj, -, hoff, hrange, rfl⟩ := doChecksum_ok hrun
  obtain rfl : i = j := Fin.ext (Option.some.inj (hi.symm.trans hj))
  have hpos : t.fileAddress i + offset =
      t.fileAddress i + BitVec.ofNat 32 start.toNat +
        BitVec.ofNat 32 (offset.toNat - start.toNat) := by
    rw [BitVec.add_assoc, ← BitVec.ofNat_add, Nat.add_sub_cancel' hlo]
    simp
  have hstart : t.fileAddress i + start = t.fileAddress i + BitVec.ofNat 32 start.toNat := by simp
  have hinside : offset.toNat - start.toNat <
      (load t.mem (t.fileAddress i + BitVec.ofNat 32 start.toNat) len.toNat).length := by
    rw [length_load]
    omega
  change (load (store t.mem (t.fileAddress i + offset) _) _ _).sum = 0
  rw [hstart, hpos, load_store_part t.mem _ (by rw [List.length_singleton]; omega) (by omega),
    sum_patch_byte hinside, getElem_load]
  ring

/-- The range a checksum command fixed still sums to zero when the whole script
has run, unless a later command touches it. -/
theorem extractAcpi_sum {s s' : Firmware} (hrun : extractAcpi s = .ok () s')
    (hfresh : ∀ i, s.fileAddress i = 0#32) (hzones : s.mallocTop.toNat ≤ s.fsegBase.toNat)
    (hfield : ∀ cmd ∈ executed s.loaderScript, cmd.FieldInFile s.files s.fileSize)
    (hwrap : ∀ new, s'.allocs = new ++ s.allocs → ∀ a ∈ new, a.NoWrap)
    {before after : List LoaderCmd} {file : List Byte} {offset start len : BitVec 32} {i : Nat}
    (hsplit : executed s.loaderScript = before ++ .checksum file offset start len :: after)
    (hi : fileIndex s.files file = some i) (hlo : start.toNat ≤ offset.toNat)
    (hhi : offset.toNat < start.toNat + len.toNat)
    (hleaves : ∀ cmd ∈ after, ¬ cmd.Touches s.files i start.toNat len.toNat) :
    (load s'.mem (s'.nameAddr file + start) len.toNat).sum = 0 := by
  obtain ⟨dev, -, hscript⟩ := extractAcpi_ok hrun
  have hquit := quit_notMem_executed s.loaderScript
  rw [hsplit] at hquit hfield
  have hbefore : ∀ cmd ∈ before, cmd ≠ .quit := fun cmd h => hquit cmd (by simp [h])
  have hafter : ∀ cmd ∈ after, cmd ≠ .quit := fun cmd h => hquit cmd (by simp [h])
  rw [runScript_executed, hsplit, runScript_append hbefore] at hscript
  obtain ⟨u, t, hfirst, hscript⟩ := StateRun.bind_ok.mp hscript
  rw [runScript_cons (by simp)] at hscript
  obtain ⟨v, t', hsum, hlast⟩ := StateRun.bind_ok.mp hscript
  change doChecksum file offset start len t = .ok () t' at hsum
  have hlogFirst := runScript_allocs hfirst
  have hsum' : (LoaderCmd.checksum file offset start len).run t = .ok () t' := hsum
  have hlogSum := run_allocs hsum'
  have hlogLast := runScript_allocs hlast
  obtain ⟨hwrapFirst, hwrapRest⟩ := newAllocs_split hlogFirst (hlogSum.trans hlogLast) hwrap
  obtain ⟨hwrapSum, hwrapLast⟩ := newAllocs_split hlogSum hlogLast hwrapRest
  have hblocks := runScript_blocks hzones hbefore (Blocks.start hfresh) hfirst hwrapFirst
  obtain ⟨j, hlt, hj, hjne, -, hrange, hstate⟩ := doChecksum_ok hsum
  rw [hblocks.files] at hj
  obtain rfl : i = j.val := Option.some.inj (hi.symm.trans hj)
  have hsize : start.toNat + len.toNat ≤ s.fileSize j := by
    rwa [← hblocks.fileSize_eq, fileSize_eq hlt]
  have hblocks' : Blocks s t' :=
    hblocks.step hzones hsum' hwrapSum
  have haddr : t'.fileAddress j = t.fileAddress j := by rw [hstate]
  obtain ⟨hfiles, -, hkept⟩ := runScript_range hzones hafter hblocks' (by rwa [haddr]) hsize hlast
    hleaves (fun c hc => hfield c (by simp [hc])) hwrapLast
  have hzero := doChecksum_sum hsum (by rwa [hblocks.files]) hlo hhi
  rw [← hkept] at hzero
  have hstart : s'.fileAddress j + start =
      s'.fileAddress j + BitVec.ofNat 32 start.toNat := by simp
  rw [nameAddr_eq (by rw [hfiles]; exact hi), hstart]
  exact hzero

/-- `do_checksum` on a placed file panics exactly when its range check fails in
unbounded arithmetic and else changes one byte, and a range it fixes still
sums to zero when the whole script has run. -/
theorem checksums_hold :
    (∀ (t : Firmware) (file : List Byte) (offset start len : BitVec 32),
      t.Indexed file → t.nameAddr file ≠ 0#32 →
      (doChecksum file offset start len t = .error .panic t ↔
        ¬ (offset.toNat < t.nameSize file ∧ start.toNat + len.toNat ≤ t.nameSize file)) ∧
      (offset.toNat < t.nameSize file ∧ start.toNat + len.toNat ≤ t.nameSize file →
        ∃ b, doChecksum file offset start len t =
          .ok () { t with mem := store t.mem (t.nameAddr file + offset) [b] })) ∧
    ∀ (s s' : Firmware), extractAcpi s = .ok () s' → (∀ i, s.fileAddress i = 0#32) →
      s.mallocTop.toNat ≤ s.fsegBase.toNat →
      (∀ cmd ∈ executed s.loaderScript, cmd.FieldInFile s.files s.fileSize) →
      (∀ new, s'.allocs = new ++ s.allocs → ∀ a ∈ new, a.NoWrap) →
      ∀ (before after : List LoaderCmd) (file : List Byte) (offset start len : BitVec 32) (i : Nat),
        executed s.loaderScript = before ++ .checksum file offset start len :: after →
        fileIndex s.files file = some i → start.toNat ≤ offset.toNat →
        offset.toNat < start.toNat + len.toNat →
        (∀ cmd ∈ after, ¬ cmd.Touches s.files i start.toNat len.toNat) →
        (load s'.mem (s'.nameAddr file + start) len.toNat).sum = 0 := by
  constructor
  · intro t file offset start len hfile haddr
    rw [doChecksum_eq, if_neg (not_not.mpr hfile), if_neg haddr]
    by_cases hrange : offset.toNat < t.nameSize file ∧ start.toNat + len.toNat ≤ t.nameSize file
    · rw [if_neg (not_not.mpr hrange)]
      refine ⟨⟨fun h => ?_, fun h => absurd hrange h⟩, fun _ => ⟨_, rfl⟩⟩
      cases h
    · rw [if_pos hrange]
      exact ⟨⟨fun _ => hrange, fun _ => rfl⟩, fun h => absurd h hrange⟩
  · intro s s' hrun hfresh hzones hfield hwrap before after file offset start len i hsplit hi hlo
      hhi hleaves
    exact extractAcpi_sum hrun hfresh hzones hfield hwrap hsplit hi hlo hhi hleaves

/-- A machine with a script and one file `T` of 8 bytes. -/
def scriptMachine (script : List Byte) : Firmware :=
  { Firmware.initial
      { entry := fun key =>
          if key = 0x20#16 then script else [4#8, 0#8, 0#8, 0#8, 5#8, 6#8, 7#8, 8#8]
        key := 0#16
        pos := 0 }
      (fun _ => 0#8) 0xf0000#32 0xf4000#32 with
    files :=
      [{ size := BitVec.ofNat 32 script.length, select := 0x20#16,
         name := paddedName tableLoaderName },
       { size := 8#32, select := 0x21#16, name := paddedName (cstring ['T']) }] }

theorem scriptMachine_index (script : List Byte) :
    fileIndex (scriptMachine script).files tableLoaderName = some 0 ∧
      fileIndex (scriptMachine script).files (padTo 56 (cstring ['T'])) = some 1 := by
  have hloader : filenamecmpFrom 55 tableLoaderName (padTo 56 tableLoaderName) = 0 := by
    decide +kernel
  have hother : filenamecmpFrom 55 (padTo 56 (cstring ['T'])) (padTo 56 tableLoaderName) ≠ 0 := by
    decide +kernel
  have hsame : filenamecmpFrom 55 (padTo 56 (cstring ['T'])) (padTo 56 (cstring ['T'])) = 0 := by
    decide +kernel
  simp [fileIndex, filenamecmp, scriptMachine, paddedName, List.findIdx?_cons, hloader, hother,
    hsame]

/-- A script that places `T`, makes its 8 bytes sum to zero and adds an address
to no byte of the range. -/
def placeAndSum : List Byte :=
  padTo 128 (toLE 4 1 ++ padTo 56 (cstring ['T']) ++ toLE 4 16 ++ [1#8]) ++
    padTo 128 (toLE 4 3 ++ padTo 56 (cstring ['T']) ++ toLE 4 3 ++ toLE 4 0 ++ toLE 4 8)

theorem checksums_hold_place :
    let s' := StateRun.final (extractAcpi (scriptMachine placeAndSum))
    (load s'.mem (s'.nameAddr (padTo 56 (cstring ['T']))) 8).sum = 0 := by
  intro s'
  have hscript : executed (scriptMachine placeAndSum).loaderScript =
      [.alloc (padTo 56 (cstring ['T'])) 16#32 1#8,
       .checksum (padTo 56 (cstring ['T'])) 3#32 0#32 8#32] := by decide +kernel
  have hrun : extractAcpi (scriptMachine placeAndSum) = .ok () s' :=
    StateRun.eq_ok_of_returned (by decide +kernel)
  have hfield : ∀ cmd ∈ executed (scriptMachine placeAndSum).loaderScript,
      cmd.FieldInFile (scriptMachine placeAndSum).files (scriptMachine placeAndSum).fileSize := by
    rw [hscript]
    simp [LoaderCmd.FieldInFile]
  have hwrap : ∀ new, s'.allocs = new ++ (scriptMachine placeAndSum).allocs →
      ∀ a ∈ new, a.NoWrap := by
    intro new hnew
    have hall : ∀ a ∈ s'.allocs, a.NoWrap := by decide +kernel
    have hnil : (scriptMachine placeAndSum).allocs = [] := rfl
    rw [hnil, List.append_nil] at hnew
    rwa [hnew] at hall
  have hsum := checksums_hold.2 (scriptMachine placeAndSum) s' hrun (fun _ => rfl) (by decide)
    hfield hwrap [.alloc (padTo 56 (cstring ['T'])) 16#32 1#8] [] (padTo 56 (cstring ['T'])) 3#32
    0#32 8#32 1 hscript (scriptMachine_index _).2 (by decide) (by decide) (by simp)
  rwa [BitVec.add_zero] at hsum

end Qboot
