import Qboot.Acpi.Reference

/-!
The table loader refines the per-file reference. Along a script that returns
and whose allocations do not wrap, the blocks of the placed files stay apart,
each block holds the file's reference bytes, and all other memory keeps its
content.
-/

namespace Qboot

open Bytes ByteMemory

/-- The recorded address of a named file, zero for a file without one. -/
def Firmware.nameAddr (s : Firmware) (name : List Byte) : BitVec 32 :=
  match fileIndex s.files name with
  | some i => if h : i < 20 then s.fileAddress ⟨i, h⟩ else 0#32
  | none => 0#32

theorem nameAddr_eq {s : Firmware} {name : List Byte} {i : Fin 20}
    (h : fileIndex s.files name = some i.val) : s.nameAddr name = s.fileAddress i := by
  simp [Firmware.nameAddr, h]

/-- `t` differs from `s` at most in memory, the read position of the device,
the allocator, `file_address` and `start_info.rsdp_paddr`. -/
structure OnlyTables (s t : Firmware) : Prop where
  entry : t.dev.entry = s.dev.entry
  version : t.version = s.version
  files : t.files = s.files
  startInfo : t.startInfo = { s.startInfo with rsdpPaddr := t.startInfo.rsdpPaddr }
  lowmem : t.lowmem = s.lowmem
  e820 : t.e820 = s.e820
  haveMmconfig : t.haveMmconfig = s.haveMmconfig
  e820Seg : t.e820Seg = s.e820Seg
  pvhFrame : t.pvhFrame = s.pvhFrame

theorem OnlyTables.refl (s : Firmware) : OnlyTables s s :=
  ⟨rfl, rfl, rfl, rfl, rfl, rfl, rfl, rfl, rfl⟩

/-- State `t` of a run that started in `s`: `placed` are the files that have a
block, `image` are the bytes their blocks hold. A file without a block has no
address and its image is its fw_cfg content. -/
structure Loaded (s t : Firmware) (placed : List (Fin 20)) (image : Fin 20 → List Byte) :
    Prop where
  same : OnlyTables s t
  fresh : ∀ i, i ∉ placed → t.fileAddress i = 0#32 ∧ image i = s.fileContent i
  top : t.mallocTop.toNat ≤ s.mallocTop.toNat
  base : s.fsegBase.toNat ≤ t.fsegBase.toNat
  block : ∀ i ∈ placed,
    (t.mallocTop.toNat ≤ (t.fileAddress i).toNat ∧
      (t.fileAddress i).toNat + s.fileSize i ≤ s.mallocTop.toNat) ∨
    (s.fsegBase.toNat ≤ (t.fileAddress i).toNat ∧
      (t.fileAddress i).toNat + s.fileSize i ≤ t.fsegBase.toNat)
  apart : ∀ i ∈ placed, ∀ j ∈ placed, i ≠ j →
    Apart (t.fileAddress i) (s.fileSize i) (t.fileAddress j) (s.fileSize j)
  bytes : ∀ i ∈ placed, load t.mem (t.fileAddress i) (s.fileSize i) = image i
  frame : ∀ a, (∀ i ∈ placed, ¬ Within (t.fileAddress i) (s.fileSize i) a) → t.mem a = s.mem a

namespace Loaded

variable {s t : Firmware} {placed : List (Fin 20)} {image : Fin 20 → List Byte}

theorem fileSize (h : Loaded s t placed image) (i : Nat) : t.fileSize i = s.fileSize i := by
  simp only [Firmware.fileSize, h.same.files]

theorem fileContent (h : Loaded s t placed image) (i : Nat) :
    t.fileContent i = s.fileContent i := by
  simp only [Firmware.fileContent, h.same.files, FwCfg.fileBytes, h.same.entry]

theorem block_end (h : Loaded s t placed image) {i : Fin 20} (hi : i ∈ placed) :
    (t.fileAddress i).toNat + s.fileSize i ≤ 2 ^ 32 := by
  have htop := s.mallocTop.isLt
  have hbase := t.fsegBase.isLt
  rcases h.block i hi with ⟨-, hend⟩ | ⟨-, hend⟩ <;> omega

theorem fileSize_le (h : Loaded s t placed image) {i : Fin 20} (hi : i ∈ placed) :
    s.fileSize i ≤ 2 ^ 32 := by
  have := h.block_end hi
  omega

/-- A file that an access finds an address for was placed. -/
theorem placed_of_ne (h : Loaded s t placed image) {i : Fin 20} (hi : t.fileAddress i ≠ 0#32) :
    i ∈ placed := by
  by_contra hnot
  exact hi (h.fresh i hnot).1

/-- Writing inside the block of one file changes the image of that file only. -/
theorem write (h : Loaded s t placed image) {i : Fin 20} (hi : i ∈ placed) (k : Nat)
    (bs : List Byte) (hk : k + bs.length ≤ s.fileSize i) :
    Loaded s { t with mem := store t.mem (t.fileAddress i + BitVec.ofNat 32 k) bs } placed
      (Function.update image i (patch (image i) k bs)) := by
  have hsize := h.fileSize_le hi
  have hsame : OnlyTables s
      { t with mem := store t.mem (t.fileAddress i + BitVec.ofNat 32 k) bs } :=
    { h.same with }
  refine ⟨hsame, ?_, h.top, h.base, h.block, h.apart, ?_, ?_⟩
  · intro j hj
    have hij : j ≠ i := fun e => hj (e ▸ hi)
    rw [Function.update_of_ne hij]
    exact h.fresh j hj
  · intro j hj
    by_cases hij : j = i
    · subst hij
      rw [Function.update_self]
      have hload := load_store_part t.mem (t.fileAddress j) hk hsize
      rwa [h.bytes j hj] at hload
    · rw [Function.update_of_ne hij]
      have hpart : Apart (t.fileAddress i + BitVec.ofNat 32 k) bs.length
          (t.fileAddress j) (s.fileSize j) :=
        (h.apart i hi j hj (Ne.symm hij)).part hk hsize
      have hload := load_store_outside t.mem (h.fileSize_le hj) hpart.symm
      rw [hload]
      exact h.bytes j hj
  · intro a ha
    have hout : ¬ Within (t.fileAddress i + BitVec.ofNat 32 k) bs.length a := by
      intro hin
      have hpos : 0 < bs.length := by omega
      have hshift := (within_shift (by omega) hpos).mp hin
      have hnot : ¬ Within (t.fileAddress i) (s.fileSize i) a := ha i hi
      omega
    rw [← h.frame a ha]
    exact store_of_not_within _ hout

/-- Placing a file that has no block yet. -/
theorem place (h : Loaded s t placed image) (hzones : s.mallocTop.toNat ≤ s.fsegBase.toNat)
    {i : Fin 20} (hi : i ∉ placed) (hlt : i.val < s.files.length) (zone : Zone)
    {align : BitVec 32} (ha : 0 < align.toNat)
    (hwrap : (t.request zone s.files[i.val].size align).NoWrap) (dev : FwCfg)
    (hdev : dev.entry = s.dev.entry) (rsdp : BitVec 64) :
    Loaded s { t.allocate (t.request zone s.files[i.val].size align) with
        mem := store t.mem (t.request zone s.files[i.val].size align).base (s.fileContent i.val)
        dev := dev
        fileAddress := Function.update t.fileAddress i
          (t.request zone s.files[i.val].size align).base
        startInfo := { t.startInfo with rsdpPaddr := rsdp } }
      (i :: placed) image := by
  have hcases := allocate_cases ha hwrap
  have htop := h.top
  have hbase := h.base
  have hsize : s.fileSize i.val = s.files[i.val].size.toNat := fileSize_eq hlt
  have hlen : (s.fileContent i.val).length = s.fileSize i.val := by
    rw [fileContent_eq hlt, FwCfg.length_fileBytes, hsize]
  generalize hreq : t.request zone s.files[i.val].size align = a at hcases ⊢
  simp only at hcases
  have htopLt := s.mallocTop.isLt
  have htLt := (t.allocate a).fsegBase.isLt
  have hfit : a.base.toNat + s.fileSize i.val ≤ 2 ^ 32 := by
    rcases hcases with ⟨hend, -, -⟩ | ⟨-, hend, -⟩ <;> omega
  -- the new block is apart from every block placed before
  have hapart : ∀ j ∈ placed,
      Apart a.base (s.fileSize i.val) (t.fileAddress j) (s.fileSize j.val) := by
    intro j hj
    have hjend := h.block_end hj
    rcases hcases with ⟨hend, -, -⟩ | ⟨hstart, -, -⟩
    · apply apart_of_le _ hjend
      rcases h.block j hj with ⟨hlo, -⟩ | ⟨hlo, -⟩ <;> omega
    · apply Apart.symm
      apply apart_of_le _ hfit
      rcases h.block j hj with ⟨-, hhi⟩ | ⟨-, hhi⟩ <;> omega
  have hold : ∀ j ∈ placed, Function.update t.fileAddress i a.base j = t.fileAddress j := by
    intro j hj
    apply Function.update_of_ne
    rintro rfl
    exact hi hj
  refine ⟨?_, ?_, ?_, ?_, ?_, ?_, ?_, ?_⟩
  · exact
      { entry := hdev
        version := by simpa using h.same.version
        files := by simpa using h.same.files
        startInfo :=
          congrArg (fun info : HvmStartInfo => { info with rsdpPaddr := rsdp }) h.same.startInfo
        lowmem := by simpa using h.same.lowmem
        e820 := by simpa using h.same.e820
        haveMmconfig := by simpa using h.same.haveMmconfig
        e820Seg := by simpa using h.same.e820Seg
        pvhFrame := by simpa using h.same.pvhFrame }
  · intro j hj
    have hne : j ≠ i := fun e => hj (by simp [e])
    have hnot : j ∉ placed := fun e => hj (by simp [e])
    change Function.update t.fileAddress i a.base j = 0#32 ∧ _
    rw [Function.update_of_ne hne]
    exact h.fresh j hnot
  · change (t.allocate a).mallocTop.toNat ≤ _
    rcases hcases with ⟨hend, hmt, -⟩ | ⟨-, -, hmt⟩ <;> rw [hmt] <;> omega
  · change _ ≤ (t.allocate a).fsegBase.toNat
    rcases hcases with ⟨-, -, hfb⟩ | ⟨hstart, hend, -⟩
    · rw [hfb]
      exact hbase
    · omega
  · intro j hj
    change ((t.allocate a).mallocTop.toNat ≤ (Function.update t.fileAddress i a.base j).toNat ∧
        (Function.update t.fileAddress i a.base j).toNat + s.fileSize j ≤ s.mallocTop.toNat) ∨
      (s.fsegBase.toNat ≤ (Function.update t.fileAddress i a.base j).toNat ∧
        (Function.update t.fileAddress i a.base j).toNat + s.fileSize j ≤
          (t.allocate a).fsegBase.toNat)
    rcases List.mem_cons.mp hj with rfl | hj
    · rw [Function.update_self]
      rcases hcases with ⟨hend, hmt, -⟩ | ⟨hstart, hend, -⟩
      · left
        rw [hmt]
        omega
      · right
        omega
    · rw [hold j hj]
      have hblock := h.block j hj
      rcases hcases with ⟨hend, hmt, hfb⟩ | ⟨hstart, hend, hmt⟩
      · rw [hmt, hfb]
        omega
      · rw [hmt]
        omega
  · intro j hj k hk hjk
    change Apart (Function.update t.fileAddress i a.base j) (s.fileSize j)
      (Function.update t.fileAddress i a.base k) (s.fileSize k)
    rcases List.mem_cons.mp hj with rfl | hjold
    · rcases List.mem_cons.mp hk with rfl | hkold
      · exact absurd rfl hjk
      · rw [Function.update_self, hold k hkold]
        exact hapart k hkold
    · rcases List.mem_cons.mp hk with rfl | hkold
      · rw [Function.update_self, hold j hjold]
        exact (hapart j hjold).symm
      · rw [hold j hjold, hold k hkold]
        exact h.apart j hjold k hkold hjk
  · intro j hj
    change load (store t.mem a.base (s.fileContent i.val))
      (Function.update t.fileAddress i a.base j) (s.fileSize j) = _
    rcases List.mem_cons.mp hj with rfl | hj
    · rw [Function.update_self, (h.fresh j hi).2, ← hlen]
      exact load_store t.mem a.base (by omega)
    · rw [hold j hj, ← h.bytes j hj]
      apply load_store_outside t.mem (h.fileSize_le hj)
      rw [hlen]
      exact (hapart j hj).symm
  · intro x hx
    change store t.mem a.base (s.fileContent i.val) x = s.mem x
    have hnew : ¬ Within (Function.update t.fileAddress i a.base i) (s.fileSize i.val) x :=
      hx i (by simp)
    rw [Function.update_self, ← hlen] at hnew
    rw [store_of_not_within t.mem hnew]
    apply h.frame
    intro j hj
    have hout : ¬ Within (Function.update t.fileAddress i a.base j) (s.fileSize j.val) x :=
      hx j (by simp [hj])
    rwa [hold j hj] at hout

end Loaded

/-! ### One command -/

section Step

variable {s t t' : Firmware} {placed : List (Fin 20)} {image : Fin 20 → List Byte}

/-- A pointer command that stays in its file adds the address to the field. -/
theorem doPtr_step (h : Loaded s t placed image) {dest src : List Byte} {offset : BitVec 32}
    {size : Byte} (hrun : doPtr dest src offset size t = .ok () t')
    (hrange : ∀ i, fileIndex s.files dest = some i → offset.toNat + size.toNat ≤ s.fileSize i) :
    ∃ j ∈ placed, fileIndex s.files dest = some j.val ∧ t'.fileAddress = t.fileAddress ∧
      (∃ i ∈ placed, fileIndex s.files src = some i.val) ∧
      Loaded s t' placed (Function.update image j
        (addField (image j) offset.toNat size.toNat (t.nameAddr src).toNat)) := by
  obtain ⟨i, j, hi, hj, hine, hjne, hsize, rfl⟩ := doPtr_ok hrun
  rw [h.same.files] at hi hj
  have hjp := h.placed_of_ne hjne
  have hfit : offset.toNat + size.toNat ≤ s.fileSize j.val := hrange j.val hj
  have hpos : t.fileAddress j + offset = t.fileAddress j + BitVec.ofNat 32 offset.toNat := by
    simp
  have hfield : loadLE t.mem (t.fileAddress j + offset) size.toNat =
      ofLE (slice (image j) offset.toNat size.toNat) := by
    rw [loadLE, hpos, ← h.bytes j hjp, slice_load t.mem _ hfit]
  have haddr : t.nameAddr src = t.fileAddress i := nameAddr_eq (by rw [h.same.files]; exact hi)
  have hwrite := h.write hjp offset.toNat
    (toLE size.toNat (ofLE (slice (image j) offset.toNat size.toNat) +
      (t.fileAddress i).toNat)) (by simpa using hfit)
  refine ⟨j, hjp, hj, rfl, ⟨i, h.placed_of_ne hine, hi⟩, ?_⟩
  rw [haddr, hfield, hpos]
  exact hwrite

/-- A checksum command only returns when its range lies in the file. -/
theorem doChecksum_step (h : Loaded s t placed image) {file : List Byte}
    {offset start len : BitVec 32} (hrun : doChecksum file offset start len t = .ok () t') :
    ∃ j ∈ placed, fileIndex s.files file = some j.val ∧ t'.fileAddress = t.fileAddress ∧
      Loaded s t' placed (Function.update image j
        (subtractSum (image j) offset.toNat start.toNat len.toNat)) := by
  obtain ⟨j, hlt, hj, hjne, hoff, hrange, rfl⟩ := doChecksum_ok hrun
  have hlt' : j.val < s.files.length := by rwa [h.same.files] at hlt
  have hsize : t.files[j.val].size.toNat = s.fileSize j.val := by
    rw [← h.fileSize j.val, fileSize_eq hlt]
  rw [h.same.files] at hj
  rw [hsize] at hoff hrange
  have hjp := h.placed_of_ne hjne
  have hpos : t.fileAddress j + offset = t.fileAddress j + BitVec.ofNat 32 offset.toNat := by
    simp
  have hstart : t.fileAddress j + start = t.fileAddress j + BitVec.ofNat 32 start.toNat := by
    simp
  have hbyte : t.mem (t.fileAddress j + offset) = (image j).getD offset.toNat 0 := by
    have hin : offset.toNat < (load t.mem (t.fileAddress j) (s.fileSize j)).length := by
      simpa using hoff
    rw [← h.bytes j hjp, List.getD_eq_getElem?_getD, List.getElem?_eq_getElem hin, getElem_load,
      hpos]
    rfl
  have hsum : (load t.mem (t.fileAddress j + start) len.toNat).sum =
      (slice (image j) start.toNat len.toNat).sum := by
    rw [hstart, ← h.bytes j hjp, slice_load t.mem _ hrange]
  have hwrite := h.write hjp offset.toNat
    [(image j).getD offset.toNat 0 - (slice (image j) start.toNat len.toNat).sum]
    (by simpa using hoff)
  refine ⟨j, hjp, hj, rfl, ?_⟩
  rw [hbyte, hsum, hpos]
  exact hwrite

/-- An allocation command for a file without a block places its content. -/
theorem doAlloc_step (h : Loaded s t placed image)
    (hzones : s.mallocTop.toNat ≤ s.fsegBase.toNat) {file : List Byte} {align : BitVec 32}
    {zone : Byte} (hrun : doAlloc file align zone t = .ok () t')
    (hnew : ∀ i ∈ placed, fileIndex s.files file ≠ some i.val)
    (hwrap : ∀ new, t'.allocs = new ++ t.allocs → ∀ a ∈ new, a.NoWrap) :
    ∃ i, i ∉ placed ∧ fileIndex s.files file = some i.val ∧
      (∀ j ∈ placed, t'.fileAddress j = t.fileAddress j) ∧
      Loaded s t' (i :: placed) image := by
  obtain ⟨i, hlt, rsdp, hi, rfl⟩ := doAlloc_ok hrun
  have hlt' : i.val < s.files.length := by rwa [h.same.files] at hlt
  rw [h.same.files] at hi
  have hnot : i ∉ placed := fun hmem => hnew i hmem hi
  have hcontent : t.dev.fileBytes t.files[i.val] t.files[i.val].size.toNat =
      s.fileContent i.val := by
    rw [← h.fileContent i.val, fileContent_eq hlt]
  have hfile : t.files[i.val] = s.files[i.val] := by
    simp only [h.same.files]
  have hfits : (t.tableAlloc t.files[i.val] align zone).NoWrap :=
    hwrap [t.tableAlloc t.files[i.val] align zone] (by simp) _ (by simp)
  have hplace := h.place hzones hnot hlt' (zoneOf zone) (tableAlign_pos align)
    (by rw [← hfile]; exact hfits)
    ((t.dev.select t.files[i.val].select).skip t.files[i.val].size.toNat)
    (by simpa using h.same.entry) rsdp
  refine ⟨i, hnot, hi, ?_, ?_⟩
  · intro j hj
    apply Function.update_of_ne
    rintro rfl
    exact hnot hj
  · rw [hcontent]
    unfold Firmware.tableAlloc
    rw [hfile] at hplace ⊢
    exact hplace

private theorem onFile_update {files : List FwCfgFile} {name : List Byte} {j : Fin 20}
    (hj : fileIndex files name = some j.val) (image : Fin 20 → List Byte)
    (f : List Byte → List Byte) :
    Function.update image j (f (image j)) =
      fun i : Fin 20 => if fileIndex files name = some i.val then f (image i) else image i := by
  funext i
  by_cases hij : i = j
  · subst hij
    rw [Function.update_self, if_pos hj]
  · have hne : ¬ fileIndex files name = some i.val := by
      rw [hj, Option.some.injEq]
      exact fun e => hij (Fin.ext e.symm)
    rw [Function.update_of_ne hij, if_neg hne]

/-- A command that returns acts on every image as its reference does, places
at most the file it names, and moves no file placed before. -/
theorem run_step (h : Loaded s t placed image)
    (hzones : s.mallocTop.toNat ≤ s.fsegBase.toNat) {cmd : LoaderCmd}
    (hrun : cmd.run t = .ok () t')
    (hnew : ∀ i ∈ placed, cmd.allocates s.files ≠ some i.val)
    (hfield : cmd.FieldInFile s.files s.fileSize)
    (hwrap : ∀ new, t'.allocs = new ++ t.allocs → ∀ a ∈ new, a.NoWrap) :
    ∃ placed', (∀ i, i ∈ placed' ↔ i ∈ placed ∨ cmd.allocates s.files = some i.val) ∧
      (∀ i ∈ placed, t'.fileAddress i = t.fileAddress i) ∧
      (∀ src ∈ cmd.sources, ∃ i ∈ placed, fileIndex s.files src = some i.val) ∧
      Loaded s t' placed' fun i => cmd.onFile s.files t'.nameAddr i (image i) := by
  cases cmd with
  | quit =>
    obtain ⟨-, rfl⟩ : () = () ∧ t = t' := by simpa [LoaderCmd.run] using hrun
    exact ⟨placed, by simp [LoaderCmd.allocates], fun _ _ => rfl, by simp [LoaderCmd.sources], h⟩
  | unknown cmd => cases hrun
  | alloc file align zone =>
    obtain ⟨i, hnot, hi, hkept, hload⟩ := doAlloc_step h hzones hrun hnew hwrap
    refine ⟨i :: placed, ?_, hkept, by simp [LoaderCmd.sources], hload⟩
    intro j
    simp only [List.mem_cons, LoaderCmd.allocates, hi, Option.some.injEq, Fin.val_inj]
    exact ⟨fun hj => hj.symm.imp_right Eq.symm, fun hj => hj.symm.imp_left Eq.symm⟩
  | ptr dest src offset size =>
    obtain ⟨j, hj, hdest, haddr, hsrc, hload⟩ := doPtr_step h hrun hfield
    have hname : t'.nameAddr src = t.nameAddr src := by
      simp only [Firmware.nameAddr, hload.same.files, h.same.files, haddr]
    refine ⟨placed, by simp [LoaderCmd.allocates], fun i _ => congrFun haddr i,
      by simpa [LoaderCmd.sources] using hsrc, ?_⟩
    rw [← hname, onFile_update hdest image
      fun bs => addField bs offset.toNat size.toNat (t'.nameAddr src).toNat] at hload
    exact hload
  | checksum file offset start len =>
    obtain ⟨j, hj, hfile, haddr, hload⟩ := doChecksum_step h hrun
    refine ⟨placed, by simp [LoaderCmd.allocates], fun i _ => congrFun haddr i,
      by simp [LoaderCmd.sources], ?_⟩
    rw [onFile_update hfile image
      fun bs => subtractSum bs offset.toNat start.toNat len.toNat] at hload
    exact hload

end Step

/-! ### A whole script -/

theorem executed_quit (rest : List LoaderCmd) : executed (.quit :: rest) = [] := by
  simp [executed]

theorem executed_cons {cmd : LoaderCmd} (hcmd : cmd ≠ .quit) (rest : List LoaderCmd) :
    executed (cmd :: rest) = cmd :: executed rest := by
  simp [executed, hcmd]

theorem runScript_cons {cmd : LoaderCmd} (hcmd : cmd ≠ .quit) (rest : List LoaderCmd) :
    runScript (cmd :: rest) = cmd.run >>= fun _ => runScript rest := by
  cases cmd with
  | quit => exact absurd rfl hcmd
  | _ => rfl

/-- The log of allocations only grows. -/
theorem run_allocs {cmd : LoaderCmd} {t t' : Firmware} (hrun : cmd.run t = .ok () t') :
    t.allocs <:+ t'.allocs := by
  cases cmd with
  | quit =>
    obtain rfl : t = t' := by simpa [LoaderCmd.run] using hrun
    exact List.suffix_refl _
  | unknown cmd => cases hrun
  | alloc file align zone =>
    obtain ⟨i, hlt, rsdp, -, rfl⟩ := doAlloc_ok hrun
    exact ⟨[t.tableAlloc t.files[i.val] align zone], by simp⟩
  | ptr dest src offset size =>
    obtain ⟨i, j, -, -, -, -, -, rfl⟩ := doPtr_ok hrun
    exact List.suffix_refl _
  | checksum file offset start len =>
    obtain ⟨i, hlt, -, -, -, -, rfl⟩ := doChecksum_ok hrun
    exact List.suffix_refl _

theorem runScript_allocs {script : List LoaderCmd} {t t' : Firmware}
    (hrun : runScript script t = .ok () t') : t.allocs <:+ t'.allocs := by
  induction script generalizing t with
  | nil =>
    obtain rfl : t = t' := by simpa [runScript] using hrun
    exact List.suffix_refl _
  | cons cmd rest ih =>
    by_cases hquit : cmd = .quit
    · subst hquit
      obtain rfl : t = t' := by simpa [runScript] using hrun
      exact List.suffix_refl _
    · rw [runScript_cons hquit] at hrun
      obtain ⟨u, t₁, hcmd, hrest⟩ := StateRun.bind_ok.mp hrun
      exact (run_allocs hcmd).trans (ih hrest)

/-- What holds of all allocations of two steps holds of those of each. -/
theorem newAllocs_split {t t' s' : Firmware} (hnow : t.allocs <:+ t'.allocs)
    (hlater : t'.allocs <:+ s'.allocs)
    (hwrap : ∀ new, s'.allocs = new ++ t.allocs → ∀ a ∈ new, a.NoWrap) :
    (∀ new, t'.allocs = new ++ t.allocs → ∀ a ∈ new, a.NoWrap) ∧
      ∀ new, s'.allocs = new ++ t'.allocs → ∀ a ∈ new, a.NoWrap := by
  obtain ⟨later, hlater⟩ := hlater
  obtain ⟨now, hnow⟩ := hnow
  constructor
  · intro new hadd a ha
    exact hwrap (later ++ new) (by rw [← hlater, hadd, List.append_assoc]) a (by simp [ha])
  · intro new hadd a ha
    exact hwrap (new ++ now) (by rw [hadd, ← hnow, List.append_assoc]) a (by simp [ha])

theorem mem_allocatedFiles_cons {files : List FwCfgFile} {cmd : LoaderCmd}
    {cmds : List LoaderCmd} {i : Nat} :
    i ∈ allocatedFiles files (cmd :: cmds) ↔
      cmd.allocates files = some i ∨ i ∈ allocatedFiles files cmds := by
  simp [allocatedFiles]

/-- A script that returns applies its commands up to the first `CMD_QUIT` to
every image, with the addresses of the final state. -/
theorem runScript_loaded {s s' : Firmware} (hzones : s.mallocTop.toNat ≤ s.fsegBase.toNat)
    (script : List LoaderCmd) :
    ∀ {t : Firmware} {placed : List (Fin 20)} {image : Fin 20 → List Byte},
      Loaded s t placed image → runScript script t = .ok () s' →
      (allocatedFiles s.files (executed script)).Nodup →
      (∀ i ∈ placed, i.val ∉ allocatedFiles s.files (executed script)) →
      (∀ cmd ∈ executed script, cmd.FieldInFile s.files s.fileSize) →
      (∀ new, s'.allocs = new ++ t.allocs → ∀ a ∈ new, a.NoWrap) →
      ∃ placed', (∀ i : Fin 20, i ∈ placed' ↔
          i ∈ placed ∨ i.val ∈ allocatedFiles s.files (executed script)) ∧
        (∀ i ∈ placed, s'.fileAddress i = t.fileAddress i) ∧
        Loaded s s' placed' fun i =>
          fileImage s.files s'.nameAddr i (executed script) (image i) := by
  induction script with
  | nil =>
    intro t placed image h hrun _ _ _ _
    obtain rfl : t = s' := by simpa [runScript] using hrun
    exact ⟨placed, by simp [executed, allocatedFiles], fun _ _ => rfl, h⟩
  | cons cmd rest ih =>
    intro t placed image h hrun honce hnew hfield hwrap
    by_cases hquit : cmd = .quit
    · subst hquit
      obtain rfl : t = s' := by simpa [runScript] using hrun
      rw [executed_quit]
      exact ⟨placed, by simp [allocatedFiles], fun _ _ => rfl, h⟩
    · rw [executed_cons hquit] at honce hnew hfield ⊢
      rw [runScript_cons hquit] at hrun
      obtain ⟨u, t', hcmd, hrest⟩ := StateRun.bind_ok.mp hrun
      obtain ⟨hwrapNow, hwrapLater⟩ :=
        newAllocs_split (run_allocs hcmd) (runScript_allocs hrest) hwrap
      have hnewNow : ∀ i ∈ placed, cmd.allocates s.files ≠ some i.val := fun i hi he =>
        hnew i hi (mem_allocatedFiles_cons.mpr (Or.inl he))
      obtain ⟨placed₁, hmem₁, hkept₁, hsrc, hload₁⟩ :=
        run_step h hzones hcmd hnewNow (hfield cmd (by simp)) hwrapNow
      have honceLater : (allocatedFiles s.files (executed rest)).Nodup :=
        honce.sublist (by simp [allocatedFiles, List.filterMap_cons]; split <;> simp)
      have hnewLater : ∀ i ∈ placed₁, i.val ∉ allocatedFiles s.files (executed rest) := by
        intro i hi hin
        rcases (hmem₁ i).mp hi with hold | hnow
        · exact hnew i hold (mem_allocatedFiles_cons.mpr (Or.inr hin))
        · simp only [allocatedFiles, List.filterMap_cons, hnow, List.nodup_cons] at honce
          exact honce.1 hin
      obtain ⟨placed', hmem, hkept, hload⟩ := ih hload₁ hrest honceLater hnewLater
        (fun c hc => hfield c (by simp [hc])) hwrapLater
      have hsub : ∀ i ∈ placed, i ∈ placed₁ := fun i hi => (hmem₁ i).mpr (Or.inl hi)
      -- the addresses read by `cmd` are the final ones
      have haddr : ∀ src ∈ cmd.sources, t'.nameAddr src = s'.nameAddr src := by
        intro src hin
        obtain ⟨i, hi, hfound⟩ := hsrc src hin
        rw [nameAddr_eq (by rw [hload₁.same.files]; exact hfound),
          nameAddr_eq (by rw [hload.same.files]; exact hfound), hkept i (hsub i hi)]
      refine ⟨placed', ?_, ?_, ?_⟩
      · intro i
        rw [hmem i, hmem₁ i, mem_allocatedFiles_cons, or_assoc]
      · intro i hi
        rw [hkept i (hsub i hi), hkept₁ i hi]
      · have himage : ∀ i : Fin 20,
            fileImage s.files s'.nameAddr i (cmd :: executed rest) (image i) =
              fileImage s.files s'.nameAddr i (executed rest)
                (cmd.onFile s.files t'.nameAddr i (image i)) := by
          intro i
          rw [onFile_congr haddr]
          rfl
        simp only [himage]
        exact hload

/-- The commands QEMU supplies in `etc/table-loader`. -/
def Firmware.loaderScript (s : Firmware) : List LoaderCmd :=
  match fileIndex s.files tableLoaderName with
  | some i => scriptOf (s.fileContent i)
  | none => []

/-- `extract_acpi` only reads the script and runs it. -/
theorem extractAcpi_ok {s s' : Firmware} (h : extractAcpi s = .ok () s') :
    ∃ dev : FwCfg, dev.entry = s.dev.entry ∧
      runScript s.loaderScript { s with dev := dev } = .ok () s' := by
  cases hfound : fileIndex s.files tableLoaderName with
  | none =>
    rw [extractAcpi, StateRun.bind_of_ok (fwCfgFileId_none hfound),
      StateRun.bind_of_ok (fwCfgFileSize_neg_one s), if_pos rfl] at h
    refine ⟨s.dev, rfl, ?_⟩
    rw [Firmware.loaderScript, hfound]
    exact h
  | some i =>
    have hlt := fileIndex_lt hfound
    have hscript : s.loaderScript =
        scriptOf (s.dev.fileBytes s.files[i] s.files[i].size.toNat) := by
      rw [Firmware.loaderScript, hfound]
      exact congrArg scriptOf (fileContent_eq hlt)
    rw [extractAcpi, StateRun.bind_of_ok (fwCfgFileId_some hfound),
      StateRun.bind_of_ok (fwCfgFileSize_lt hlt)] at h
    split at h
    · rename_i hzero
      refine ⟨s.dev, rfl, ?_⟩
      have hempty : s.dev.fileBytes s.files[i] (0#32).toNat = [] := rfl
      rw [hscript, hzero, hempty]
      exact h
    · split at h
      · cases h
      · rw [StateRun.bind_of_ok (fwCfgReadFileLocal_lt _ hlt)] at h
        refine ⟨(s.dev.select s.files[i].select).skip s.files[i].size.toNat, rfl, ?_⟩
        rw [hscript]
        exact h

/-- Before the first command no file has a block. -/
theorem loaded_nil {s : Firmware} (hfresh : ∀ i, s.fileAddress i = 0#32) {dev : FwCfg}
    (hdev : dev.entry = s.dev.entry) :
    Loaded s { s with dev := dev } [] fun i => s.fileContent i := by
  refine ⟨?_, fun i _ => ⟨hfresh i, rfl⟩, le_rfl, le_rfl, ?_, ?_, ?_, fun _ _ => rfl⟩
  · exact { OnlyTables.refl s with entry := hdev }
  · intro i hi
    cases hi
  · intro i hi
    cases hi
  · intro i hi
    cases hi

/-- The table loader gives every file it places the bytes of the reference:
the fw_cfg content of the file after the pointer and checksum commands on it,
with the final addresses. Memory outside the blocks and the rest of the
machine stay as they were. -/
theorem extractAcpi_refines {s s' : Firmware} (hrun : extractAcpi s = .ok () s')
    (hfresh : ∀ i, s.fileAddress i = 0#32)
    (hzones : s.mallocTop.toNat ≤ s.fsegBase.toNat)
    (honce : (allocatedFiles s.files (executed s.loaderScript)).Nodup)
    (hfield : ∀ cmd ∈ executed s.loaderScript, cmd.FieldInFile s.files s.fileSize)
    (hwrap : ∀ new, s'.allocs = new ++ s.allocs → ∀ a ∈ new, a.NoWrap) :
    (∀ i : Fin 20, i.val ∈ allocatedFiles s.files (executed s.loaderScript) →
      load s'.mem (s'.fileAddress i) (s.fileSize i) =
        fileImage s.files s'.nameAddr i (executed s.loaderScript) (s.fileContent i)) ∧
    (∀ a, (∀ i : Fin 20, i.val ∈ allocatedFiles s.files (executed s.loaderScript) →
      ¬ Within (s'.fileAddress i) (s.fileSize i) a) → s'.mem a = s.mem a) ∧
    (∀ i : Fin 20, i.val ∉ allocatedFiles s.files (executed s.loaderScript) →
      s'.fileAddress i = 0#32) ∧
    OnlyTables s s' := by
  obtain ⟨dev, hdev, hscript⟩ := extractAcpi_ok hrun
  obtain ⟨placed, hmem, -, hload⟩ := runScript_loaded hzones s.loaderScript
    (loaded_nil hfresh hdev) hscript honce (by simp) hfield hwrap
  have hplaced : ∀ i : Fin 20, i ∈ placed ↔
      i.val ∈ allocatedFiles s.files (executed s.loaderScript) := by
    simpa using hmem
  refine ⟨?_, ?_, ?_, hload.same⟩
  · intro i hi
    exact hload.bytes i ((hplaced i).mpr hi)
  · intro a ha
    exact hload.frame a fun i hi => ha i ((hplaced i).mp hi)
  · intro i hi
    exact (hload.fresh i fun hin => hi ((hplaced i).mp hin)).1

/-- A machine whose script places an 8-byte table and adds the address of the
table to its first word. -/
def selfPointerMachine : Firmware :=
  { Firmware.initial
      { entry := fun key =>
          if key = 0x20#16 then
            padTo 128 (toLE 4 1 ++ padTo 56 (cstring ['T']) ++ toLE 4 16 ++ [1#8]) ++
              padTo 128 (toLE 4 2 ++ padTo 56 (cstring ['T']) ++ padTo 56 (cstring ['T']) ++
                toLE 4 0 ++ [4#8])
          else [4#8, 0#8, 0#8, 0#8, 5#8, 6#8, 7#8, 8#8]
        key := 0#16
        pos := 0 }
      (fun _ => 0#8) 0xf0000#32 0xf4000#32 with
    files :=
      [{ size := 256#32, select := 0x20#16, name := paddedName tableLoaderName },
       { size := 8#32, select := 0x21#16, name := paddedName (cstring ['T']) }] }

theorem extractAcpi_refines_selfPointer :
    let s' := StateRun.final (extractAcpi selfPointerMachine)
    load s'.mem (s'.fileAddress 1) 8 =
      [0xf4#8, 0xff#8, 0x0e#8, 0x00#8, 5#8, 6#8, 7#8, 8#8] := by
  intro s'
  have hscript : executed selfPointerMachine.loaderScript =
      [.alloc (padTo 56 (cstring ['T'])) 16#32 1#8,
       .ptr (padTo 56 (cstring ['T'])) (padTo 56 (cstring ['T'])) 0#32 4#8] := by
    decide +kernel
  have hfile : fileIndex selfPointerMachine.files (padTo 56 (cstring ['T'])) = some 1 := by
    decide +kernel
  have hsize : selfPointerMachine.fileSize 1 = 8 := rfl
  have hrun : extractAcpi selfPointerMachine = .ok () s' :=
    StateRun.eq_ok_of_returned (by decide +kernel)
  have hwrap : ∀ new, s'.allocs = new ++ selfPointerMachine.allocs → ∀ a ∈ new, a.NoWrap := by
    intro new hnew
    have hall : ∀ a ∈ s'.allocs, a.NoWrap := by decide +kernel
    have hnil : selfPointerMachine.allocs = [] := rfl
    rw [hnil, List.append_nil] at hnew
    rwa [hnew] at hall
  have hfield : ∀ cmd ∈ executed selfPointerMachine.loaderScript,
      cmd.FieldInFile selfPointerMachine.files selfPointerMachine.fileSize := by
    rw [hscript]
    simp [LoaderCmd.FieldInFile, hfile, hsize]
  have honce : (allocatedFiles selfPointerMachine.files
      (executed selfPointerMachine.loaderScript)).Nodup := by
    rw [hscript]
    simp [allocatedFiles, LoaderCmd.allocates, hfile]
  have himage := (extractAcpi_refines hrun (fun _ => rfl) (by decide) honce hfield hwrap).1 1
    (by rw [hscript]; simp [allocatedFiles, LoaderCmd.allocates, hfile])
  have haddr : s'.nameAddr (padTo 56 (cstring ['T'])) = 0xefff0#32 := by decide +kernel
  rw [hscript] at himage
  simp only [fileImage, List.foldl, LoaderCmd.onFile, hfile, haddr] at himage
  exact himage

end Qboot
