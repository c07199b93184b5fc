import Qboot.Bios.PciCalls
import Qboot.Boot.Stages
import Qboot.FwCfg.Directory
import Qboot.Mptable.Published

/-!
The memory that each stage of `main` writes. Every stage but two stays in the
blocks that it allocates; the vector table and the MP table have fixed places.
-/

namespace Qboot

open Bytes ByteMemory

/-- The last kilobyte below 640 KiB. -/
def InEbda (a : BitVec 32) : Prop := 0x9fc00 ≤ a.toNat ∧ a.toNat < 0xa0000

section Writes

variable {β : Type} {f : Firmware → β} {area : BitVec 32 → Prop} {s t : Firmware}

/-- A part of a block lies in the block. -/
theorem within_part {p a : BitVec 32} {k j n : Nat} (h : Within (p + BitVec.ofNat 32 k) j a)
    (hk : k + j ≤ n) (hn : n ≤ 2 ^ 32) : Within p n a := by
  have hpos : 0 < j := by
    unfold Within at h
    omega
  have hshift := (within_shift (by omega) hpos).mp h
  unfold Within
  omega

/-- Fields inside a block leave everything outside it. -/
theorem storeFields_outside (m : Mem) {p a : BitVec 32} {fields : List (Nat × List Byte)} {n : Nat}
    (hin : ∀ g ∈ fields, g.1 + g.2.length ≤ n) (hn : n ≤ 2 ^ 32) (ha : ¬ Within p n a) :
    storeFields m p fields a = m a := by
  induction fields generalizing m with
  | nil => rfl
  | cons g fields ih =>
    have hrest := ih (store m (p + BitVec.ofNat 32 g.1) g.2) fun g' hg' => hin g' (by simp [hg'])
    exact hrest.trans (store_of_not_within m fun h => ha (within_part h (hin g (by simp)) hn))

/-- A block that is allocated and filled. -/
theorem Touched.withBlock (hf : Settled f) (s : Firmware) (a : Alloc) {bs : List Byte}
    (hbs : bs.length ≤ a.size.toNat) :
    Touched f area [a] s ((s.allocate a).withBlock a.base bs) := by
  have hstore : Touched f (fun x => area x ∨ Within a.base a.size.toNat x) [] (s.allocate a)
      ((s.allocate a).withBlock a.base bs) := by
    apply Touched.of_mem hf
    intro x hx
    apply store_of_not_within
    intro hin
    exact hx (Or.inr (Nat.lt_of_lt_of_le hin hbs))
  exact hstore.allocate hf

/-! ### The directory -/

/-- `f` also does not see the variables of fw_cfg.c. -/
structure SettledSetup (f : Firmware → β) : Prop extends Settled f where
  version : ∀ (s : Firmware) (v : BitVec 32), f { s with version := v } = f s
  files : ∀ (s : Firmware) (l : List FwCfgFile), f { s with files := l } = f s

theorem swapFile_touches (hf : Settled f) {p : BitVec 32} {k n : Nat} (hk : k + 64 ≤ n)
    (hn : n ≤ 2 ^ 32) (h : ∀ a, Within p n a → area a) :
    Touches f area (swapFile (p + BitVec.ofNat 32 k)) := by
  have hselect : p + BitVec.ofNat 32 k + 4#32 = p + BitVec.ofNat 32 (k + 4) := by
    rw [BitVec.add_assoc, BitVec.ofNat_add]
  apply Touches.get.bind
  intro s
  apply (Touches.poke_part hf (by rw [length_toLE]; omega) hn h).bind
  intro _
  rw [hselect]
  exact Touches.poke_part hf (by rw [length_toLE]; omega) hn h

/-- `fwCfgSetup` once it knows the number of records. -/
def readDirectory (n : BitVec 32) : Fw Unit := do
  let files ← mallocFseg (64#32 * n)
  fwCfgRead files (64#32 * n)
  forM (List.range n.toInt.toNat) fun i => swapFile (files + BitVec.ofNat 32 (fwCfgFileBytes * i))
  modify fun s => { s with
    files := (List.range n.toInt.toNat).map fun i =>
      decodeFile s.mem (files + BitVec.ofNat 32 (fwCfgFileBytes * i)) }

theorem fwCfgSetup_eq (s : Firmware) : ∃ version, fwCfgSetup s = readDirectory s.dev.fileCount
    { { s with dev := (s.dev.select FW_CFG_FILE_DIR).skip 4 } with version := version } := by
  refine ⟨BitVec.ofNat 32 (ofLE ((s.dev.select FW_CFG_ID).next 4)), ?_⟩
  refine (StateRun.bind_of_ok (fwCfgSelect_apply _ _)).trans
    ((StateRun.bind_of_ok (fwCfgReadlLe_apply _)).trans
      ((StateRun.bind_of_ok (StateRun.modify_apply _ _)).trans
        ((StateRun.bind_of_ok (fwCfgSelect_apply _ _)).trans
          ((StateRun.bind_of_ok (fwCfgReadlBe_apply _)).trans ?_))))
  rfl

/-- A directory whose size does not overflow is swapped in its block. -/
theorem readDirectory_touches (hf : SettledSetup f) {n : BitVec 32}
    (hn : 64 * n.toInt.toNat < 2 ^ 32) : Touches f area (readDirectory n) := by
  apply Touches.mallocIn hf.toSettled .fseg
  intro files
  apply (Touches.read hf.toSettled fun a ha => Or.inr ha).bind
  intro _
  refine (Touches.forM _ fun i hi => ?_).bind fun _ => ?_
  · have hlt : i < n.toInt.toNat := List.mem_range.mp hi
    have hsize : (64#32 * n).toNat = 64 * n.toNat % 2 ^ 32 := BitVec.toNat_mul 64#32 n
    have hnat : n.toInt.toNat = n.toNat := by
      rw [BitVec.toInt_eq_toNat_cond] at hlt ⊢
      split at hlt
      · rename_i hpos
        rw [if_pos hpos, Int.toNat_natCast]
      · have := n.isLt
        omega
    apply swapFile_touches hf.toSettled _ (64#32 * n).isLt.le fun a ha => Or.inr ha
    rw [hsize, fwCfgFileBytes]
    omega
  · exact Touches.modify (fun _ => rfl) (fun _ => rfl) fun u => hf.files u _

theorem fwCfgSetup_touched (hf : SettledSetup f) (area : BitVec 32 → Prop) (s : Firmware)
    (hcount : 64 * s.dev.fileCount.toInt.toNat < 2 ^ 32) :
    ∃ new, Touched f area new s (StateRun.final (fwCfgSetup s)) := by
  obtain ⟨version, heq⟩ := fwCfgSetup_eq s
  let read : Firmware := { s with dev := (s.dev.select FW_CFG_FILE_DIR).skip 4 }
  have hdev : Touched f area [] s read := Touched.of_dev hf.toSettled s rfl
  have hversion : Touched f area [] read { read with version := version } :=
    ⟨rfl, fun _ _ _ => rfl, hf.version read version⟩
  obtain ⟨new, hrest⟩ := readDirectory_touches hf hcount { read with version := version }
  rw [heq]
  exact ⟨_, (hdev.trans hversion).trans hrest⟩

/-! ### The table loader -/

/-- A script that returns owns its blocks. -/
theorem OwnsBlocks.runScript {new : List Alloc} {u v : Firmware} (h : OwnsBlocks s u new)
    {script : List LoaderCmd} (hrun : runScript script u = .ok () v)
    (hok : ∀ cmd w, Reaches script u cmd w → cmd.IndexOk w ∧ cmd.Inside w) :
    ∃ new', OwnsBlocks s v new' := by
  induction script generalizing u new with
  | nil =>
    obtain rfl : u = v := (EStateM.Result.ok.inj hrun).2
    exact ⟨new, h⟩
  | cons cmd rest ih =>
    by_cases hquit : cmd = .quit
    · subst hquit
      obtain rfl : u = v := (EStateM.Result.ok.inj hrun).2
      exact ⟨new, h⟩
    · rw [runScript_cons hquit] at hrun
      obtain ⟨⟨⟩, w, hcmd, hrest⟩ := StateRun.bind_ok.mp hrun
      obtain ⟨hindex, hinside⟩ := hok _ _ (.here hquit)
      obtain ⟨new', hnext⟩ := h.step hcmd hindex hinside
      exact ih hnext hrest fun cmd x hreach => hok cmd x (.next hquit hcmd hreach)

theorem extractAcpi_touched (hf : SettledAcpi f) (area : BitVec 32 → Prop)
    (hfresh : ∀ i, s.fileAddress i = 0#32)
    (hok : ∀ cmd u, s.AcpiReaches cmd u → cmd.IndexOk u ∧ cmd.Inside u)
    (hrun : extractAcpi s = .ok () t) : ∃ new, Touched f area new s t := by
  by_cases hwhole : s.ScriptWhole
  · have hscript := hrun
    rw [extractAcpi_eq hwhole] at hscript
    obtain ⟨new, howns⟩ := (OwnsBlocks.start hfresh).runScript hscript
      fun cmd u hreach => hok cmd u ⟨hwhole, hreach⟩
    obtain ⟨_, hkept⟩ := extractAcpi_spares hf s
    rw [hrun] at hkept
    exact ⟨new, howns.allocs, fun a _ => howns.frame a, hkept.kept⟩
  · rw [extractAcpi_overruns hwhole] at hrun
    cases hrun

/-! ### The memory map -/

theorem extractE820_touched (hf : SettledE820 f) (area : BitVec 32 → Prop) {i : Nat}
    (hfile : fileIndex s.files e820Name = some i) (hmult : e820EntryBytes ∣ s.fileSize i)
    (hfit : 104 + s.fileSize i < 2 ^ 32) (hrun : extractE820 s = .ok () t) :
    Touched f area [s.e820Block (s.fileSize i)] s t := by
  have hcontent := length_fileContent (fileIndex_lt hfile)
  obtain ⟨dev, happly⟩ := extractE820_apply hfile hfit
  have hmem := store_e820Final s (s.fileContent i) (by rwa [hcontent]) (by rwa [hcontent])
  rw [hcontent] at hmem
  have hscanned := length_e820Scanned s (s.fileContent i)
  have hextra := length_mmconfigEntries_le s.haveMmconfig
  have hsize : (s.e820Block (s.fileSize i)).size.toNat = 104 + s.fileSize i := by
    rw [e820Block_size hmult, Nat.mod_eq_of_lt hfit]
  obtain ⟨_, hkept⟩ := extractE820_spares hf s
  rw [hrun] at hkept
  refine ⟨extractE820_allocs hfile hrun, fun a _ hblocks => ?_, hkept.kept⟩
  rw [happly] at hrun
  obtain ⟨-, rfl⟩ := EStateM.Result.ok.inj hrun
  have hout := hblocks _ (List.mem_singleton_self _)
  rw [hsize] at hout
  rw [hmem]
  apply store_of_not_within
  obtain ⟨k, hk⟩ := hmult
  have hbytes : e820EntryBytes = 20 := rfl
  have hdiv : s.fileSize i / e820EntryBytes = k := by
    rw [hk, Nat.mul_div_cancel_left k (by decide)]
  rw [hcontent] at hscanned
  rw [List.length_append, length_toLE, length_encodeEntries, List.length_append,
    List.length_append, length_rebaseFirst, hscanned, hdiv,
    show fixedEntries.length = 4 from rfl]
  rw [hbytes] at hk ⊢
  intro hin
  apply hout
  unfold Within at hin ⊢
  omega

/-! ### The MP table -/

theorem setupMptable_touched (hf : Settled f)
    (hdev : ∀ (u : Firmware) (d : FwCfg), f { u with dev := d } = f u)
    (stepping features : BitVec 32) (s : Firmware) (hcpus : s.dev.numCpus ≤ 40) :
    Touched f InEbda [] s (StateRun.final (setupMptable stepping features s)) := by
  have hheap := setupMptable_keepsHeap stepping features s.heap s rfl
  have hn : s.dev.numCpus.toNat ≤ 40 := by omega
  obtain ⟨dev, hrun⟩ := setupMptable_apply stepping features s (by omega)
  refine ⟨congrArg (fun heap => heap.2.2) hheap, fun a ha _ => staysInEbda_of_le hcpus s.mem a ha,
    ?_⟩
  rw [hrun]
  exact (hf.mem { s with dev := dev } _).trans (hdev s dev)

/-! ### The SMBIOS tables -/

section Smbios

variable (hf : Settled f)

include hf

theorem updateHalf_touches {p : BitVec 32} {k n : Nat} (hk : k + 2 ≤ n) (hn : n ≤ 2 ^ 32)
    (h : ∀ a, Within p n a → area a) (g : BitVec 16 → BitVec 16) :
    Touches f area (updateHalf (p + BitVec.ofNat 32 k) g) :=
  (Touches.peek _ _).bind fun _ => Touches.poke_part hf (by rwa [length_toLE]) hn h

/-- The entry point and the space below the tables are written. -/
theorem publishSmbios_touches {ep qtables : BitVec 32} {qtablesLength : BitVec 16}
    (hep : ∀ a, Within ep smbiosEntryPointBytes a → area a)
    (htype0 : ∀ a, Within (qtables - BitVec.ofNat 32 t0Len) t0Len a → area a) :
    Touches f area (publishSmbios ep qtables qtablesLength) := by
  have hpart (k : Nat) (bs : List Byte) (hk : k + bs.length ≤ 31) :
      Touches f area (poke (ep + BitVec.ofNat 32 k) bs) := Touches.poke_part hf hk (by decide) hep
  have hhalf (k : Nat) (hk : k + 2 ≤ 31) (g : BitVec 16 → BitVec 16) :
      Touches f area (updateHalf (ep + BitVec.ofNat 32 k) g) :=
    updateHalf_touches hf hk (by decide) hep g
  have hnew : Touches f area (smbiosNewType0 (qtables - BitVec.ofNat 32 t0Len) (some BIOS_NAME)
      (some VERSION) (some BIOS_DATE)) :=
    Touches.of_mem hf (smbiosNewType0_apply _) fun s a ha =>
      storeFields_outside s.mem biosFields_inside (by decide) fun hin => ha (htype0 a hin)
  have hbyte (k : Nat) (x : Byte) (hk : k + 1 ≤ 31) :
      Touches f area (poke (ep + BitVec.ofNat 32 k) [x]) := hpart k [x] hk
  have hsums : Touches f area (fixChecksums ep) :=
    Touches.get.bind fun _ => (hbyte 4 _ (by decide)).bind fun _ => Touches.get.bind fun _ =>
      hbyte 21 _ (by decide)
  have hadd : Touches f area (addType0 ep qtables) := by
    apply hnew.bind
    intro _
    apply (hhalf 28 (by decide) _).bind
    intro _
    apply (Touches.peek _ _).bind
    intro bs
    apply (hpart 24 _ (by rw [length_toLE]; decide)).bind
    intro _
    exact (hhalf 22 (by decide) _).bind fun _ => hhalf 8 (by decide) _
  apply (hpart 24 _ (by rw [length_toLE]; decide)).bind
  intro _
  apply (hpart 22 _ (by rw [length_toLE]; decide)).bind
  intro _
  exact Touches.get.bind fun _ => Touches.ite (hadd.bind fun _ => hsums) hsums

theorem extractSmbios_touches (area : BitVec 32 → Prop) : Touches f area extractSmbios := by
  apply (Touches.fileId _).bind
  intro id
  apply (Touches.fileSize _).bind
  intro size
  apply Touches.ite (Touches.pure _)
  apply Touches.mallocIn hf .fseg
  intro ep
  apply Touches.ite (Touches.pure _)
  apply (Touches.readFile hf fun a ha => Or.inr ha).bind
  intro _
  apply (Touches.peek _ _).bind
  intro bs
  generalize BitVec.ofNat 16 (ofLE bs) = n
  apply (Touches.fileId _).bind
  intro id
  apply (Touches.fileSize _).bind
  intro size
  apply Touches.ite (Touches.pure _)
  apply Touches.mallocIn hf .fseg
  intro q
  have hroom : (n.setWidth 32 + BitVec.ofNat 32 t0Len).toNat = n.toNat + t0Len := by
    have hlt := n.isLt
    have ht0 : (BitVec.ofNat 32 t0Len).toNat = 46 := rfl
    rw [BitVec.toNat_add, BitVec.toNat_setWidth, ht0, show t0Len = 46 from rfl]
    omega
  have hlen : (n.setWidth 32).toNat = n.toNat := by
    have hlt := n.isLt
    rw [BitVec.toNat_setWidth]
    omega
  have htables : ∀ a, Within (q + BitVec.ofNat 32 t0Len) (n.setWidth 32).toNat a →
      Within q (n.setWidth 32 + BitVec.ofNat 32 t0Len).toNat a := by
    intro a ha
    apply within_part ha _ (BitVec.isLt _).le
    rw [hroom, hlen, Nat.add_comm]
  apply Touches.ite (Touches.pure _)
  apply (Touches.readFile hf fun a ha => Or.inr (htables a ha)).bind
  intro _
  apply publishSmbios_touches hf
  · exact fun a ha => Or.inl (Or.inr ha)
  · intro a ha
    rw [BitVec.add_sub_cancel] at ha
    right
    rw [hroom]
    exact Nat.lt_of_lt_of_le ha (Nat.le_add_left _ _)

end Smbios

end Writes

end Qboot
