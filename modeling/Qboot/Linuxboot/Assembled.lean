import Qboot.Linuxboot.Boot
import Qboot.Linuxboot.Placement

/-!
What is in memory when `boot_from_fwcfg` jumps to a bzImage. The setup part is
read in two pieces, and its header is patched between them while the device
keeps its place in the entry.
-/

namespace Qboot

open Bytes ByteMemory

/-! ### What the device decides -/

namespace FwCfg

/-- The sizes and addresses that `boot_from_fwcfg` reads. -/
def linuxbootArgs (d : FwCfg) : LinuxbootArgs :=
  { setupAddr := d.word FW_CFG_SETUP_ADDR, cmdlineAddr := 0#32, kernelAddr := 0#32,
    initrdAddr := 0#32, setupSize := 0#32, kernelSize := 0#32,
    cmdlineSize := d.word FW_CFG_CMDLINE_SIZE,
    vmlinuzSize := d.word FW_CFG_KERNEL_SIZE + d.word FW_CFG_SETUP_SIZE,
    initrdSize := d.word FW_CFG_INITRD_SIZE }

/-- The first `n` bytes of SETUP_DATA. -/
def setupData (d : FwCfg) (n : Nat) : List Byte := entryBytes (d.entry FW_CFG_SETUP_DATA) 0 n

/-- The part of SETUP_DATA that is read to find out what it is. -/
def setupPeek (d : FwCfg) : List Byte := d.setupData HEADER_PEEK_SIZE.toNat

/-- The arguments that `boot_bzimage` gets. -/
def bzImageArgs (d : FwCfg) (lowmem : BitVec 32) : LinuxbootArgs :=
  bzArgs d.linuxbootArgs d.setupPeek lowmem

/-- The patches of `parse_bzimage`. -/
def setupPatches (d : FwCfg) (lowmem : BitVec 32) : List (Nat × List Byte) :=
  headerPatches d.setupPeek lowmem (d.word FW_CFG_CMDLINE_SIZE) (d.word FW_CFG_INITRD_SIZE)

/-- The number of bytes read from SETUP_DATA. -/
def setupRead (d : FwCfg) (lowmem : BitVec 32) : Nat :=
  max (d.bzImageArgs lowmem).setupSize.toNat HEADER_PEEK_SIZE.toNat

/-- The four parts in the order in which they are loaded. -/
def imageBlocks (d : FwCfg) (lowmem : BitVec 32) : List (BitVec 32 × List Byte) :=
  let args := d.bzImageArgs lowmem
  [(args.setupAddr, patchFields (d.setupData (d.setupRead lowmem)) (d.setupPatches lowmem)),
   (args.kernelAddr,
     entryBytes (d.entry FW_CFG_KERNEL_DATA) 0 (d.word FW_CFG_KERNEL_SIZE).toNat),
   (args.cmdlineAddr, entryBytes (d.entry FW_CFG_CMDLINE_DATA) 0 args.cmdlineSize.toNat),
   (args.initrdAddr, entryBytes (d.entry FW_CFG_INITRD_DATA) 0 args.initrdSize.toNat)]

end FwCfg

/-- The destinations of the four parts do not meet. The setup part takes as
much room as was read of it. -/
def PartsApart (args : LinuxbootArgs) (kernelSize : BitVec 32) : Prop :=
  [(args.setupAddr, max args.setupSize.toNat HEADER_PEEK_SIZE.toNat),
   (args.kernelAddr, kernelSize.toNat), (args.cmdlineAddr, args.cmdlineSize.toNat),
   (args.initrdAddr, args.initrdSize.toNat)].Pairwise fun p q => Apart p.1 p.2 q.1 q.2

/-- The image of the device `d` is in memory: each part is its entry, and the
setup part has the patches of `parse_bzimage` and no others. -/
structure Assembled (d : FwCfg) (lowmem : BitVec 32) (m : Mem) (args : LinuxbootArgs) : Prop where
  setup : load m args.setupAddr args.setupSize.toNat =
    patchFields (d.setupData args.setupSize.toNat) (d.setupPatches lowmem)
  kernel : load m args.kernelAddr (d.word FW_CFG_KERNEL_SIZE).toNat =
    entryBytes (d.entry FW_CFG_KERNEL_DATA) 0 (d.word FW_CFG_KERNEL_SIZE).toNat
  cmdline : load m args.cmdlineAddr args.cmdlineSize.toNat =
    entryBytes (d.entry FW_CFG_CMDLINE_DATA) 0 args.cmdlineSize.toNat
  initrd : load m args.initrdAddr args.initrdSize.toNat =
    entryBytes (d.entry FW_CFG_INITRD_DATA) 0 args.initrdSize.toNat

/-! ### The two pieces of the setup part -/

section Setup

variable {d : FwCfg} {lowmem : BitVec 32}

@[simp] theorem length_setupData (d : FwCfg) (n : Nat) : (d.setupData n).length = n :=
  length_entryBytes _ _ _

theorem setupPatches_in {n : Nat} (h : 0x230 ≤ n) :
    ∀ f ∈ d.setupPatches lowmem, f.1 + f.2.length ≤ (d.setupData n).length := by
  intro f hf
  rw [length_setupData]
  exact (headerPatches_at hf).2.1.trans h

theorem length_patchedSetup {n : Nat} (h : 0x230 ≤ n) :
    (patchFields (d.setupData n) (d.setupPatches lowmem)).length = n := by
  rw [length_patchFields (setupPatches_in h), length_setupData]

/-- Bytes behind the header are read after it was patched. -/
theorem patchedSetup_add {n k : Nat} (h : 0x230 ≤ n) :
    patchFields (d.setupData (n + k)) (d.setupPatches lowmem) =
      patchFields (d.setupData n) (d.setupPatches lowmem) ++
        entryBytes (d.entry FW_CFG_SETUP_DATA) n k := by
  have hsplit : d.setupData (n + k) =
      d.setupData n ++ entryBytes (d.entry FW_CFG_SETUP_DATA) n k := by
    rw [FwCfg.setupData, entryBytes_add, Nat.zero_add]
    rfl
  rw [hsplit, patchFields_append_left (setupPatches_in h)]

theorem slice_patchedSetup {n k : Nat} (hn : 0x230 ≤ n) (hk : n ≤ k) :
    slice (patchFields (d.setupData k) (d.setupPatches lowmem)) 0 n =
      patchFields (d.setupData n) (d.setupPatches lowmem) := by
  obtain ⟨j, rfl⟩ := Nat.exists_eq_add_of_le hk
  have hlen := @length_patchedSetup d lowmem n hn
  have hfirst := slice_append_middle [] (patchFields (d.setupData n) (d.setupPatches lowmem))
    (entryBytes (d.entry FW_CFG_SETUP_DATA) n j)
  rw [List.nil_append, hlen] at hfirst
  rw [patchedSetup_add hn]
  exact hfirst

theorem le_setupSize : 0x230 ≤ (d.bzImageArgs lowmem).setupSize.toNat := by
  have hbounds := setupBytes_bounds (bzSetupSects d.setupPeek)
  rw [FwCfg.bzImageArgs, toNat_setupSize]
  exact le_trans (by decide) hbounds.1

theorem le_setupRead : 0x230 ≤ d.setupRead lowmem := le_setupSize.trans (le_max_left _ _)

end Setup

/-! ### The run -/

section Run

variable (s : Firmware) (d : FwCfg) (lowmem : BitVec 32)

/-- The machine with the first `n` bytes of the setup part, their header
patched, and the device where it stands after them. -/
def Firmware.withSetup (s : Firmware) (d : FwCfg) (lowmem : BitVec 32) (n : Nat) : Firmware :=
  { s with
    mem := store s.mem (d.bzImageArgs lowmem).setupAddr
      (patchFields (d.setupData n) (d.setupPatches lowmem))
    dev := (d.select FW_CFG_SETUP_DATA).skip n }

/-- Reading on behind the first `n` bytes of the setup part. -/
theorem fwCfgRead_withSetup {p len : BitVec 32} {n : Nat} (hn : 0x230 ≤ n)
    (hmax : n + len.toNat ≤ 2 ^ 32)
    (hp : p = (d.bzImageArgs lowmem).setupAddr + BitVec.ofNat 32 n) :
    fwCfgRead p len (s.withSetup d lowmem n) =
      .ok () (s.withSetup d lowmem (n + len.toNat)) := by
  have hlen := @length_patchedSetup d lowmem n hn
  have happend := @store_append 32 s.mem (d.bzImageArgs lowmem).setupAddr
    (patchFields (d.setupData n) (d.setupPatches lowmem))
    (entryBytes (d.entry FW_CFG_SETUP_DATA) n len.toNat) (by rwa [hlen, length_entryBytes])
  rw [hlen, ← patchedSetup_add hn, ← hp] at happend
  rw [fwCfgRead_apply, Firmware.withSetup, Firmware.withSetup, FwCfg.next_select_skip,
    FwCfg.skip_skip, happend]

/-- The second piece of the setup part continues the first one. -/
theorem readSetup_apply (hsize : (d.bzImageArgs lowmem).setupSize > HEADER_PEEK_SIZE) :
    fwCfgRead ((d.bzImageArgs lowmem).setupAddr + HEADER_PEEK_SIZE)
        ((d.bzImageArgs lowmem).setupSize - HEADER_PEEK_SIZE)
        (s.withSetup d lowmem HEADER_PEEK_SIZE.toNat) =
      .ok () (s.withSetup d lowmem (d.setupRead lowmem)) := by
  have hlt := BitVec.lt_def.mp hsize
  have hrest := BitVec.toNat_sub_of_le (BitVec.le_def.mpr hlt.le)
  have hread : HEADER_PEEK_SIZE.toNat +
      ((d.bzImageArgs lowmem).setupSize - HEADER_PEEK_SIZE).toNat = d.setupRead lowmem := by
    rw [hrest, Nat.add_sub_of_le hlt.le, FwCfg.setupRead, max_eq_left hlt.le]
  have hbound := (d.bzImageArgs lowmem).setupSize.isLt
  have hrun := @fwCfgRead_withSetup s d lowmem _ _ HEADER_PEEK_SIZE.toNat (by decide)
    (by rw [hrest, Nat.add_sub_of_le hlt.le]; exact hbound.le) rfl
  rwa [hread] at hrun

/-- An initrd of no bytes is not read, which leaves the memory the same. -/
theorem readInitrd_apply {β : Type} (addr size : BitVec 32) (k : Unit → Fw β) : ∃ s',
    (if size ≠ 0#32 then
      fwCfgReadEntry (FW_CFG_INITRD_DATA.setWidth 32) addr size >>= k else k ()) s = k () s' ∧
      s'.mem = store s.mem addr (entryBytes (s.dev.entry FW_CFG_INITRD_DATA) 0 size.toNat) := by
  by_cases hsize : size ≠ 0#32
  · exact ⟨_, StateRun.ite_bind_of_ok (fun _ => fwCfgReadEntry_apply _ _ _ _)
      fun hzero => absurd hsize hzero, rfl⟩
  · refine ⟨s, StateRun.ite_bind_of_ok (fun hpos => absurd hpos hsize) fun _ => rfl, ?_⟩
    rw [not_not.mp hsize]
    exact (store_nil _ _).symm

/-- What is loaded behind the setup part. -/
def loadParts (args : LinuxbootArgs) (kernelSize : BitVec 32) : Fw Unit := do
  fwCfgSelect FW_CFG_KERNEL_DATA
  fwCfgReadEntry (FW_CFG_KERNEL_DATA.setWidth 32) args.kernelAddr kernelSize
  fwCfgReadEntry (FW_CFG_CMDLINE_DATA.setWidth 32) args.cmdlineAddr args.cmdlineSize
  if args.initrdSize ≠ 0#32 then
    fwCfgReadEntry (FW_CFG_INITRD_DATA.setWidth 32) args.initrdAddr args.initrdSize
  throw (Stop.bzImage args)

theorem loadBzimage_eq (args : LinuxbootArgs) (kernelSize : BitVec 32) :
    loadBzimage args kernelSize =
      if args.setupSize > HEADER_PEEK_SIZE then
        fwCfgRead (args.setupAddr + HEADER_PEEK_SIZE) (args.setupSize - HEADER_PEEK_SIZE) >>=
          fun _ => loadParts args kernelSize
      else loadParts args kernelSize := rfl

theorem loadParts_apply (args : LinuxbootArgs) (kernelSize : BitVec 32) : ∃ s',
    loadParts args kernelSize s = .error (.bzImage args) s' ∧
      s'.mem = storeBlocks s.mem
        [(args.kernelAddr, entryBytes (s.dev.entry FW_CFG_KERNEL_DATA) 0 kernelSize.toNat),
         (args.cmdlineAddr, entryBytes (s.dev.entry FW_CFG_CMDLINE_DATA) 0 args.cmdlineSize.toNat),
         (args.initrdAddr, entryBytes (s.dev.entry FW_CFG_INITRD_DATA) 0 args.initrdSize.toNat)] := by
  obtain ⟨s', hinitrd, hmem⟩ := @readInitrd_apply { s with
    mem := store (store s.mem args.kernelAddr
        (entryBytes (s.dev.entry FW_CFG_KERNEL_DATA) 0 kernelSize.toNat))
      args.cmdlineAddr (entryBytes (s.dev.entry FW_CFG_CMDLINE_DATA) 0 args.cmdlineSize.toNat)
    dev := (s.dev.select FW_CFG_CMDLINE_DATA).skip args.cmdlineSize.toNat } Unit args.initrdAddr
    args.initrdSize fun _ => throw (Stop.bzImage args)
  refine ⟨s', (StateRun.bind_of_ok (fwCfgSelect_apply _ _)).trans
    ((StateRun.bind_of_ok (fwCfgReadEntry_apply _ _ _ _)).trans
      ((StateRun.bind_of_ok (fwCfgReadEntry_apply _ _ _ _)).trans hinitrd)), hmem⟩

/-- All parts of the image, loaded in the order of the code. -/
theorem loadBzimage_apply : ∃ s',
    loadBzimage (d.bzImageArgs lowmem) (d.word FW_CFG_KERNEL_SIZE)
        (s.withSetup d lowmem HEADER_PEEK_SIZE.toNat) =
      .error (.bzImage (d.bzImageArgs lowmem)) s' ∧
      s'.mem = storeBlocks s.mem (d.imageBlocks lowmem) := by
  obtain ⟨s', hparts, hmem⟩ := loadParts_apply (s.withSetup d lowmem (d.setupRead lowmem))
    (d.bzImageArgs lowmem) (d.word FW_CFG_KERNEL_SIZE)
  have hblocks : d.imageBlocks lowmem = ((d.bzImageArgs lowmem).setupAddr,
      patchFields (d.setupData (d.setupRead lowmem)) (d.setupPatches lowmem)) :: _ := rfl
  have hstart : (s.withSetup d lowmem (d.setupRead lowmem)).mem =
      store s.mem (d.bzImageArgs lowmem).setupAddr
        (patchFields (d.setupData (d.setupRead lowmem)) (d.setupPatches lowmem)) := by
    rw [Firmware.withSetup]
  have hentry : (s.withSetup d lowmem (d.setupRead lowmem)).dev.entry = d.entry := rfl
  rw [hstart, hentry, ← storeBlocks_cons] at hmem
  refine ⟨s', ?_, hmem.trans (congrArg _ hblocks.symm)⟩
  rw [loadBzimage_eq, ← hparts]
  split
  · rename_i hlarge
    rw [StateRun.bind_of_ok (readSetup_apply s d lowmem hlarge)]
  · rename_i hsmall
    have hle : (d.bzImageArgs lowmem).setupSize.toNat ≤ HEADER_PEEK_SIZE.toNat :=
      BitVec.le_def.mp (BitVec.not_lt.mp hsmall)
    rw [FwCfg.setupRead, max_eq_right hle]

/-- A kernel that `parse_bzimage` knows is loaded from its patched header on. -/
theorem bootKernel_loads (hbz : IsBzimage s.dev.setupPeek) :
    bootKernel s.dev.linuxbootArgs (s.dev.word FW_CFG_KERNEL_SIZE) s =
      (loadBzimage (s.dev.bzImageArgs s.lowmem) (s.dev.word FW_CFG_KERNEL_SIZE))
        (s.withSetup s.dev s.lowmem HEADER_PEEK_SIZE.toNat) := by
  have hparse := @parseBzimage_withBlock { s with
    dev := (s.dev.select FW_CFG_SETUP_DATA).skip HEADER_PEEK_SIZE.toNat } s.dev.linuxbootArgs
    s.dev.setupPeek (by rw [FwCfg.setupPeek, length_setupData]; decide)
    (by rw [FwCfg.setupPeek, length_setupData]; decide) hbz
  refine (StateRun.bind_of_ok (fwCfgSelect_apply _ _)).trans
    ((StateRun.bind_of_ok (fwCfgRead_apply _ _ _)).trans ((StateRun.bind_of_ok hparse).trans ?_))
  rfl

/-- A kernel that `parse_bzimage` knows is loaded and started. -/
theorem bootKernel_apply (hbz : IsBzimage s.dev.setupPeek) : ∃ s',
    bootKernel s.dev.linuxbootArgs (s.dev.word FW_CFG_KERNEL_SIZE) s =
      .error (.bzImage (s.dev.bzImageArgs s.lowmem)) s' ∧
      s'.mem = storeBlocks s.mem (s.dev.imageBlocks s.lowmem) := by
  obtain ⟨s', hload, hmem⟩ := loadBzimage_apply s s.dev s.lowmem
  exact ⟨s', (bootKernel_loads s hbz).trans hload, hmem⟩

/-- The sizes and addresses are read one after the other. -/
theorem bootFromFwcfg_apply (hsome : s.dev.linuxbootArgs.vmlinuzSize ≠ 0#32) :
    bootFromFwcfg s = bootKernel s.dev.linuxbootArgs (s.dev.word FW_CFG_KERNEL_SIZE)
      { s with dev := (s.dev.select FW_CFG_SETUP_ADDR).skip 4 } := by
  refine (StateRun.bind_of_ok (fwCfgSelect_apply _ _)).trans
    ((StateRun.bind_of_ok (fwCfgReadlLe_select _ _)).trans
      ((StateRun.bind_of_ok (fwCfgSelect_apply _ _)).trans
        ((StateRun.bind_of_ok (fwCfgReadlLe_select _ _)).trans
          ((StateRun.bind_of_ok (fwCfgSelect_apply _ _)).trans
            ((StateRun.bind_of_ok (fwCfgReadlLe_select _ _)).trans
              ((StateRun.bind_of_ok (fwCfgSelect_apply _ _)).trans
                ((StateRun.bind_of_ok (fwCfgReadlLe_select _ _)).trans
                  ((StateRun.bind_of_ok (fwCfgSelect_apply _ _)).trans
                    ((StateRun.bind_of_ok (fwCfgReadlLe_select _ _)).trans ?_)))))))))
  exact congrFun (if_neg hsome) _

end Run

/-- The blocks of the image lie apart if its parts do. -/
theorem imageBlocks_apart {d : FwCfg} {lowmem : BitVec 32}
    (h : PartsApart (d.bzImageArgs lowmem) (d.word FW_CFG_KERNEL_SIZE)) :
    (d.imageBlocks lowmem).Pairwise fun b c => Apart b.1 b.2.length c.1 c.2.length := by
  have hranges : (d.imageBlocks lowmem).map (fun b => (b.1, b.2.length)) =
      [((d.bzImageArgs lowmem).setupAddr, d.setupRead lowmem),
       ((d.bzImageArgs lowmem).kernelAddr, (d.word FW_CFG_KERNEL_SIZE).toNat),
       ((d.bzImageArgs lowmem).cmdlineAddr, (d.bzImageArgs lowmem).cmdlineSize.toNat),
       ((d.bzImageArgs lowmem).initrdAddr, (d.bzImageArgs lowmem).initrdSize.toNat)] := by
    rw [FwCfg.imageBlocks]
    simp only [List.map_cons, List.map_nil, length_patchedSetup le_setupRead, length_entryBytes]
  have hpairs : ((d.imageBlocks lowmem).map fun b => (b.1, b.2.length)).Pairwise
      fun p q => Apart p.1 p.2 q.1 q.2 := by
    rw [hranges]
    exact h
  exact List.pairwise_map.mp hpairs

theorem length_imageBlocks {d : FwCfg} {lowmem : BitVec 32} {b : BitVec 32 × List Byte}
    (hb : b ∈ d.imageBlocks lowmem) : b.2.length ≤ 2 ^ 32 := by
  have hsetup := (d.bzImageArgs lowmem).setupSize.isLt
  have hread : d.setupRead lowmem ≤ 2 ^ 32 := max_le hsetup.le (by decide)
  rw [FwCfg.imageBlocks] at hb
  simp only [List.mem_cons, List.not_mem_nil, or_false] at hb
  rcases hb with rfl | rfl | rfl | rfl
  · rwa [length_patchedSetup le_setupRead]
  · rw [length_entryBytes]
    exact (d.word FW_CFG_KERNEL_SIZE).isLt.le
  · rw [length_entryBytes]
    exact (d.bzImageArgs lowmem).cmdlineSize.isLt.le
  · rw [length_entryBytes]
    exact (d.bzImageArgs lowmem).initrdSize.isLt.le

/-- The blocks are the parts of the image. -/
theorem assembled_imageBlocks {d : FwCfg} {lowmem : BitVec 32} (m : Mem)
    (h : PartsApart (d.bzImageArgs lowmem) (d.word FW_CFG_KERNEL_SIZE)) :
    Assembled d lowmem (storeBlocks m (d.imageBlocks lowmem)) (d.bzImageArgs lowmem) := by
  have hload := fun b hb => @load_storeBlocks 32 m _ (imageBlocks_apart h)
    (fun _ hc => length_imageBlocks hc) b hb
  have hpart : ∀ (addr : BitVec 32) (key : BitVec 16) (n : Nat),
      (addr, entryBytes (d.entry key) 0 n) ∈ d.imageBlocks lowmem →
      load (storeBlocks m (d.imageBlocks lowmem)) addr n = entryBytes (d.entry key) 0 n := by
    intro addr key n hmem
    have hblock := hload _ hmem
    rwa [length_entryBytes] at hblock
  refine ⟨?_, ?_, ?_, ?_⟩
  · have hmem : ((d.bzImageArgs lowmem).setupAddr,
        patchFields (d.setupData (d.setupRead lowmem)) (d.setupPatches lowmem)) ∈
        d.imageBlocks lowmem := by
      rw [FwCfg.imageBlocks]
      exact List.mem_cons_self
    have hblock := hload _ hmem
    have hle : (d.bzImageArgs lowmem).setupSize.toNat ≤ d.setupRead lowmem := le_max_left _ _
    have hslice := @slice_load 32 (storeBlocks m (d.imageBlocks lowmem))
      (d.bzImageArgs lowmem).setupAddr (d.setupRead lowmem) 0
      (d.bzImageArgs lowmem).setupSize.toNat (by rwa [Nat.zero_add])
    dsimp only at hblock
    rw [length_patchedSetup le_setupRead] at hblock
    rw [hblock, slice_patchedSetup le_setupSize hle, BitVec.add_zero] at hslice
    exact hslice.symm
  · refine hpart _ _ _ ?_
    rw [FwCfg.imageBlocks]
    exact List.mem_cons_of_mem _ List.mem_cons_self
  · refine hpart _ _ _ ?_
    rw [FwCfg.imageBlocks]
    exact List.mem_cons_of_mem _ (List.mem_cons_of_mem _ List.mem_cons_self)
  · refine hpart _ _ _ ?_
    rw [FwCfg.imageBlocks]
    exact List.mem_cons_of_mem _ (List.mem_cons_of_mem _ (List.mem_cons_of_mem _
      List.mem_cons_self))

/-- Whatever the device holds and however it is read, the image that is started
is complete if its parts have room. -/
theorem bzImage_assembled {s : Firmware} (hbz : IsBzimage s.dev.setupPeek)
    (hsome : s.dev.linuxbootArgs.vmlinuzSize ≠ 0#32) : ∃ s',
    bootFromFwcfg s = .error (.bzImage (s.dev.bzImageArgs s.lowmem)) s' ∧
      (PartsApart (s.dev.bzImageArgs s.lowmem) (s.dev.word FW_CFG_KERNEL_SIZE) →
        Assembled s.dev s.lowmem s'.mem (s.dev.bzImageArgs s.lowmem)) := by
  obtain ⟨s', hrun, hmem⟩ := bootKernel_apply
    { s with dev := (s.dev.select FW_CFG_SETUP_ADDR).skip 4 } hbz
  refine ⟨s', (bootFromFwcfg_apply s hsome).trans hrun, fun happ => ?_⟩
  rw [hmem]
  exact assembled_imageBlocks s.mem happ

/-- A kernel of 8 MiB behind 20 setup sectors, with an initrd of 16 MiB. -/
def kernelDevice : FwCfg where
  entry := fun key =>
    if key = FW_CFG_SETUP_ADDR then toLE 4 0x10000
    else if key = FW_CFG_SETUP_SIZE then toLE 4 0x2a00
    else if key = FW_CFG_SETUP_DATA then kernelHeader 20#8 0x20c#16 1#8 0x7fffffff#32
    else if key = FW_CFG_KERNEL_SIZE then toLE 4 0x800000
    else if key = FW_CFG_CMDLINE_SIZE then toLE 4 0x100
    else if key = FW_CFG_INITRD_SIZE then toLE 4 0x1000000
    else []
  key := 0#16
  pos := 0

def kernelMachine : Firmware := { bareMachine 0x8000000#32 with dev := kernelDevice }

theorem partsApart_kernelMachine :
    PartsApart (kernelDevice.bzImageArgs 0x8000000#32) (kernelDevice.word FW_CFG_KERNEL_SIZE) := by
  have hargs : kernelDevice.bzImageArgs 0x8000000#32 =
      { setupAddr := 0x10000#32, cmdlineAddr := 0x20000#32, kernelAddr := 0x100000#32,
        initrdAddr := 0x6fff000#32, setupSize := 0x2a00#32, kernelSize := 0x8029ec#32,
        cmdlineSize := 0x100#32, vmlinuzSize := 0x802a00#32, initrdSize := 0x1000000#32 } := by
    decide +kernel
  have hsize : kernelDevice.word FW_CFG_KERNEL_SIZE = 0x800000#32 := by decide +kernel
  rw [hargs, hsize, PartsApart]
  simp only [List.pairwise_cons, List.mem_cons, List.not_mem_nil, or_false, forall_eq_or_imp,
    forall_eq, IsEmpty.forall_iff, implies_true, List.Pairwise.nil, and_true]
  refine ⟨⟨?_, ?_, ?_⟩, ⟨?_, ?_⟩, ?_⟩
  · exact apart_of_le (by decide) (by decide)
  · exact apart_of_le (by decide) (by decide)
  · exact apart_of_le (by decide) (by decide)
  · exact (apart_of_le (by decide) (by decide)).symm
  · exact apart_of_le (by decide) (by decide)
  · exact apart_of_le (by decide) (by decide)

/-- Both pieces of the setup part and the three other parts are in memory. -/
theorem bzImage_assembled_twenty : ∃ s',
    bootFromFwcfg kernelMachine = .error (.bzImage (kernelDevice.bzImageArgs 0x8000000#32)) s' ∧
      Assembled kernelDevice 0x8000000#32 s'.mem (kernelDevice.bzImageArgs 0x8000000#32) := by
  obtain ⟨s', hrun, hassembled⟩ := @bzImage_assembled kernelMachine (by decide +kernel)
    (by decide +kernel)
  exact ⟨s', hrun, hassembled partsApart_kernelMachine⟩

end Qboot
