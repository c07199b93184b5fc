import Qboot.Lib.Rounding
import Qboot.Linuxboot.Patching

/-!
Where `parse_bzimage` puts the parts of a kernel. The sizes come from the
header and from the device and are not checked, so each part is sound only
for sizes that leave room for the others.
-/

namespace Qboot

open Bytes ByteMemory

/-! ### Numbers of a layout -/

/-- Bytes of the boot sector and the setup sectors. -/
def setupBytes (setupSects : Byte) : Nat :=
  ((if setupSects = 0#8 then 4 else setupSects.toNat) + 1) * 512

section Numbers

variable {args : LinuxbootArgs} {bs : List Byte} {lowmem : BitVec 32}

theorem toNat_setupSize (args : LinuxbootArgs) (bs : List Byte) (lowmem : BitVec 32) :
    (bzArgs args bs lowmem).setupSize.toNat = setupBytes (bzSetupSects bs) := by
  have hlt := (bzSetupSects bs).isLt
  change (((if bzSetupSects bs = 0#8 then 4#32 else (bzSetupSects bs).setWidth 32) + 1#32) *
    512#32).toNat = _
  rw [setupBytes]
  split
  · rfl
  · simp only [BitVec.toNat_mul, BitVec.toNat_add, BitVec.toNat_setWidth, BitVec.toNat_ofNat]
    omega

theorem setupBytes_bounds (sects : Byte) :
    1024 ≤ setupBytes sects ∧ setupBytes sects ≤ 0x20000 ∧ setupBytes sects % 512 = 0 := by
  have hlt := sects.isLt
  rw [setupBytes]
  split
  · decide
  · rename_i hne
    have hpos : sects.toNat ≠ 0 := fun h => hne (BitVec.eq_of_toNat_eq h)
    omega

/-- A kernel that is loaded high and knows `cmd_line_ptr`. -/
def IsRecent (bs : List Byte) : Prop :=
  bzProtocol bs ≥ 0x202#16 ∧ bzLoadflags bs &&& 0x01#8 ≠ 0#8

instance (bs : List Byte) : Decidable (IsRecent bs) := inferInstanceAs (Decidable (_ ∧ _))

theorem bzLayout_recent (h : IsRecent bs) (cmdlineSize : BitVec 32) : bzLayout bs cmdlineSize =
    { realAddr := 0x10000#32, cmdlineAddr := 0x20000#32, protAddr := 0x100000#32 } := by
  have hnew : ¬ bzProtocol bs < 0x200#16 := by
    have hle := BitVec.le_def.mp h.1
    rw [BitVec.lt_def]
    exact fun hlt => absurd (lt_of_le_of_lt hle hlt) (by decide)
  rw [bzLayout, bzimageLayout, if_neg (by rintro (hlow | hlow); exacts [hnew hlow, h.2 hlow]),
    if_neg (fun hlt => absurd (BitVec.not_le.mpr hlt) (not_not_intro h.1))]

/-- Every other kernel has its command line below 0x9a000. -/
theorem bzLayout_old (h : ¬ IsRecent bs) (cmdlineSize : BitVec 32) :
    (bzLayout bs cmdlineSize).realAddr = 0x90000#32 ∧
      (bzLayout bs cmdlineSize).cmdlineAddr = (0x9a000#32 - cmdlineSize) &&& ~~~15#32 := by
  rw [bzLayout, bzimageLayout]
  split
  · exact ⟨rfl, rfl⟩
  · rename_i hhigh
    split
    · exact ⟨rfl, rfl⟩
    · rename_i hnew
      exact absurd ⟨BitVec.not_lt.mp hnew, (not_or.mp hhigh).2⟩ h

/-- Rounding to 16 bytes below 0x9a000. -/
theorem cmdlineAddr_bounds (cmdlineSize : BitVec 32) :
    let cmdlineAddr := (0x9a000#32 - cmdlineSize) &&& ~~~15#32
    cmdlineAddr.toNat ≤ (0x9a000#32 - cmdlineSize).toNat ∧
      (0x9a000#32 - cmdlineSize).toNat < cmdlineAddr.toNat + 16 ∧ cmdlineAddr.toNat % 16 = 0 := by
  have hmask : ~~~15#32 = -16#32 := rfl
  have hdvd : (16#32).toNat ∣ ((0x9a000#32 - cmdlineSize) &&& -16#32).toNat :=
    Rounding.dvd_and_neg (k := 4) rfl
  rw [hmask]
  exact ⟨Rounding.and_neg_le _ _, Rounding.lt_and_neg_add (by decide), Nat.mod_eq_zero_of_dvd hdvd⟩

end Numbers

/-! ### The real-mode part -/

/-- The stack pointer that `boot_bzimage` passes in `dx`. -/
def initialSp (args : LinuxbootArgs) : BitVec 16 :=
  (args.cmdlineAddr - args.setupAddr - 16#32).setWidth 16

/-- `heap_end_ptr` in the header. -/
def heapEndPtr (m : Mem) (args : LinuxbootArgs) : Nat := loadLE m (args.setupAddr + 0x224#32) 2

/-- Setup code, heap, stack and command line follow each other below the EBDA,
and none of the numbers that say so was cut off. -/
structure RealModeSound (protocol : BitVec 16) (m : Mem) (args : LinuxbootArgs) : Prop where
  apart : ∀ a : Nat, args.setupAddr.toNat ≤ a → a < args.setupAddr.toNat + args.setupSize.toNat →
    ¬ (args.cmdlineAddr.toNat ≤ a ∧ a < args.cmdlineAddr.toNat + args.cmdlineSize.toNat)
  belowEbda : args.cmdlineAddr.toNat + args.cmdlineSize.toNat ≤ 0x9fc00
  cmdlineOffset : protocol < 0x202#16 →
    args.setupAddr.toNat + loadLE m (args.setupAddr + 0x22#32) 2 = args.cmdlineAddr.toNat
  heapEnd : 0x201#16 ≤ protocol →
    args.setupAddr.toNat + (heapEndPtr m args + 0x200) = args.cmdlineAddr.toNat
  stack : args.setupAddr.toNat + ((initialSp args).toNat + 16) = args.cmdlineAddr.toNat
  setupBelowHeap : 0x201#16 ≤ protocol → args.setupSize.toNat ≤ heapEndPtr m args + 0x200
  heapBelowStack : 0x201#16 ≤ protocol → heapEndPtr m args + 0x200 ≤ (initialSp args).toNat + 16
  setupBelowStack : args.setupSize.toNat ≤ (initialSp args).toNat + 16

/-- The sizes for which the real-mode part fits. -/
def RealModeFits (bs : List Byte) (cmdlineSize : BitVec 32) : Prop :=
  (IsRecent bs → setupBytes (bzSetupSects bs) ≤ 0x10000 ∧ cmdlineSize.toNat ≤ 0x7fc00) ∧
    (¬ IsRecent bs → setupBytes (bzSetupSects bs) + cmdlineSize.toNat ≤ 0xa000)

instance (bs : List Byte) (cmdlineSize : BitVec 32) : Decidable (RealModeFits bs cmdlineSize) :=
  inferInstanceAs (Decidable (_ ∧ _))

section Stored

variable {s : Firmware} {args : LinuxbootArgs} {bs : List Byte}

/-- A patched field in memory. -/
theorem loadLE_patched {p lowmem cmdlineSize initrdSize : BitVec 32} (hlen : bs.length = 0x230)
    (fields later : List (Nat × List Byte)) {k n v : Nat}
    (hfields : headerPatches bs lowmem cmdlineSize initrdSize = fields ++ (k, toLE n v) :: later)
    (hout : ∀ f ∈ later, k + n ≤ f.1 ∨ f.1 + f.2.length ≤ k) :
    loadLE (s.withBlock p (patched bs lowmem cmdlineSize initrdSize)).mem (p + BitVec.ofNat 32 k) n =
      v % 256 ^ n := by
  have hin := @headerPatches_in bs lowmem cmdlineSize initrdSize hlen.ge
  have hpatched := @length_patched bs lowmem cmdlineSize initrdSize hlen.ge
  have hk : k + n ≤ bs.length := by
    have hmem := hin (k, toLE n v) (by rw [hfields]; simp)
    simpa using hmem
  have hself := @slice_patchFields_self bs (toLE n v) fields later k (by rwa [← hfields])
    (by simpa using hout)
  rw [loadLE, load_withBlock s p (by omega) (by omega), ← ofLE_toLE n v]
  rw [length_toLE, ← hfields] at hself
  exact congrArg ofLE hself

/-- The old-protocol offset of the command line. -/
theorem loadLE_cmdlineOffset {p lowmem cmdlineSize initrdSize : BitVec 32}
    (hlen : bs.length = 0x230) (hold : bzProtocol bs < 0x202#16) :
    loadLE (s.withBlock p (patched bs lowmem cmdlineSize initrdSize)).mem (p + 0x22#32) 2 =
      ((bzLayout bs cmdlineSize).cmdlineAddr - (bzLayout bs cmdlineSize).realAddr).toNat %
        256 ^ 2 := by
  have hcmdline : cmdlinePatches (bzProtocol bs) (bzLayout bs cmdlineSize) =
      [(0x20, toLE 2 0xA33F), (0x22, toLE 2 ((bzLayout bs cmdlineSize).cmdlineAddr -
        (bzLayout bs cmdlineSize).realAddr).toNat)] := by
    rw [cmdlinePatches, if_neg (BitVec.not_le.mpr hold)]
  refine loadLE_patched hlen [(0x20, toLE 2 0xA33F)] (loaderPatches (bzProtocol bs) ++
    heapPatches (bzProtocol bs) (bzLoadflags bs) (bzLayout bs cmdlineSize) ++
    [(0x218, toLE 4 (bzInitrdAddr bs lowmem initrdSize).toNat), (0x21c, toLE 4 initrdSize.toNat)])
    ?_ fun f hf => ?_
  · rw [headerPatches, hcmdline]
    simp only [List.append_assoc, List.cons_append, List.nil_append]
  · left
    rw [List.mem_append, List.mem_append] at hf
    obtain (hf | hf) | hf := hf
    · unfold loaderPatches at hf
      split at hf
      · rw [List.mem_singleton] at hf
        subst hf
        decide
      · cases hf
    · obtain ⟨-, -, ⟨hat, -⟩ | ⟨hlo, -⟩⟩ := heapPatches_at hf
      · omega
      · omega
    · simp only [List.mem_cons, List.not_mem_nil, or_false] at hf
      rcases hf with rfl | rfl
      · simp
      · simp

theorem loadLE_heapEndPtr {p lowmem cmdlineSize initrdSize : BitVec 32}
    (hlen : bs.length = 0x230) (hnew : 0x201#16 ≤ bzProtocol bs) :
    loadLE (s.withBlock p (patched bs lowmem cmdlineSize initrdSize)).mem (p + 0x224#32) 2 =
      ((bzLayout bs cmdlineSize).cmdlineAddr - (bzLayout bs cmdlineSize).realAddr - 0x200#32).toNat %
        256 ^ 2 := by
  refine loadLE_patched hlen (cmdlinePatches (bzProtocol bs) (bzLayout bs cmdlineSize) ++
    loaderPatches (bzProtocol bs) ++ [(0x211, [bzLoadflags bs ||| 0x80#8])])
    [(0x218, toLE 4 (bzInitrdAddr bs lowmem initrdSize).toNat),
      (0x21c, toLE 4 initrdSize.toNat)] ?_ ?_
  · rw [headerPatches, heapPatches, if_pos hnew]
    simp only [List.append_assoc, List.cons_append, List.nil_append]
  · simp

theorem loadLE_ramdiskImage {p lowmem cmdlineSize initrdSize : BitVec 32}
    (hlen : bs.length = 0x230) :
    loadLE (s.withBlock p (patched bs lowmem cmdlineSize initrdSize)).mem (p + 0x218#32) 4 =
      (bzInitrdAddr bs lowmem initrdSize).toNat := by
  have hlt := (bzInitrdAddr bs lowmem initrdSize).isLt
  refine (loadLE_patched hlen (cmdlinePatches (bzProtocol bs) (bzLayout bs cmdlineSize) ++
    loaderPatches (bzProtocol bs) ++
    heapPatches (bzProtocol bs) (bzLoadflags bs) (bzLayout bs cmdlineSize))
    [(0x21c, toLE 4 initrdSize.toNat)] ?_ ?_).trans
    (Nat.mod_eq_of_lt (by omega))
  · rw [headerPatches]
  · simp

end Stored

section RealMode

variable {protocol : BitVec 16} {m : Mem} {args : LinuxbootArgs}

/-- The numbers of the real-mode part when the command line is `offset` bytes
behind the setup code. -/
theorem realModeSound_of_offset {offset : Nat} (hoffset : offset ≤ 256 ^ 2)
    (hshort : protocol < 0x202#16 → offset < 256 ^ 2)
    (haddr : args.setupAddr.toNat + offset = args.cmdlineAddr.toNat)
    (hcmdline : protocol < 0x202#16 →
      loadLE m (args.setupAddr + 0x22#32) 2 =
        (args.cmdlineAddr - args.setupAddr).toNat % 256 ^ 2)
    (hheap : 0x201#16 ≤ protocol →
      heapEndPtr m args = (args.cmdlineAddr - args.setupAddr - 0x200#32).toNat % 256 ^ 2)
    (hsetup : 0x200 ≤ args.setupSize.toNat) (hfits : args.setupSize.toNat ≤ offset)
    (hebda : args.cmdlineAddr.toNat + args.cmdlineSize.toNat ≤ 0x9fc00) :
    RealModeSound protocol m args := by
  have hsub : (args.cmdlineAddr - args.setupAddr).toNat = offset := by
    rw [BitVec.toNat_sub_of_le (by rw [BitVec.le_def]; omega)]
    omega
  have hheapSub : (args.cmdlineAddr - args.setupAddr - 0x200#32).toNat = offset - 0x200 := by
    have hlow : (0x200#32).toNat = 0x200 := rfl
    rw [BitVec.toNat_sub_of_le (by rw [BitVec.le_def, hsub, hlow]; omega), hsub, hlow]
  have hsp : (initialSp args).toNat = offset - 16 := by
    have hlow : (16#32).toNat = 16 := rfl
    rw [initialSp, BitVec.toNat_setWidth,
      BitVec.toNat_sub_of_le (by rw [BitVec.le_def, hsub, hlow]; omega), hsub, hlow]
    omega
  have hcmdline' : protocol < 0x202#16 → loadLE m (args.setupAddr + 0x22#32) 2 = offset := by
    intro hold
    rw [hcmdline hold, hsub, Nat.mod_eq_of_lt (hshort hold)]
  have hheap' : 0x201#16 ≤ protocol → heapEndPtr m args + 0x200 = offset := by
    intro hnew
    rw [hheap hnew, hheapSub, Nat.mod_eq_of_lt (by omega), Nat.sub_add_cancel (hsetup.trans hfits)]
  constructor
  · omega
  · exact hebda
  · intro hold
    rw [hcmdline' hold, haddr]
  · intro hnew
    rw [hheap' hnew, haddr]
  · omega
  · intro hnew
    rw [hheap' hnew]
    exact hfits
  · intro hnew
    rw [hheap' hnew]
    omega
  · omega

/-- The numbers of a sound real-mode part. -/
theorem RealModeSound.fits {protocol : BitVec 16} {m : Mem} (h : RealModeSound protocol m args) :
    args.setupAddr.toNat + args.setupSize.toNat ≤ args.cmdlineAddr.toNat ∧
      args.cmdlineAddr.toNat + args.cmdlineSize.toNat ≤ 0x9fc00 := by
  have hstack := h.stack
  have hroom := h.setupBelowStack
  exact ⟨by omega, h.belowEbda⟩

end RealMode

/-- The real-mode part is sound exactly for the sizes that fit. -/
theorem realModeSound_iff {args args' : LinuxbootArgs} {s s' : Firmware}
    (h : parseBzimage args s = .ok (some args') s')
    (hsetup : args.setupAddr =
      (bzLayout (headerAt s.mem args.setupAddr) args.cmdlineSize).realAddr) :
    RealModeSound (bzProtocol (headerAt s.mem args.setupAddr)) s'.mem args' ↔
      RealModeFits (headerAt s.mem args.setupAddr) args.cmdlineSize := by
  obtain ⟨-, rfl, rfl⟩ := parseBzimage_eq_some h
  obtain ⟨bs, hbs⟩ : ∃ bs, bs = headerAt s.mem args.setupAddr := ⟨_, rfl⟩
  have hlen : bs.length = 0x230 := by rw [hbs, length_headerAt]
  rw [← hbs] at hsetup ⊢
  have hsize := toNat_setupSize args bs s.lowmem
  have hbounds := setupBytes_bounds (bzSetupSects bs)
  have hcmdlineAddr : (bzArgs args bs s.lowmem).cmdlineAddr =
      (bzLayout bs args.cmdlineSize).cmdlineAddr := rfl
  have hsound (offset : Nat) (hoffset : offset ≤ 256 ^ 2)
      (hshort : bzProtocol bs < 0x202#16 → offset < 256 ^ 2)
      (haddr : args.setupAddr.toNat + offset = (bzLayout bs args.cmdlineSize).cmdlineAddr.toNat)
      (hfits : setupBytes (bzSetupSects bs) ≤ offset)
      (hebda : (bzLayout bs args.cmdlineSize).cmdlineAddr.toNat + args.cmdlineSize.toNat ≤
        0x9fc00) :
      RealModeSound (bzProtocol bs) (s.withBlock args.setupAddr
        (patched bs s.lowmem args.cmdlineSize args.initrdSize)).mem (bzArgs args bs s.lowmem) := by
    refine realModeSound_of_offset hoffset hshort haddr (fun hold => ?_) (fun hnew => ?_)
      (by omega) (by omega) hebda
    · have hstored := @loadLE_cmdlineOffset s bs args.setupAddr s.lowmem args.cmdlineSize
        args.initrdSize hlen hold
      rwa [← hsetup] at hstored
    · have hstored := @loadLE_heapEndPtr s bs args.setupAddr s.lowmem args.cmdlineSize
        args.initrdSize hlen hnew
      rwa [← hsetup] at hstored
  have hfits {m : Mem} (hs : RealModeSound (bzProtocol bs) m (bzArgs args bs s.lowmem)) :
      args.setupAddr.toNat + setupBytes (bzSetupSects bs) ≤
          (bzLayout bs args.cmdlineSize).cmdlineAddr.toNat ∧
        (bzLayout bs args.cmdlineSize).cmdlineAddr.toNat + args.cmdlineSize.toNat ≤ 0x9fc00 := by
    rw [← hsize]
    exact hs.fits
  by_cases hrecent : IsRecent bs
  · rw [RealModeFits, iff_true_intro hrecent]
    rw [bzLayout_recent hrecent] at hsetup hsound hfits
    have hreal : args.setupAddr.toNat = 0x10000 := congrArg BitVec.toNat hsetup
    have hcmdline : (0x20000#32).toNat = 0x20000 := rfl
    dsimp only at hsound hfits
    constructor
    · intro hs
      have hroom := hfits hs
      exact ⟨fun _ => ⟨by omega, by omega⟩, fun hno => absurd trivial hno⟩
    · rintro ⟨hroom, -⟩
      obtain ⟨hsetupFits, hcmdlineFits⟩ := hroom trivial
      refine hsound 0x10000 le_rfl (fun hold => ?_) (by omega) hsetupFits (by omega)
      exact absurd hrecent.1 (BitVec.not_le.mpr hold)
  · obtain ⟨hrealAddr, hcmdlineEq⟩ := bzLayout_old hrecent args.cmdlineSize
    obtain ⟨hle, hlt, haligned⟩ := cmdlineAddr_bounds args.cmdlineSize
    have hreal : args.setupAddr.toNat = 0x90000 := congrArg BitVec.toNat (hsetup.trans hrealAddr)
    rw [RealModeFits, iff_false_intro hrecent]
    rw [hcmdlineEq] at hsound hfits
    have htop : (0x9a000#32).toNat = 0x9a000 := rfl
    constructor
    · intro hs
      have hroom := hfits hs
      refine ⟨fun hno => hno.elim, fun _ => ?_⟩
      rcases Nat.lt_or_ge 0x9a000 args.cmdlineSize.toNat with hlong | hshort
      · -- the subtraction wraps, so the command line ends above the EBDA
        have hwrap := BitVec.toNat_sub (0x9a000#32) args.cmdlineSize
        have hcLt := args.cmdlineSize.isLt
        omega
      · have hsub : (0x9a000#32 - args.cmdlineSize).toNat = 0x9a000 - args.cmdlineSize.toNat := by
          rw [BitVec.toNat_sub_of_le (by rw [BitVec.le_def, htop]; exact hshort), htop]
        omega
    · rintro ⟨-, hroom⟩
      have hroom' := hroom not_false
      have hsub : (0x9a000#32 - args.cmdlineSize).toNat = 0x9a000 - args.cmdlineSize.toNat := by
        rw [BitVec.toNat_sub_of_le (by rw [BitVec.le_def, htop]; omega), htop]
      refine hsound (((0x9a000#32 - args.cmdlineSize) &&& ~~~15#32).toNat - 0x90000)
        (by omega) (fun _ => by omega) (by omega) (by omega) (by omega)

/-- A kernel header with these fields and zero elsewhere. -/
def kernelHeader (setupSects : Byte) (protocol : BitVec 16) (loadflags : Byte)
    (initrdAddrMax : BitVec 32) : List Byte :=
  patchFields (List.replicate 0x230 0) [(0x1f1, [setupSects]), (0x202, toLE 4 0x53726448),
    (0x206, toLE 2 protocol.toNat), (0x211, [loadflags]), (0x22c, toLE 4 initrdAddrMax.toNat)]

theorem length_kernelHeader (setupSects : Byte) (protocol : BitVec 16) (loadflags : Byte)
    (initrdAddrMax : BitVec 32) :
    (kernelHeader setupSects protocol loadflags initrdAddrMax).length = 0x230 := by
  rw [kernelHeader, length_patchFields (by rw [List.length_replicate]; simp), List.length_replicate]

/-- A machine with `lowmem` and nothing in memory. -/
def bareMachine (lowmem : BitVec 32) : Firmware :=
  { Firmware.initial { entry := fun _ => [], key := 0#16, pos := 0 } (fun _ => 0#8)
      0xf0000#32 0xf4000#32 with lowmem := lowmem }

/-- Arguments of `parse_bzimage` that have only their inputs. -/
def kernelArgs (setupAddr cmdlineSize vmlinuzSize initrdSize : BitVec 32) : LinuxbootArgs where
  setupAddr := setupAddr
  cmdlineAddr := 0#32
  kernelAddr := 0#32
  initrdAddr := 0#32
  setupSize := 0#32
  kernelSize := 0#32
  cmdlineSize := cmdlineSize
  vmlinuzSize := vmlinuzSize
  initrdSize := initrdSize

theorem parseBzimage_bare (args : LinuxbootArgs) (lowmem : BitVec 32) {bs : List Byte}
    (hlen : bs.length = 0x230) (h : IsBzimage bs) :
    parseBzimage args ((bareMachine lowmem).withBlock args.setupAddr bs) =
      .ok (some (bzArgs args bs lowmem)) ((bareMachine lowmem).withBlock args.setupAddr
        (patched bs lowmem args.cmdlineSize args.initrdSize)) :=
  parseBzimage_withBlock hlen.ge (by rw [hlen]; decide) h

theorem headerAt_bare (p lowmem : BitVec 32) {bs : List Byte} (hlen : bs.length = 0x230) :
    headerAt ((bareMachine lowmem).withBlock p bs).mem p = bs := headerAt_store _ p hlen

/-- Four setup sectors and a short command line fit. -/
theorem realModeSound_iff_small :
    RealModeSound 0x20c#16
      ((bareMachine 0x8000000#32).withBlock 0x10000#32
        (patched (kernelHeader 4#8 0x20c#16 1#8 0x7fffffff#32) 0x8000000#32 0x100#32 0#32)).mem
      (bzArgs (kernelArgs 0x10000#32 0x100#32 0x100000#32 0#32)
        (kernelHeader 4#8 0x20c#16 1#8 0x7fffffff#32) 0x8000000#32) := by
  have hheader := headerAt_bare 0x10000#32 0x8000000#32 (length_kernelHeader 4#8 0x20c#16 1#8
    0x7fffffff#32)
  have hprotocol : bzProtocol (kernelHeader 4#8 0x20c#16 1#8 0x7fffffff#32) = 0x20c#16 := by
    decide +kernel
  have hsound := (@realModeSound_iff (kernelArgs 0x10000#32 0x100#32 0x100000#32 0#32) _ _ _
    (parseBzimage_bare _ 0x8000000#32 (length_kernelHeader 4#8 0x20c#16 1#8 0x7fffffff#32)
      (by decide +kernel)) (by
        change _ = (bzLayout (headerAt ((bareMachine 0x8000000#32).withBlock 0x10000#32 _).mem
          0x10000#32) 0x100#32).realAddr
        rw [hheader]
        decide +kernel)).mpr (by
        change RealModeFits (headerAt ((bareMachine 0x8000000#32).withBlock 0x10000#32 _).mem
          0x10000#32) 0x100#32
        rw [hheader]
        decide +kernel)
  change RealModeSound (bzProtocol (headerAt ((bareMachine 0x8000000#32).withBlock 0x10000#32 _).mem
    0x10000#32)) _ _ at hsound
  rwa [hheader, hprotocol] at hsound

/-- With 255 setup sectors the setup code reaches the command line. -/
theorem realMode_overlaps : ¬ ∀ (args args' : LinuxbootArgs) (s s' : Firmware),
    parseBzimage args s = .ok (some args') s' →
    args.setupAddr = (bzLayout (headerAt s.mem args.setupAddr) args.cmdlineSize).realAddr →
    RealModeSound (bzProtocol (headerAt s.mem args.setupAddr)) s'.mem args' := by
  intro hall
  have hheader := headerAt_bare 0x10000#32 0x8000000#32 (length_kernelHeader 255#8 0x20c#16 1#8
    0x7fffffff#32)
  have hsound := hall (kernelArgs 0x10000#32 0x100#32 0x100000#32 0#32) _ _ _
    (parseBzimage_bare _ 0x8000000#32
      (length_kernelHeader 255#8 0x20c#16 1#8 0x7fffffff#32) (by decide +kernel)) (by
        change _ = (bzLayout (headerAt ((bareMachine 0x8000000#32).withBlock 0x10000#32 _).mem
          0x10000#32) 0x100#32).realAddr
        rw [hheader]
        decide +kernel)
  have hfits := hsound.fits.1
  revert hfits
  decide +kernel

/-! ### The initrd -/

/-- The initrd is as high as the limits `lowmem - 1` and `initrdMax` allow, the
header says so, and the kernel of `kernelSize` bytes is somewhere else. -/
structure InitrdPlaced (lowmem initrdMax kernelSize : BitVec 32) (m : Mem) (args : LinuxbootArgs) :
    Prop where
  aligned : args.initrdAddr.toNat % 4096 = 0
  belowLowmem : args.initrdAddr.toNat + args.initrdSize.toNat + 1 ≤ lowmem.toNat
  belowMax : args.initrdAddr.toNat + args.initrdSize.toNat ≤ initrdMax.toNat
  highest : ∀ a : Nat, a % 4096 = 0 → a + args.initrdSize.toNat + 1 ≤ lowmem.toNat →
    a + args.initrdSize.toNat ≤ initrdMax.toNat → a ≤ args.initrdAddr.toNat
  stored : loadLE m (args.setupAddr + 0x218#32) 4 = args.initrdAddr.toNat
  apart : ∀ a : Nat, args.initrdAddr.toNat ≤ a →
    a < args.initrdAddr.toNat + args.initrdSize.toNat →
    ¬ (args.kernelAddr.toNat ≤ a ∧ a < args.kernelAddr.toNat + kernelSize.toNat)

/-- The sizes for which the initrd has room between the kernel and its limit,
or entirely below the kernel. -/
def InitrdFits (lowmem initrdMax initrdSize kernelAddr kernelSize : BitVec 32) : Prop :=
  let limit := min (lowmem.toNat - 1) initrdMax.toNat
  let kernelEnd := kernelAddr.toNat + kernelSize.toNat
  lowmem ≠ 0#32 ∧ initrdSize.toNat ≤ limit ∧
    (kernelSize = 0#32 ∨ (kernelEnd + 4095) / 4096 * 4096 + initrdSize.toNat ≤ limit ∨
      limit ≤ kernelAddr.toNat + (limit - initrdSize.toNat) % 4096)

instance (lowmem initrdMax initrdSize kernelAddr kernelSize : BitVec 32) :
    Decidable (InitrdFits lowmem initrdMax initrdSize kernelAddr kernelSize) :=
  inferInstanceAs (Decidable (_ ∧ _))

section Initrd

variable {lowmem initrdMax initrdSize : BitVec 32}

theorem toNat_capInitrdMax (h : lowmem ≠ 0#32) :
    (capInitrdMax lowmem initrdMax).toNat = min (lowmem.toNat - 1) initrdMax.toNat := by
  have hone : (1#32).toNat = 1 := rfl
  have hpos : lowmem.toNat ≠ 0 := fun hz => h (BitVec.eq_of_toNat_eq hz)
  have hsub : (lowmem - 1#32).toNat = lowmem.toNat - 1 := by
    rw [BitVec.toNat_sub_of_le (by rw [BitVec.le_def, hone]; omega), hone]
  rw [capInitrdMax]
  split
  · rename_i hgt
    rw [gt_iff_lt, BitVec.lt_def, hsub] at hgt
    omega
  · rename_i hle
    rw [gt_iff_lt, BitVec.lt_def, hsub] at hle
    omega

/-- The page below the end of the free memory. -/
theorem toNat_initrdAddrOf (hpos : initrdSize ≠ 0#32) (hsize : initrdSize.toNat ≤ initrdMax.toNat) :
    (initrdAddrOf initrdMax initrdSize).toNat =
      (initrdMax.toNat - initrdSize.toNat) / 4096 * 4096 := by
  have hmask : ~~~4095#32 = -4096#32 := rfl
  have hsub : (initrdMax - initrdSize).toNat = initrdMax.toNat - initrdSize.toNat :=
    BitVec.toNat_sub_of_le (by rw [BitVec.le_def]; exact hsize)
  have hdvd : (4096#32).toNat ∣ ((initrdMax - initrdSize) &&& -4096#32).toNat :=
    Rounding.dvd_and_neg (k := 12) rfl
  have hle := Rounding.and_neg_le (initrdMax - initrdSize) 4096#32
  have hlt := @Rounding.lt_and_neg_add 32 (initrdMax - initrdSize) 4096#32 (by decide)
  have hpage : (4096#32).toNat = 4096 := rfl
  rw [initrdAddrOf, if_pos hpos, hmask]
  rw [hpage] at hdvd hlt
  omega

end Initrd

/-- The initrd is placed soundly exactly for the sizes that fit. -/
theorem initrdPlaced_iff {args args' : LinuxbootArgs} {s s' : Firmware} (kernelSize : BitVec 32)
    (h : parseBzimage args s = .ok (some args') s') (hpos : args.initrdSize ≠ 0#32) :
    InitrdPlaced s.lowmem (bzInitrdMax (headerAt s.mem args.setupAddr)) kernelSize s'.mem args' ↔
      InitrdFits s.lowmem (bzInitrdMax (headerAt s.mem args.setupAddr)) args.initrdSize
        (bzLayout (headerAt s.mem args.setupAddr) args.cmdlineSize).protAddr kernelSize := by
  obtain ⟨-, rfl, rfl⟩ := parseBzimage_eq_some h
  obtain ⟨bs, hbs⟩ : ∃ bs, bs = headerAt s.mem args.setupAddr := ⟨_, rfl⟩
  have hlen : bs.length = 0x230 := by rw [hbs, length_headerAt]
  rw [← hbs]
  have hsizePos : args.initrdSize.toNat ≠ 0 := fun hz => hpos (BitVec.eq_of_toNat_eq hz)
  have hlowmem : s.lowmem.toNat = 0 ↔ s.lowmem = 0#32 :=
    ⟨fun hz => BitVec.eq_of_toNat_eq hz, fun hz => by rw [hz]; rfl⟩
  have hkernel : kernelSize.toNat = 0 ↔ kernelSize = 0#32 :=
    ⟨fun hz => BitVec.eq_of_toNat_eq hz, fun hz => by rw [hz]; rfl⟩
  have haddr (hne : s.lowmem ≠ 0#32)
      (hsize : args.initrdSize.toNat ≤ min (s.lowmem.toNat - 1) (bzInitrdMax bs).toNat) :
      (bzInitrdAddr bs s.lowmem args.initrdSize).toNat =
        (min (s.lowmem.toNat - 1) (bzInitrdMax bs).toNat - args.initrdSize.toNat) / 4096 * 4096 := by
    rw [bzInitrdAddr, toNat_initrdAddrOf hpos (by rwa [toNat_capInitrdMax hne]),
      toNat_capInitrdMax hne]
  have hplaced : (bzArgs args bs s.lowmem).initrdAddr =
      bzInitrdAddr bs s.lowmem args.initrdSize := rfl
  have hkernelAddr : (bzArgs args bs s.lowmem).kernelAddr = (bzLayout bs args.cmdlineSize).protAddr :=
    rfl
  have hinitrdSize : (bzArgs args bs s.lowmem).initrdSize = args.initrdSize := rfl
  constructor
  · intro hs
    have hlow := hs.belowLowmem
    have hmax := hs.belowMax
    have hapart := hs.apart
    rw [hplaced, hinitrdSize] at hlow hmax hapart
    rw [hkernelAddr] at hapart
    have hne : s.lowmem ≠ 0#32 := fun hz => by rw [← hlowmem] at hz; omega
    have hsize : args.initrdSize.toNat ≤ min (s.lowmem.toNat - 1) (bzInitrdMax bs).toNat := by omega
    have hpage := haddr hne hsize
    refine ⟨hne, hsize, ?_⟩
    by_contra hmeet
    simp only [not_or] at hmeet
    rw [← hkernel] at hmeet
    -- both ranges hold the larger one of their starts
    refine hapart (max (bzInitrdAddr bs s.lowmem args.initrdSize).toNat
      (bzLayout bs args.cmdlineSize).protAddr.toNat) (by omega) ?_ ⟨by omega, ?_⟩
    · omega
    · omega
  · rintro ⟨hne, hsize, hroom⟩
    have hpage := haddr hne hsize
    rw [← hkernel] at hroom
    rw [Ne, ← hlowmem] at hne
    refine ⟨?_, ?_, ?_, ?_, ?_, ?_⟩
    · rw [hplaced]
      omega
    · rw [hplaced, hinitrdSize]
      omega
    · rw [hplaced, hinitrdSize]
      omega
    · intro a ha hlow hmax
      rw [hinitrdSize] at hlow hmax
      rw [hplaced]
      omega
    · exact loadLE_ramdiskImage hlen
    · intro a hlo hhi hin
      rw [hplaced] at hlo hhi
      rw [hinitrdSize] at hhi
      rw [hkernelAddr] at hin
      omega

/-- An initrd of 16 MiB below 128 MiB leaves room for a kernel of 8 MiB. -/
theorem initrdPlaced_iff_small :
    InitrdPlaced 0x8000000#32 0x7fffffff#32 0x800000#32
      ((bareMachine 0x8000000#32).withBlock 0x10000#32
        (patched (kernelHeader 4#8 0x20c#16 1#8 0x7fffffff#32) 0x8000000#32 0x100#32
          0x1000000#32)).mem
      (bzArgs (kernelArgs 0x10000#32 0x100#32 0x800a00#32 0x1000000#32)
        (kernelHeader 4#8 0x20c#16 1#8 0x7fffffff#32) 0x8000000#32) := by
  have hheader := headerAt_bare 0x10000#32 0x8000000#32 (length_kernelHeader 4#8 0x20c#16 1#8
    0x7fffffff#32)
  have hmax : bzInitrdMax (kernelHeader 4#8 0x20c#16 1#8 0x7fffffff#32) = 0x7fffffff#32 := by
    decide +kernel
  have hplaced := (@initrdPlaced_iff (kernelArgs 0x10000#32 0x100#32 0x800a00#32 0x1000000#32) _ _ _
    0x800000#32 (parseBzimage_bare _ 0x8000000#32
      (length_kernelHeader 4#8 0x20c#16 1#8 0x7fffffff#32) (by decide +kernel)) (by decide)).mpr (by
        change InitrdFits 0x8000000#32 (bzInitrdMax (headerAt ((bareMachine 0x8000000#32).withBlock
          0x10000#32 _).mem 0x10000#32)) 0x1000000#32 (bzLayout (headerAt
            ((bareMachine 0x8000000#32).withBlock 0x10000#32 _).mem 0x10000#32) 0x100#32).protAddr _
        rw [hheader]
        decide +kernel)
  change InitrdPlaced 0x8000000#32 (bzInitrdMax (headerAt ((bareMachine 0x8000000#32).withBlock
    0x10000#32 _).mem 0x10000#32)) _ _ _ at hplaced
  rwa [hheader, hmax] at hplaced

/-- Below 16 MiB an initrd of 10 MiB lands on a kernel of 8 MiB. -/
theorem initrd_overlaps : ¬ ∀ (args args' : LinuxbootArgs) (s s' : Firmware)
    (kernelSize : BitVec 32), parseBzimage args s = .ok (some args') s' → args.initrdSize ≠ 0#32 →
    InitrdPlaced s.lowmem (bzInitrdMax (headerAt s.mem args.setupAddr)) kernelSize s'.mem args' := by
  intro hall
  have hplaced := hall (kernelArgs 0x10000#32 0x100#32 0x800a00#32 0xa00000#32) _ _ _ 0x800000#32
    (parseBzimage_bare _ 0x1000000#32
      (length_kernelHeader 4#8 0x20c#16 1#8 0x7fffffff#32) (by decide +kernel)) (by decide)
  refine hplaced.apart 0x600000 ?_ ?_ ⟨?_, ?_⟩
  · decide +kernel
  · decide +kernel
  · decide +kernel
  · decide +kernel

/-! ### The split of the image -/

/-- The sizes of the setup part and of the kernel are those the device split
the image into, and they add up to the whole image. -/
structure SplitAgrees (setupSize kernelSize : BitVec 32) (args : LinuxbootArgs) : Prop where
  setup : args.setupSize = setupSize
  kernel : args.kernelSize = kernelSize
  whole : args.setupSize.toNat + args.kernelSize.toNat = args.vmlinuzSize.toNat

/-- The kernel size is too large for every header: sectors are subtracted from
bytes. The setup size agrees with the device. -/
theorem split_disagrees {args args' : LinuxbootArgs} {s s' : Firmware}
    {setupSize kernelSize : BitVec 32} (h : parseBzimage args s = .ok (some args') s')
    (hwhole : args.vmlinuzSize = kernelSize + setupSize)
    (hsetup : setupSize.toNat = setupBytes (bzSetupSects (headerAt s.mem args.setupAddr))) :
    args'.setupSize = setupSize ∧ ¬ SplitAgrees setupSize kernelSize args' := by
  obtain ⟨-, rfl, -⟩ := parseBzimage_eq_some h
  have hsize := toNat_setupSize args (headerAt s.mem args.setupAddr) s.lowmem
  refine ⟨BitVec.eq_of_toNat_eq (hsize.trans hsetup.symm), fun hsplit => ?_⟩
  have hkernel := hsplit.kernel
  have hlt := (bzSetupSects (headerAt s.mem args.setupAddr)).isLt
  change args.vmlinuzSize - (if bzSetupSects (headerAt s.mem args.setupAddr) = 0#8 then 4#32
    else (bzSetupSects (headerAt s.mem args.setupAddr)).setWidth 32) = kernelSize at hkernel
  -- the difference of the two sizes is the setup part without its sector count
  rw [hwhole, BitVec.sub_eq_iff_eq_add, BitVec.add_right_inj] at hkernel
  have hnat := congrArg BitVec.toNat hkernel
  rw [hsetup, setupBytes] at hnat
  split at hnat
  · revert hnat
    decide
  · rw [BitVec.toNat_setWidth] at hnat
    omega

theorem split_disagrees_four :
    ¬ SplitAgrees 0xa00#32 0x800000#32
      (bzArgs (kernelArgs 0x10000#32 0x100#32 0x800a00#32 0#32)
        (kernelHeader 4#8 0x20c#16 1#8 0x7fffffff#32) 0x8000000#32) :=
  (@split_disagrees (kernelArgs 0x10000#32 0x100#32 0x800a00#32 0#32) _ _ _ _ _
    (parseBzimage_bare _ 0x8000000#32 (length_kernelHeader 4#8 0x20c#16 1#8 0x7fffffff#32)
      (by decide +kernel)) rfl (by
        change _ = setupBytes (bzSetupSects (headerAt ((bareMachine 0x8000000#32).withBlock
          0x10000#32 _).mem 0x10000#32))
        rw [headerAt_bare _ _ (length_kernelHeader 4#8 0x20c#16 1#8 0x7fffffff#32)]
        decide +kernel)).2

/-- For a kernel of 8 MiB behind four setup sectors the kernel size is 2556
bytes too large. -/
theorem kernelSize_differs : ¬ ∀ (args args' : LinuxbootArgs) (s s' : Firmware)
    (setupSize kernelSize : BitVec 32), parseBzimage args s = .ok (some args') s' →
    args.vmlinuzSize = kernelSize + setupSize →
    setupSize.toNat = setupBytes (bzSetupSects (headerAt s.mem args.setupAddr)) →
    SplitAgrees setupSize kernelSize args' := by
  intro hall
  have hsplit := hall (kernelArgs 0x10000#32 0x100#32 0x800a00#32 0#32) _ _ _ 0xa00#32 0x800000#32
    (parseBzimage_bare _ 0x8000000#32 (length_kernelHeader 4#8 0x20c#16 1#8 0x7fffffff#32)
      (by decide +kernel)) rfl (by
        change _ = setupBytes (bzSetupSects (headerAt ((bareMachine 0x8000000#32).withBlock
          0x10000#32 _).mem 0x10000#32))
        rw [headerAt_bare _ _ (length_kernelHeader 4#8 0x20c#16 1#8 0x7fffffff#32)]
        decide +kernel)
  have hkernel := hsplit.kernel
  revert hkernel
  decide +kernel

end Qboot
