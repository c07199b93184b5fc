import Qboot.Linuxboot.Assembled

/-!
How `boot_from_fwcfg` ends. The device alone decides whether it returns, which
kind of kernel it starts and with which arguments, or that it panics: nothing
that the loaded parts overwrite in memory changes the decision.
-/

namespace Qboot

open Bytes ByteMemory

/-! ### Code that comes back -/

/-- The code returns from every state and leaves what the device holds. -/
def Completes {α : Type} (x : Fw α) : Prop :=
  ∀ s, ∃ a s', x s = .ok a s' ∧ s'.dev.entry = s.dev.entry

namespace Completes

variable {α β : Type}

theorem pure (a : α) : Completes (Pure.pure a) := fun s => ⟨a, s, rfl, rfl⟩

theorem get : Completes (MonadState.get : Fw Firmware) := fun s => ⟨s, s, rfl, rfl⟩

theorem bind {x : Fw α} {f : α → Fw β} (hx : Completes x) (hf : ∀ a, Completes (f a)) :
    Completes (x >>= f) := by
  intro s
  obtain ⟨a, t, hrun, hentry⟩ := hx s
  obtain ⟨b, s', hrest, hentry'⟩ := hf a t
  exact ⟨b, s', (StateRun.bind_of_ok hrun).trans hrest, hentry'.trans hentry⟩

theorem ite {c : Prop} [Decidable c] {x y : Fw α} (hx : Completes x) (hy : Completes y) :
    Completes (if c then x else y) := by
  split
  · exact hx
  · exact hy

theorem modify {f : Firmware → Firmware} (h : ∀ s, (f s).dev.entry = s.dev.entry) :
    Completes (modify f) := fun s => ⟨_, f s, rfl, h s⟩

theorem poke (p : BitVec 32) (bs : List Byte) : Completes (poke p bs) := modify fun _ => rfl

theorem peek (p : BitVec 32) (n : Nat) : Completes (peek p n) := get.bind fun _ => pure _

theorem malloc (n : BitVec 32) : Completes (malloc n) :=
  fun s => ⟨_, _, mallocAlign_apply n 16#32 s, congrArg FwCfg.entry (allocate_dev s _)⟩

theorem readEntry (e buf len : BitVec 32) : Completes (fwCfgReadEntry e buf len) :=
  fun s => ⟨_, _, fwCfgReadEntry_apply e buf len s, rfl⟩

/-- How a sequence stops does not depend on what such code does to memory. -/
theorem stops {x : Fw α} (hx : Completes x) {f : α → Fw β} {e : Stop} {s : Firmware} {d : FwCfg}
    (hs : s.dev.entry = d.entry)
    (hf : ∀ a t, t.dev.entry = d.entry → ∃ s', f a t = .error e s') :
    ∃ s', (x >>= f) s = .error e s' := by
  obtain ⟨a, t, hrun, hentry⟩ := hx s
  obtain ⟨s', hstop⟩ := hf a t (hentry.trans hs)
  exact ⟨s', (StateRun.bind_of_ok hrun).trans hstop⟩

end Completes

theorem copyFields_completes (src dst : BitVec 32) : Completes (copyFields src dst) :=
  (Completes.peek _ _).bind fun _ => (Completes.poke _ _).bind fun _ =>
    (Completes.peek _ _).bind fun _ => (Completes.poke _ _).bind fun _ =>
      (Completes.peek _ _).bind fun _ => Completes.poke _ _

theorem ldlP_completes (p : BitVec 32) : Completes (ldlP p) :=
  (Completes.peek _ _).bind fun _ => Completes.pure _

theorem mmapLoop_completes (mb : BitVec 32) (n i : Nat) : Completes (mmapLoop mb n i) := by
  induction n generalizing i with
  | zero => exact Completes.pure _
  | succ n ih =>
    have hstep : Completes (storeMmapEntry mb i) :=
      Completes.get.bind fun _ => (ldlP_completes _).bind fun _ => (ldlP_completes _).bind fun _ =>
        (Completes.poke _ _).bind fun _ => (copyFields_completes _ _).bind fun _ =>
          (ldlP_completes _).bind fun _ => Completes.poke _ _
    exact Completes.get.bind fun _ => (Completes.peek _ _).bind fun _ =>
      Completes.ite (hstep.bind fun _ => ih (i + 1)) (Completes.pure _)

theorem storeMbMemory_completes (mb : BitVec 32) : Completes (storeMbMemory mb) :=
  Completes.get.bind fun _ => (Completes.poke _ _).bind fun _ => (Completes.poke _ _).bind fun _ =>
    (Completes.poke _ _).bind fun _ => mmapLoop_completes _ _ _

theorem pvhLoop_completes (pvh : BitVec 32) (n i : Nat) : Completes (pvhLoop pvh n i) := by
  induction n generalizing i with
  | zero => exact Completes.pure _
  | succ n ih =>
    exact Completes.get.bind fun _ => (Completes.peek _ _).bind fun _ =>
      Completes.ite ((copyFields_completes _ _).bind fun _ => ih (i + 1)) (Completes.pure _)

theorem pvhE820Setup_completes : Completes pvhE820Setup :=
  Completes.get.bind fun _ => (Completes.peek _ _).bind fun _ => (Completes.malloc _).bind fun _ =>
    (Completes.poke _ _).bind fun _ => (pvhLoop_completes _ _ _).bind fun _ =>
      (Completes.peek _ _).bind fun _ => Completes.modify fun _ => rfl

/-! ### Words of the device -/

/-- A word of an entry, read from its start. -/
theorem readWord_apply {β : Type} (key : BitVec 16) (f : BitVec 32 → Fw β) (s : Firmware) :
    (do
      fwCfgSelect key
      let v ← fwCfgReadlLe
      f v) s = f (s.dev.word key) { s with dev := (s.dev.select key).skip 4 } := by
  rw [StateRun.bind_of_ok (fwCfgSelect_apply key s),
    StateRun.bind_of_ok (fwCfgReadlLe_select key s)]

theorem word_congr {d d' : FwCfg} (h : d'.entry = d.entry) (key : BitVec 16) :
    d'.word key = d.word key := by
  rw [FwCfg.word, FwCfg.word, h]

theorem readWord_stops {β : Type} {key : BitVec 16} {f : BitVec 32 → Fw β} {e : Stop}
    {s : Firmware} {d : FwCfg} (hs : s.dev.entry = d.entry)
    (hf : ∀ t, t.dev.entry = d.entry → ∃ s', f (d.word key) t = .error e s') :
    ∃ s', (do
      fwCfgSelect key
      let v ← fwCfgReadlLe
      f v) s = .error e s' := by
  rw [readWord_apply, word_congr hs]
  exact hf _ hs

/-- A boot that needs a size panics if it is zero. -/
theorem panicIf_stops {β : Type} {c : Prop} [Decidable c] {f : Unit → Fw β} {e : Stop}
    {s : Firmware} (hf : ¬ c → ∃ s', f () s = .error e s') :
    ∃ s', (panicIf c >>= f) s = .error (if c then .panic else e) s' := by
  by_cases h : c
  · rw [if_pos h]
    exact ⟨s, StateRun.bind_of_error (panicIf_of h s)⟩
  · rw [if_neg h, StateRun.bind_of_ok (panicIf_of_not h s)]
    exact hf h

/-! ### The decision -/

namespace FwCfg

/-- The setup part starts like an ELF file. -/
def IsElf (d : FwCfg) : Prop :=
  BitVec.ofNat 32 (ofLE (slice d.setupPeek 0 4)) = 0x464c457f#32

instance (d : FwCfg) : Decidable d.IsElf := inferInstanceAs (Decidable (_ = _))

/-- The module that a PVH kernel gets. -/
def ramdisk (d : FwCfg) : Option HvmModlistEntry :=
  if d.word FW_CFG_INITRD_SIZE ≠ 0#32 then
    some
      { paddr := (d.word FW_CFG_INITRD_ADDR).setWidth 64
        size := (d.word FW_CFG_INITRD_SIZE).setWidth 64 }
  else none

/-- How the boot ends if there is a kernel. -/
def kernelStop (d : FwCfg) (lowmem : BitVec 32) : Stop :=
  if IsBzimage d.setupPeek then .bzImage (d.bzImageArgs lowmem)
  else if d.word FW_CFG_KERNEL_SIZE = 0#32 then .panic
  else if d.IsElf then .pvh (d.word FW_CFG_KERNEL_ENTRY) d.ramdisk
  else if d.word FW_CFG_INITRD_SIZE = 0#32 then .panic
  else .multiboot (d.word FW_CFG_INITRD_ADDR) (d.word FW_CFG_KERNEL_ENTRY)

end FwCfg

section Decision

variable (s : Firmware)

theorem loadRamdisk_apply : ∃ s', loadRamdisk s = .ok s.dev.ramdisk s' ∧
    s'.dev.entry = s.dev.entry := by
  rw [loadRamdisk, readWord_apply, FwCfg.ramdisk]
  by_cases hsize : s.dev.word FW_CFG_INITRD_SIZE ≠ 0#32
  · rw [if_pos hsize, if_pos hsize, readWord_apply]
    exact ⟨_, (StateRun.bind_of_ok (fwCfgReadEntry_apply _ _ _ _)).trans rfl, rfl⟩
  · rw [if_neg hsize, if_neg hsize]
    exact ⟨_, rfl, rfl⟩

theorem ramdisk_congr {d d' : FwCfg} (h : d'.entry = d.entry) : d'.ramdisk = d.ramdisk := by
  simp only [FwCfg.ramdisk, word_congr h]

/-- The PVH boot starts the kernel, or panics if there is none. -/
theorem bootPvhFromFwCfg_stops {d : FwCfg} (hs : s.dev.entry = d.entry) :
    ∃ s', bootPvhFromFwCfg s = .error
      (if d.word FW_CFG_KERNEL_SIZE = 0#32 then .panic
        else .pvh (d.word FW_CFG_KERNEL_ENTRY) d.ramdisk) s' := by
  rw [bootPvhFromFwCfg]
  apply (Completes.modify _).stops hs
  · intro _ t₁ ht₁
    apply readWord_stops ht₁
    intro t₂ ht₂
    apply (Completes.malloc _).stops ht₂
    intro _ t₃ ht₃
    apply (Completes.readEntry _ _ _).stops ht₃
    intro _ t₄ ht₄
    apply (Completes.modify _).stops ht₄
    · intro _ t₅ ht₅
      obtain ⟨t₆, hramdisk, ht₆⟩ := loadRamdisk_apply t₅
      rw [StateRun.bind_of_ok hramdisk, ramdisk_congr ht₅]
      apply pvhE820Setup_completes.stops (ht₆.trans ht₅)
      intro _ t₇ ht₇
      apply readWord_stops ht₇
      intro t₈ ht₈
      apply panicIf_stops
      intro _
      apply readWord_stops ht₈
      intro t₉ _
      exact ⟨t₉, rfl⟩
    · exact fun _ => rfl
  · exact fun _ => rfl

/-- The multiboot boot starts the kernel, or panics if it or the information
for it is missing. -/
theorem bootMultibootFromFwCfg_stops {d : FwCfg} (hs : s.dev.entry = d.entry) :
    ∃ s', bootMultibootFromFwCfg s = .error
      (if d.word FW_CFG_KERNEL_SIZE = 0#32 then .panic
        else if d.word FW_CFG_INITRD_SIZE = 0#32 then .panic
        else .multiboot (d.word FW_CFG_INITRD_ADDR) (d.word FW_CFG_KERNEL_ENTRY)) s' := by
  rw [bootMultibootFromFwCfg]
  apply readWord_stops hs
  intro t₁ ht₁
  apply panicIf_stops
  intro _
  apply readWord_stops ht₁
  intro t₂ ht₂
  apply (Completes.readEntry _ _ _).stops ht₂
  intro _ t₃ ht₃
  apply readWord_stops ht₃
  intro t₄ ht₄
  apply panicIf_stops
  intro _
  apply readWord_stops ht₄
  intro t₅ ht₅
  apply (Completes.readEntry _ _ _).stops ht₅
  intro _ t₆ ht₆
  apply (storeMbMemory_completes _).stops ht₆
  intro _ t₇ ht₇
  apply readWord_stops ht₇
  intro t₈ _
  exact ⟨t₈, rfl⟩

/-- The machine after the first bytes of the setup part are read. -/
def Firmware.peeked (s : Firmware) : Firmware :=
  { s with
    mem := store s.mem (s.dev.word FW_CFG_SETUP_ADDR) s.dev.setupPeek
    dev := (s.dev.select FW_CFG_SETUP_DATA).skip HEADER_PEEK_SIZE.toNat }

/-- A kernel that is no bzImage starts like an ELF file, or is for multiboot. -/
theorem bootKernel_other (hbz : ¬ IsBzimage s.dev.setupPeek) :
    bootKernel s.dev.linuxbootArgs (s.dev.word FW_CFG_KERNEL_SIZE) s =
      (if s.dev.IsElf then bootPvhFromFwCfg >>= fun _ => bootMultibootFromFwCfg
        else bootMultibootFromFwCfg) s.peeked := by
  have hlen : s.dev.setupPeek.length = 8192 := length_setupData _ _
  have hparse : parseBzimage s.dev.linuxbootArgs s.peeked = .ok none s.peeked :=
    @parseBzimage_other { s with
      dev := (s.dev.select FW_CFG_SETUP_DATA).skip HEADER_PEEK_SIZE.toNat } s.dev.linuxbootArgs
      s.dev.setupPeek (by omega) (by omega) hbz
  have hmagic : ldlP (s.dev.word FW_CFG_SETUP_ADDR) s.peeked =
      .ok (BitVec.ofNat 32 (ofLE (slice s.dev.setupPeek 0 4))) s.peeked := by
    have h := @ldlP_withBlock { s with
      dev := (s.dev.select FW_CFG_SETUP_DATA).skip HEADER_PEEK_SIZE.toNat }
      (s.dev.word FW_CFG_SETUP_ADDR) s.dev.setupPeek 0 (by omega) (by omega)
    rwa [BitVec.add_zero] at h
  refine (StateRun.bind_of_ok (fwCfgSelect_apply _ s)).trans
    ((StateRun.bind_of_ok (fwCfgRead_apply _ _ _)).trans ((StateRun.bind_of_ok hparse).trans
      ((StateRun.bind_of_ok hmagic).trans ?_)))
  rfl

/-- The first bytes of the setup part decide what kind of kernel it is. -/
theorem bootKernel_stops : ∃ s',
    bootKernel s.dev.linuxbootArgs (s.dev.word FW_CFG_KERNEL_SIZE) s =
      .error (s.dev.kernelStop s.lowmem) s' := by
  rw [FwCfg.kernelStop]
  by_cases hbz : IsBzimage s.dev.setupPeek
  · obtain ⟨s', hrun, -⟩ := bootKernel_apply s hbz
    rw [if_pos hbz]
    exact ⟨s', hrun⟩
  · rw [bootKernel_other s hbz, if_neg hbz]
    by_cases helf : s.dev.IsElf
    · obtain ⟨s', hpvh⟩ := bootPvhFromFwCfg_stops s.peeked (d := s.dev) rfl
      rw [if_pos helf, if_pos helf]
      exact ⟨s', StateRun.bind_of_error hpvh⟩
    · rw [if_neg helf, if_neg helf]
      exact bootMultibootFromFwCfg_stops s.peeked rfl

end Decision

/-- Whatever is in memory, the device and the size of low memory decide how the
boot ends. The parts are loaded into RAM beside the code and the stack that load
them. -/
theorem bootFromFwcfg_ends (s : Firmware) :
    if s.dev.linuxbootArgs.vmlinuzSize = 0#32 then ∃ s', bootFromFwcfg s = .ok () s'
    else ∃ s', bootFromFwcfg s = .error (s.dev.kernelStop s.lowmem) s' := by
  by_cases hnone : s.dev.linuxbootArgs.vmlinuzSize = 0#32
  · rw [if_pos hnone, bootFromFwcfg, readWord_apply, readWord_apply, readWord_apply,
      readWord_apply, readWord_apply]
    exact ⟨_, congrFun (if_pos hnone) _⟩
  · rw [if_neg hnone, bootFromFwcfg_apply s hnone]
    exact bootKernel_stops { s with dev := (s.dev.select FW_CFG_SETUP_ADDR).skip 4 }

end Qboot
