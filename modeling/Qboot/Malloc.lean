import Qboot.Machine
import Qboot.Lib.Rounding

/-!
The two bump allocators of malloc.c. `malloc_align` grows down from `stext`
and `malloc_fseg_align` grows up from `edata`; neither checks a bound. Sizes
and alignments are C ints that enter only wrapping arithmetic, so they are
32-bit words here.
-/

namespace Qboot

def mallocAlign (n align : BitVec 32) : Fw (BitVec 32) :=
  modifyGet fun s =>
    let top := (s.mallocTop - n) &&& -align
    (top, { s with
      mallocTop := top
      allocs := { zone := .low, size := n, align := align,
                  start := s.mallocTop, base := top } :: s.allocs })

def mallocFsegAlign (n align : BitVec 32) : Fw (BitVec 32) :=
  modifyGet fun s =>
    let p := (s.fsegBase + align - 1#32) &&& -align
    (p, { s with
      fsegBase := p + n
      allocs := { zone := .fseg, size := n, align := align,
                  start := s.fsegBase, base := p } :: s.allocs })

def malloc (n : BitVec 32) : Fw (BitVec 32) := mallocAlign n 16#32

def mallocFseg (n : BitVec 32) : Fw (BitVec 32) := mallocFsegAlign n 16#32

/-- A call of the allocator of a zone. -/
def mallocIn (zone : Zone) (n align : BitVec 32) : Fw (BitVec 32) :=
  match zone with
  | .low => mallocAlign n align
  | .fseg => mallocFsegAlign n align

/-- Where `malloc_align` puts a block, and the new top. -/
def lowBase (top n align : BitVec 32) : BitVec 32 := (top - n) &&& -align

/-- Where `malloc_fseg_align` puts a block. -/
def fsegAlignedBase (base align : BitVec 32) : BitVec 32 := (base + align - 1#32) &&& -align

/-- The allocation that a request makes in a state. -/
def Firmware.request (s : Firmware) (zone : Zone) (n align : BitVec 32) : Alloc :=
  match zone with
  | .low => { zone := .low, size := n, align := align, start := s.mallocTop,
              base := lowBase s.mallocTop n align }
  | .fseg => { zone := .fseg, size := n, align := align, start := s.fsegBase,
               base := fsegAlignedBase s.fsegBase align }

/-- Moving an allocator's pointer past a block. -/
def Firmware.allocate (s : Firmware) (a : Alloc) : Firmware :=
  match a.zone with
  | .low => { s with mallocTop := a.base, allocs := a :: s.allocs }
  | .fseg => { s with fsegBase := a.base + a.size, allocs := a :: s.allocs }

/-- No address computed for the allocation passes the end of the address
space. -/
def Alloc.NoWrap (a : Alloc) : Prop :=
  match a.zone with
  | .low => a.size.toNat ≤ a.start.toNat
  | .fseg => a.start.toNat + a.align.toNat - 1 < 2 ^ 32 ∧ a.base.toNat + a.size.toNat < 2 ^ 32

instance (a : Alloc) : Decidable a.NoWrap := by
  unfold Alloc.NoWrap
  cases a.zone <;> infer_instance

theorem mallocAlign_apply (n align : BitVec 32) (s : Firmware) :
    mallocAlign n align s =
      .ok (s.request .low n align).base (s.allocate (s.request .low n align)) := rfl

theorem mallocFsegAlign_apply (n align : BitVec 32) (s : Firmware) :
    mallocFsegAlign n align s =
      .ok (s.request .fseg n align).base (s.allocate (s.request .fseg n align)) := rfl

theorem mallocIn_apply (zone : Zone) (n align : BitVec 32) (s : Firmware) :
    mallocIn zone n align s =
      .ok (s.request zone n align).base (s.allocate (s.request zone n align)) := by
  cases zone
  · exact mallocAlign_apply n align s
  · exact mallocFsegAlign_apply n align s

section Allocate

variable (s : Firmware) (a : Alloc)

@[simp] theorem allocate_mem : (s.allocate a).mem = s.mem := by
  cases h : a.zone <;> simp [Firmware.allocate, h]

@[simp] theorem allocate_dev : (s.allocate a).dev = s.dev := by
  cases h : a.zone <;> simp [Firmware.allocate, h]

@[simp] theorem allocate_files : (s.allocate a).files = s.files := by
  cases h : a.zone <;> simp [Firmware.allocate, h]

@[simp] theorem allocate_allocs : (s.allocate a).allocs = a :: s.allocs := by
  cases h : a.zone <;> simp [Firmware.allocate, h]

@[simp] theorem allocate_fileAddress : (s.allocate a).fileAddress = s.fileAddress := by
  cases h : a.zone <;> simp [Firmware.allocate, h]

@[simp] theorem allocate_startInfo : (s.allocate a).startInfo = s.startInfo := by
  cases h : a.zone <;> simp [Firmware.allocate, h]

@[simp] theorem allocate_version : (s.allocate a).version = s.version := by
  cases h : a.zone <;> simp [Firmware.allocate, h]

@[simp] theorem allocate_lowmem : (s.allocate a).lowmem = s.lowmem := by
  cases h : a.zone <;> simp [Firmware.allocate, h]

@[simp] theorem allocate_e820 : (s.allocate a).e820 = s.e820 := by
  cases h : a.zone <;> simp [Firmware.allocate, h]

@[simp] theorem allocate_haveMmconfig : (s.allocate a).haveMmconfig = s.haveMmconfig := by
  cases h : a.zone <;> simp [Firmware.allocate, h]

@[simp] theorem allocate_e820Seg : (s.allocate a).e820Seg = s.e820Seg := by
  cases h : a.zone <;> simp [Firmware.allocate, h]

@[simp] theorem allocate_pvhFrame : (s.allocate a).pvhFrame = s.pvhFrame := by
  cases h : a.zone <;> simp [Firmware.allocate, h]

end Allocate

/-- Without wrapping, a low block ends at or below the old top. -/
theorem lowBase_le {top n align : BitVec 32} (hn : n.toNat ≤ top.toNat) :
    (lowBase top n align).toNat + n.toNat ≤ top.toNat := by
  have hle := Rounding.and_neg_le (top - n) align
  have hsub : (top - n).toNat = top.toNat - n.toNat := BitVec.toNat_sub_of_le hn
  unfold lowBase
  omega

/-- Without wrapping, an F-segment block starts at or above the old pointer. -/
theorem fsegAlignedBase_ge {base align : BitVec 32} (ha : 0 < align.toNat)
    (hwrap : base.toNat + align.toNat - 1 < 2 ^ 32) :
    base.toNat ≤ (fsegAlignedBase base align).toNat :=
  (Rounding.le_add_and_neg ha hwrap).1

/-- An allocation that does not wrap takes its block from one side of the
unallocated memory between the two pointers and moves that pointer past it. -/
theorem allocate_cases {s : Firmware} {zone : Zone} {n align : BitVec 32}
    (ha : 0 < align.toNat) (hwrap : (s.request zone n align).NoWrap) :
    let a := s.request zone n align
    let t := s.allocate a
    (a.base.toNat + n.toNat ≤ s.mallocTop.toNat ∧ t.mallocTop = a.base ∧
      t.fsegBase = s.fsegBase) ∨
    (s.fsegBase.toNat ≤ a.base.toNat ∧ t.fsegBase.toNat = a.base.toNat + n.toNat ∧
      t.mallocTop = s.mallocTop) := by
  cases zone with
  | low =>
    left
    exact ⟨lowBase_le hwrap, rfl, rfl⟩
  | fseg =>
    right
    have hbase : s.fsegBase.toNat ≤ (fsegAlignedBase s.fsegBase align).toNat :=
      fsegAlignedBase_ge ha hwrap.1
    have hend : (fsegAlignedBase s.fsegBase align).toNat + n.toNat < 2 ^ 32 := hwrap.2
    have hadd : (fsegAlignedBase s.fsegBase align + n).toNat =
        (fsegAlignedBase s.fsegBase align).toNat + n.toNat := by
      rw [BitVec.toNat_add, Nat.mod_eq_of_lt hend]
    exact ⟨hbase, hadd, rfl⟩

/-! ### Code that does not allocate -/

/-- The allocator's part of the state. -/
def Firmware.heap (s : Firmware) : BitVec 32 × BitVec 32 × List Alloc :=
  (s.mallocTop, s.fsegBase, s.allocs)

/-- The program leaves the allocator alone, whether it returns or stops. -/
def KeepsHeap {α : Type} (x : Fw α) : Prop := ∀ H, StateRun.Keeps (fun s => s.heap = H) x

namespace KeepsHeap

variable {α β : Type}

theorem pure (a : α) : KeepsHeap (Pure.pure a) := fun _ => StateRun.Keeps.pure a

theorem get : KeepsHeap (MonadState.get : Fw Firmware) := fun _ => StateRun.Keeps.get

theorem throw (e : Stop) : KeepsHeap (MonadExcept.throw e : Fw α) := fun _ => StateRun.Keeps.throw e

theorem bind {x : Fw α} {f : α → Fw β} (hx : KeepsHeap x) (hf : ∀ a, KeepsHeap (f a)) :
    KeepsHeap (x >>= f) := fun H => (hx H).bind fun a => hf a H

theorem ite {c : Prop} [Decidable c] {x y : Fw α} (hx : KeepsHeap x) (hy : KeepsHeap y) :
    KeepsHeap (if c then x else y) := fun H => (hx H).ite (hy H)

theorem modify {f : Firmware → Firmware} (h : ∀ s, (f s).heap = s.heap) :
    KeepsHeap (modify f : Fw PUnit) := fun _ => StateRun.Keeps.modify fun s hs => (h s).trans hs

/-- A program known by what it returns and the state it leaves. -/
theorem of_apply {x : Fw α} {v : Firmware → α} {f : Firmware → Firmware}
    (hx : ∀ s, x s = .ok (v s) (f s)) (h : ∀ s, (f s).heap = s.heap) : KeepsHeap x := by
  intro H s hs
  rw [hx]
  exact (h s).trans hs

theorem of_ok {x : Fw α} (hx : KeepsHeap x) {s s' : Firmware} {a : α} (h : x s = .ok a s') :
    s'.heap = s.heap := by
  have hkept := hx s.heap s rfl
  rwa [h] at hkept

theorem forM {ι : Type} {f : ι → Fw PUnit} (l : List ι) (hf : ∀ a ∈ l, KeepsHeap (f a)) :
    KeepsHeap (forM l f) := fun H => StateRun.Keeps.forM l fun a ha => hf a ha H

theorem panicIf (c : Prop) [Decidable c] : KeepsHeap (panicIf c) :=
  ite (throw _) (pure _)

theorem poke (p : BitVec 32) (bs : List Bytes.Byte) : KeepsHeap (poke p bs) := modify fun _ => rfl

theorem peek (p : BitVec 32) (n : Nat) : KeepsHeap (peek p n) := get.bind fun _ => pure _

end KeepsHeap

end Qboot
