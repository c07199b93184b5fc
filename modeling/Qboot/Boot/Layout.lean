import Qboot.Boot.Footprint
import Qboot.Reserved

/-!
Where the blocks of a boot lie, from any state on. While every request fits,
they are in their reserved ranges and beside everything that the allocators no
longer own.
-/

namespace Qboot

open Bytes ByteMemory

/-- Memory that neither allocator has handed out. -/
def Firmware.Unallocated (s : Firmware) (a : BitVec 32) : Prop :=
  nvsStart ≤ a.toNat ∧ a.toNat < s.mallocTop.toNat ∨
    s.fsegBase.toNat ≤ a.toNat ∧ a.toNat < fsegEnd

/-- The blocks behind those of `old` are in their ranges and beside `taken`. -/
structure Apportioned (edata : BitVec 32) (taken : BitVec 32 → Prop) (old : List Alloc)
    (s : Firmware) : Prop where
  pointers : PointersInside edata s
  left : ∀ a, taken a → ¬ s.Unallocated a
  blocks : ∃ new, s.allocs = new ++ old ∧
    ∀ b ∈ new, b.InReserved edata ∧ ∀ a, taken a → ¬ Within b.base b.size.toNat a

section Layout

variable {edata n align : BitVec 32} {taken : BitVec 32 → Prop} {old new : List Alloc}
  {s t : Firmware}

/-- A block that fits comes out of the unallocated memory, which only shrinks. -/
theorem request_apportioned (zone : Zone) (hedata : fsegStart ≤ edata.toNat)
    (hs : PointersInside edata s) (halign : 0 < align.toNat)
    (hfits : (s.request zone n align).Fits) :
    let b := s.request zone n align
    b.InReserved edata ∧ (∀ a, Within b.base b.size.toNat a → s.Unallocated a) ∧
      ∀ a, (s.allocate b).Unallocated a → s.Unallocated a := by
  intro b
  have hlow := hs.low
  have htop := hs.top
  have hfseg := hs.fseg
  have hlimit := hs.limit
  cases zone with
  | low =>
    have hroom : n.toNat + b.padding ≤ s.mallocTop.toNat - nvsStart := hfits
    have hend : b.base.toNat + (n.toNat + b.padding) = s.mallocTop.toNat :=
      lowBase_add halign (by omega)
    have hin : b.InReserved edata := (low_fits_iff hs halign).mpr hfits
    refine ⟨hin, fun a ha => ?_, fun a ha => ?_⟩
    · have hwithin := (within_iff (p := b.base) (n := n.toNat) (by
        have := s.mallocTop.isLt
        omega)).mp ha
      left
      omega
    · have htop' : (s.allocate b).mallocTop = b.base := rfl
      have hbase' : (s.allocate b).fsegBase = s.fsegBase := rfl
      rw [Firmware.Unallocated, htop', hbase'] at ha
      rw [Firmware.Unallocated]
      omega
  | fseg =>
    have hroom : n.toNat + b.padding ≤ fsegEnd - s.fsegBase.toNat := hfits
    have hnowrap : s.fsegBase.toNat + align.toNat - 1 < 2 ^ 32 := by
      by_contra hwrap
      have hpadding := (fseg_wraps (n := n) hlimit (Nat.not_lt.mp hwrap)).2
      change fsegEnd < b.padding at hpadding
      omega
    have hbase : b.base.toNat = s.fsegBase.toNat + b.padding := fsegBase_add halign hnowrap
    have hend : fsegEnd = 0x100000 := rfl
    have hin : b.InReserved edata := by
      change edata.toNat ≤ b.base.toNat ∧ b.base.toNat + n.toNat ≤ fsegEnd
      omega
    refine ⟨hin, fun a ha => ?_, fun a ha => ?_⟩
    · have hwithin := (within_iff (p := b.base) (n := n.toNat) (by omega)).mp ha
      right
      omega
    · have htop' : (s.allocate b).mallocTop = s.mallocTop := rfl
      have hbase' : (s.allocate b).fsegBase.toNat = b.base.toNat + n.toNat := by
        change (b.base + n).toNat = _
        rw [BitVec.toNat_add, Nat.mod_eq_of_lt (by omega)]
      rw [Firmware.Unallocated, htop', hbase'] at ha
      rw [Firmware.Unallocated]
      omega

theorem Apportioned.congr (h : Apportioned edata taken old s) (hheap : s.heap = t.heap) :
    Apportioned edata taken old t := by
  obtain ⟨htop, hbase, hallocs⟩ : s.mallocTop = t.mallocTop ∧ s.fsegBase = t.fsegBase ∧
      s.allocs = t.allocs := by simpa [Firmware.heap] using hheap
  obtain ⟨hlow, htop', hfseg, hlimit⟩ := h.pointers
  refine ⟨⟨htop ▸ hlow, htop ▸ htop', hbase ▸ hfseg, hbase ▸ hlimit⟩, fun a ha => ?_,
    hallocs ▸ h.blocks⟩
  have hleft := h.left a ha
  rw [Firmware.Unallocated, htop, hbase] at hleft
  exact hleft

/-- Every program that only calls the allocators keeps the blocks apportioned,
while the requests fit. -/
theorem heapInvariant_apportioned (hedata : fsegStart ≤ edata.toNat)
    (taken : BitVec 32 → Prop) (old : List Alloc) :
    HeapInvariant fun s => (∀ a ∈ s.allocs, a.Fits) → Apportioned edata taken old s := by
  constructor
  · intro s t hheap hs hfits
    have hallocs : s.allocs = t.allocs := congrArg (fun heap => heap.2.2) hheap
    exact (hs (hallocs ▸ hfits)).congr hheap
  · intro s zone n align halign hs hfits
    rw [allocate_allocs, List.forall_mem_cons] at hfits
    have h := hs hfits.2
    obtain ⟨hin, hblock, hshrinks⟩ := request_apportioned zone hedata h.pointers halign hfits.1
    obtain ⟨new, hnew, hblocks⟩ := h.blocks
    refine ⟨h.pointers.allocate halign hfits.1, fun a ha hfree => h.left a ha (hshrinks a hfree),
      s.request zone n align :: new, ?_, ?_⟩
    · rw [allocate_allocs, hnew, List.cons_append]
    · intro b hb
      rcases List.mem_cons.mp hb with rfl | hb
      · exact ⟨hin, fun a ha hwithin => h.left a ha (hblock a hwithin)⟩
      · exact hblocks b hb

/-- What the allocators own at the start is a matter of the pointers alone. -/
theorem apportioned_start (hs : PointersInside edata s)
    (hleft : ∀ a, taken a → ¬ s.Unallocated a) : Apportioned edata taken s.allocs s :=
  ⟨hs, hleft, [], rfl, fun _ hb => absurd hb List.not_mem_nil⟩

/-- Memory that is taken only changes in the area that a program names. -/
theorem Touched.taken_kept {β : Type} {f : Firmware → β} {area : BitVec 32 → Prop}
    (h : Touched f area new s t) (happ : Apportioned edata taken s.allocs t) {a : BitVec 32}
    (ha : taken a) (harea : ¬ area a) : t.mem a = s.mem a := by
  obtain ⟨new', hnew, hblocks⟩ := happ.blocks
  have hsame : new = new' := List.append_cancel_right (h.allocs.symm.trans hnew)
  exact h.frame a harea fun b hb => (hblocks b (hsame ▸ hb)).2 a ha

end Layout

end Qboot
