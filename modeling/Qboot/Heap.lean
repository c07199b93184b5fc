import Qboot.Malloc

/-!
Runs of the two allocators. Whatever the order of the calls and whatever the
alignments, blocks that do not wrap lie on their side of the unallocated
memory and do not meet.
-/

namespace Qboot

open ByteMemory

/-- The arguments of one call. -/
structure Request where
  zone : Zone
  size : BitVec 32
  align : BitVec 32
deriving DecidableEq

/-- The calls one after the other, and the pointers they return. -/
def runRequests : List Request → Fw (List (BitVec 32))
  | [] => pure []
  | r :: rs => do
    let p ← mallocIn r.zone r.size r.align
    let ps ← runRequests rs
    pure (p :: ps)

/-- The call an allocation record is about. -/
def Alloc.request (a : Alloc) : Request where
  zone := a.zone
  size := a.size
  align := a.align

/-- The block lies below `top` or behind `base`, on the side of its zone. -/
def Alloc.OnItsSide (a : Alloc) (top base : BitVec 32) : Prop :=
  match a.zone with
  | .low => a.base.toNat + a.size.toNat ≤ top.toNat
  | .fseg => base.toNat ≤ a.base.toNat ∧ a.base.toNat + a.size.toNat < 2 ^ 32

/-- An alignment that is a power of two holds. -/
def Alloc.Aligned (a : Alloc) : Prop := ∀ k, a.align.toNat = 2 ^ k → a.align.toNat ∣ a.base.toNat

/-- No byte lies in both blocks. -/
def Alloc.Apart (a b : Alloc) : Prop :=
  ByteMemory.Apart a.base a.size.toNat b.base b.size.toNat

theorem Alloc.OnItsSide.mono {a : Alloc} {top top' base base' : BitVec 32}
    (h : a.OnItsSide top base) (htop : top.toNat ≤ top'.toNat) (hbase : base'.toNat ≤ base.toNat) :
    a.OnItsSide top' base' := by
  unfold Alloc.OnItsSide at h ⊢
  cases hzone : a.zone with
  | low =>
    simp only [hzone] at h ⊢
    exact h.trans htop
  | fseg =>
    simp only [hzone] at h ⊢
    exact ⟨hbase.trans h.1, h.2⟩

theorem request_aligned (s : Firmware) (zone : Zone) (n align : BitVec 32) :
    (s.request zone n align).Aligned := by
  intro k hk
  cases zone with
  | low => exact Rounding.dvd_and_neg hk
  | fseg => exact Rounding.dvd_and_neg hk

/-- What one call leaves: its block is on its side of the old pointers, and
everything on its side of the new pointers is apart from it. -/
theorem allocate_side {s : Firmware} {zone : Zone} {n align : BitVec 32}
    (hzones : s.mallocTop.toNat ≤ s.fsegBase.toNat) (ha : 0 < align.toNat)
    (hwrap : (s.request zone n align).NoWrap) :
    let a := s.request zone n align
    let t := s.allocate a
    a.OnItsSide s.mallocTop s.fsegBase ∧ t.mallocTop.toNat ≤ s.mallocTop.toNat ∧
      s.fsegBase.toNat ≤ t.fsegBase.toNat ∧
      ∀ b : Alloc, b.OnItsSide t.mallocTop t.fsegBase → a.Apart b := by
  intro a t
  have htopLt := s.mallocTop.isLt
  cases zone with
  | low =>
    have hend : a.base.toNat + n.toNat ≤ s.mallocTop.toNat := lowBase_le hwrap
    have htop : t.mallocTop = a.base := rfl
    have hbase : t.fsegBase = s.fsegBase := rfl
    refine ⟨hend, ?_, ?_, ?_⟩
    · rw [htop]
      omega
    · rw [hbase]
    · intro b hb
      unfold Alloc.OnItsSide at hb
      cases hzone : b.zone with
      | low =>
        simp only [hzone, htop] at hb
        exact (apart_of_le hb (by change a.base.toNat + n.toNat ≤ _; omega)).symm
      | fseg =>
        simp only [hzone, hbase] at hb
        exact apart_of_le (by change a.base.toNat + n.toNat ≤ _; omega) (by omega)
  | fseg =>
    have hstart : s.fsegBase.toNat ≤ a.base.toNat := fsegAlignedBase_ge ha hwrap.1
    have hend : a.base.toNat + n.toNat < 2 ^ 32 := hwrap.2
    have htop : t.mallocTop = s.mallocTop := rfl
    have hbase : t.fsegBase.toNat = a.base.toNat + n.toNat := by
      change (a.base + n).toNat = _
      rw [BitVec.toNat_add, Nat.mod_eq_of_lt hend]
    refine ⟨⟨hstart, hend⟩, ?_, ?_, ?_⟩
    · rw [htop]
    · omega
    · intro b hb
      unfold Alloc.OnItsSide at hb
      cases hzone : b.zone with
      | low =>
        simp only [hzone, htop] at hb
        exact (apart_of_le (by omega) (by change a.base.toNat + n.toNat ≤ _; omega)).symm
      | fseg =>
        simp only [hzone] at hb
        exact apart_of_le (by change a.base.toNat + n.toNat ≤ _; omega) (by omega)

/-- The allocations a run makes, in the order of the calls. -/
def Firmware.blocks (s : Firmware) : List Request → List Alloc
  | [] => []
  | r :: rs =>
    let a := s.request r.zone r.size r.align
    a :: (s.allocate a).blocks rs

/-- A run returns the start of each block and logs it. -/
theorem runRequests_apply (s : Firmware) (rs : List Request) :
    ∃ s', runRequests rs s = .ok ((s.blocks rs).map Alloc.base) s' ∧
      s'.allocs = (s.blocks rs).reverse ++ s.allocs := by
  induction rs generalizing s with
  | nil => exact ⟨s, rfl, rfl⟩
  | cons r rs ih =>
    obtain ⟨s', hrun, hallocs⟩ := ih (s.allocate (s.request r.zone r.size r.align))
    refine ⟨s', ?_, ?_⟩
    · rw [runRequests, StateRun.bind_of_ok (mallocIn_apply _ _ _ s), StateRun.bind_of_ok hrun]
      rfl
    · rw [hallocs, allocate_allocs, Firmware.blocks, List.reverse_cons, List.append_assoc]
      rfl

theorem request_request (s : Firmware) (r : Request) :
    (s.request r.zone r.size r.align).request = r := by
  cases r with
  | mk zone size align => cases zone <;> rfl

theorem map_request_blocks (s : Firmware) (rs : List Request) :
    (s.blocks rs).map Alloc.request = rs := by
  induction rs generalizing s with
  | nil => rfl
  | cons r rs ih => rw [Firmware.blocks, List.map_cons, request_request, ih]

theorem blocks_aligned (s : Firmware) (rs : List Request) : ∀ a ∈ s.blocks rs, a.Aligned := by
  induction rs generalizing s with
  | nil =>
    intro a ha
    cases ha
  | cons r rs ih =>
    intro a ha
    rcases List.mem_cons.mp ha with rfl | ha
    · exact request_aligned s r.zone r.size r.align
    · exact ih _ a ha

/-- Blocks that do not wrap are pairwise apart, and on their side of the
pointers the run started from. -/
theorem blocks_apart {s : Firmware} {rs : List Request}
    (hzones : s.mallocTop.toNat ≤ s.fsegBase.toNat) (halign : ∀ r ∈ rs, 0 < r.align.toNat)
    (hwrap : ∀ a ∈ s.blocks rs, a.NoWrap) :
    (s.blocks rs).Pairwise Alloc.Apart ∧
      ∀ a ∈ s.blocks rs, a.OnItsSide s.mallocTop s.fsegBase := by
  induction rs generalizing s with
  | nil =>
    refine ⟨List.Pairwise.nil, fun a ha => ?_⟩
    cases ha
  | cons r rs ih =>
    obtain ⟨hside, htop, hbase, hapart⟩ := allocate_side hzones (halign r (by simp))
      (hwrap _ (List.mem_cons_self ..))
    obtain ⟨hpair, hsides⟩ := ih (s := s.allocate (s.request r.zone r.size r.align)) (by omega)
      (fun q hq => halign q (by simp [hq])) fun a ha => hwrap a (List.mem_cons_of_mem _ ha)
    refine ⟨List.pairwise_cons.mpr ⟨fun b hb => hapart b (hsides b hb), hpair⟩, fun b hb => ?_⟩
    rcases List.mem_cons.mp hb with rfl | hb
    · exact hside
    · exact (hsides b hb).mono htop hbase

/-- Any sequence of calls of the two allocators returns blocks that hold their
alignment; if no address wraps, they are pairwise apart, low blocks lie below
the old top and F-segment blocks at or above the old base. -/
theorem runRequests_apart {s : Firmware} {rs : List Request}
    (hzones : s.mallocTop.toNat ≤ s.fsegBase.toNat) (halign : ∀ r ∈ rs, 0 < r.align.toNat) :
    ∃ (as : List Alloc) (s' : Firmware), runRequests rs s = .ok (as.map Alloc.base) s' ∧
      as.map Alloc.request = rs ∧ s'.allocs = as.reverse ++ s.allocs ∧
      (∀ a ∈ as, a.Aligned) ∧
      ((∀ a ∈ as, a.NoWrap) →
        as.Pairwise Alloc.Apart ∧ ∀ a ∈ as, a.OnItsSide s.mallocTop s.fsegBase) := by
  obtain ⟨s', hrun, hallocs⟩ := runRequests_apply s rs
  exact ⟨s.blocks rs, s', hrun, map_request_blocks s rs, hallocs, blocks_aligned s rs,
    blocks_apart hzones halign⟩

/-- Low blocks with the alignments 24 and 4096, and an F-segment block. -/
def threeRequests : List Request :=
  [{ zone := .low, size := 100#32, align := 24#32 }, { zone := .fseg, size := 31#32, align := 16#32 },
    { zone := .low, size := 8#32, align := 4096#32 }]

def emptyMachine : Firmware :=
  Firmware.initial { entry := fun _ => [], key := 0#16, pos := 0 } (fun _ => 0#8) 0xf0000#32
    0xf4000#32

theorem runRequests_apart_three : (emptyMachine.blocks threeRequests).Pairwise Alloc.Apart := by
  obtain ⟨as, s', hrun, -, hallocs, -, hapart⟩ := runRequests_apart
    (s := emptyMachine) (by decide) (by decide : ∀ r ∈ threeRequests, 0 < r.align.toNat)
  obtain ⟨t, hrun', hallocs'⟩ := runRequests_apply emptyMachine threeRequests
  rw [hrun] at hrun'
  obtain rfl : s' = t := (EStateM.Result.ok.inj hrun').2
  rw [hallocs] at hallocs'
  obtain rfl : as = emptyMachine.blocks threeRequests :=
    List.reverse_injective (List.append_cancel_right hallocs')
  exact (hapart (by decide)).1

end Qboot
