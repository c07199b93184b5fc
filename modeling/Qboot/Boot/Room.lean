import Qboot.Acpi.Safety
import Qboot.Boot.Layout

/-!
What a sequence of requests costs. The sums of sizes and paddings say whether
all blocks of a plan stay inside the reserved ranges, and the first block that
does not fit lies outside. A program that follows its plan therefore keeps its
blocks inside exactly if the plan fits.
-/

namespace Qboot

open Bytes ByteMemory

/-- The memory that the allocators have left: below `top` and from `base` on. -/
structure Room where
  top : Nat
  base : Nat
deriving DecidableEq

namespace Room

/-- The bytes that the alignment costs. -/
def padding (m : Room) (r : Request) : Nat :=
  match r.zone with
  | .low => (m.top - r.size.toNat) &&& (r.align.toNat - 1)
  | .fseg => (r.align.toNat - 1) - ((m.base + r.align.toNat - 1) &&& (r.align.toNat - 1))

def cost (m : Room) (r : Request) : Nat := r.size.toNat + m.padding r

/-- The bytes that are left in the range of a zone. -/
def left (m : Room) : Zone → Nat
  | .low => m.top - nvsStart
  | .fseg => fsegEnd - m.base

def take (m : Room) (r : Request) : Room :=
  match r.zone with
  | .low => { m with top := m.top - m.cost r }
  | .fseg => { m with base := m.base + m.cost r }

/-- There is room for the requests, one after the other. -/
def Fits : Room → List Request → Prop
  | _, [] => True
  | m, r :: rs => m.cost r ≤ m.left r.zone ∧ (m.take r).Fits rs

instance decidableFits : (m : Room) → (rs : List Request) → Decidable (m.Fits rs)
  | _, [] => inferInstanceAs (Decidable True)
  | m, r :: rs =>
    haveI := decidableFits (m.take r) rs
    inferInstanceAs (Decidable (_ ∧ _))

def after : Room → List Request → Room
  | m, [] => m
  | m, r :: rs => (m.take r).after rs

theorem fits_append (m : Room) (rs qs : List Request) :
    m.Fits (rs ++ qs) ↔ m.Fits rs ∧ (m.after rs).Fits qs := by
  induction rs generalizing m with
  | nil => exact (true_and _ ▸ Iff.rfl)
  | cons r rs ih => rw [List.cons_append, Fits, Fits, after, ih, and_assoc]

end Room

/-! ### Requests that fit -/

def Firmware.room (s : Firmware) : Room := { top := s.mallocTop.toNat, base := s.fsegBase.toNat }

theorem room_congr {s t : Firmware} (h : s.heap = t.heap) : s.room = t.room := by
  obtain ⟨htop, hbase, -⟩ : s.mallocTop = t.mallocTop ∧ s.fsegBase = t.fsegBase ∧
      s.allocs = t.allocs := by simpa [Firmware.heap] using h
  rw [Firmware.room, Firmware.room, htop, hbase]

theorem pointersInside_congr {edata : BitVec 32} {s t : Firmware} (h : s.heap = t.heap)
    (hs : PointersInside edata s) : PointersInside edata t := by
  obtain ⟨htop, hbase, -⟩ : s.mallocTop = t.mallocTop ∧ s.fsegBase = t.fsegBase ∧
      s.allocs = t.allocs := by simpa [Firmware.heap] using h
  obtain ⟨hlow, htop', hfseg, hlimit⟩ := hs
  exact ⟨htop ▸ hlow, htop ▸ htop', hbase ▸ hfseg, hbase ▸ hlimit⟩

/-- Every block so far is where it belongs. -/
def LogKept (edata : BitVec 32) (s : Firmware) : Prop :=
  ∀ b ∈ s.allocs, b.Refused ∨ b.InReserved edata

section Requests

variable {edata : BitVec 32} {s : Firmware} {r : Request} {rs : List Request}

theorem request_fits (s : Firmware) (r : Request) :
    (s.request r.zone r.size r.align).Fits ↔ s.room.cost r ≤ s.room.left r.zone := by
  obtain ⟨zone, size, align⟩ := r
  cases zone <;> exact Iff.rfl

/-- What is left when a request that fits has got its block. -/
theorem allocate_fits (hedata : fsegStart ≤ edata.toNat) (hs : PointersInside edata s)
    (halign : 0 < r.align.toNat) (hfits : s.room.cost r ≤ s.room.left r.zone) :
    let b := s.request r.zone r.size r.align
    (s.allocate b).room = s.room.take r ∧ b.NoWrap ∧ b.base ≠ 0#32 := by
  have hlow := hs.low
  have htop := hs.top
  have hfseg := hs.fseg
  have hlimit := hs.limit
  obtain ⟨zone, n, align⟩ := r
  rw [nvsStart, fsegStart, fsegEnd] at *
  have hne : ∀ p : BitVec 32, 0 < p.toNat → p ≠ 0#32 := by
    rintro p hp rfl
    exact absurd hp (by decide)
  cases zone with
  | low =>
    have hroom : n.toNat + (s.request .low n align).padding ≤ s.mallocTop.toNat - 0xd0000 := hfits
    have hend : (s.request .low n align).base.toNat +
        (n.toNat + (s.request .low n align).padding) = s.mallocTop.toNat :=
      lowBase_add halign (by omega)
    refine ⟨?_, ?_, hne _ ?_⟩
    · have htake : s.room.take { zone := .low, size := n, align := align } =
          { top := s.mallocTop.toNat - (n.toNat + (s.request .low n align).padding)
            base := s.fsegBase.toNat } := rfl
      have hroom' : (s.allocate (s.request .low n align)).room =
          { top := (s.request .low n align).base.toNat, base := s.fsegBase.toNat } := rfl
      rw [htake, hroom', Room.mk.injEq]
      exact ⟨by omega, rfl⟩
    · change n.toNat ≤ s.mallocTop.toNat
      omega
    · change 0 < (s.request .low n align).base.toNat
      omega
  | fseg =>
    have hroom : n.toNat + (s.request .fseg n align).padding ≤ 0x100000 - s.fsegBase.toNat := hfits
    have hnowrap : s.fsegBase.toNat + align.toNat - 1 < 2 ^ 32 := by
      by_contra hwrap
      have hpadding := (fseg_wraps (n := n) hs.limit (Nat.not_lt.mp hwrap)).2
      rw [fsegEnd] at hpadding
      omega
    have hbase : (s.request .fseg n align).base.toNat =
        s.fsegBase.toNat + (s.request .fseg n align).padding := fsegBase_add halign hnowrap
    refine ⟨?_, ⟨hnowrap, ?_⟩, hne _ ?_⟩
    · have htake : s.room.take { zone := .fseg, size := n, align := align } =
          { top := s.mallocTop.toNat
            base := s.fsegBase.toNat + (n.toNat + (s.request .fseg n align).padding) } := rfl
      have hroom' : (s.allocate (s.request .fseg n align)).room =
          { top := s.mallocTop.toNat
            base := ((s.request .fseg n align).base + n).toNat } := rfl
      rw [htake, hroom', Room.mk.injEq, BitVec.toNat_add]
      exact ⟨rfl, by omega⟩
    · change (s.request .fseg n align).base.toNat + n.toNat < 2 ^ 32
      omega
    · change 0 < (s.request .fseg n align).base.toNat
      omega

theorem takes_append (s : Firmware) (rs qs : List Request) :
    s.takes (rs ++ qs) = (s.takes rs).takes qs := by
  induction rs generalizing s with
  | nil => rfl
  | cons r rs ih => exact ih _

/-- Requests that fit have blocks inside the reserved ranges. -/
theorem takes_fits (hedata : fsegStart ≤ edata.toNat) (hs : PointersInside edata s)
    (halign : ∀ r ∈ rs, 0 < r.align.toNat) (hfits : s.room.Fits rs) :
    PointersInside edata (s.takes rs) ∧ (s.takes rs).room = s.room.after rs ∧
      s.BlocksUsable rs ∧ (LogKept edata s → LogKept edata (s.takes rs)) := by
  induction rs generalizing s with
  | nil => exact ⟨hs, rfl, fun b hb => absurd hb List.not_mem_nil, id⟩
  | cons r rs ih =>
    obtain ⟨hfirst, hrest⟩ := hfits
    have hpos := halign r List.mem_cons_self
    obtain ⟨hroom, husable⟩ := allocate_fits hedata hs hpos hfirst
    have hblock := (request_fits s r).mpr hfirst
    have hnext := hs.allocate hpos hblock
    rw [← hroom] at hrest
    obtain ⟨hinside, hafter, hblocks, hlog⟩ :=
      ih hnext (fun q hq => halign q (List.mem_cons_of_mem _ hq)) hrest
    refine ⟨hinside, by rw [Room.after, ← hroom]; exact hafter, ?_, fun hkept => hlog ?_⟩
    · intro b hb
      rcases List.mem_cons.mp hb with rfl | hb
      · exact husable
      · exact hblocks b hb
    · rw [LogKept, allocate_allocs, List.forall_mem_cons]
      exact ⟨(request_fits_iff r.zone hedata hs hpos).mpr hblock, hkept⟩

end Requests

/-! ### Programs that follow a plan -/

/-- A result with the planned end, the planned blocks, and `Q` if it returns. -/
def Ending.Carried {α : Type} (x : EStateM.Result Stop Firmware α) (s : Firmware)
    (rs : List Request) (Q : α → Firmware → Prop) : Ending → Prop
  | .returns => ∃ a t, x = .ok a t ∧ t.heap = (s.takes rs).heap ∧ Q a t
  | .panics => ∃ t, x = .error .panic t ∧ t.heap = (s.takes rs).heap
  | _ => True

/-- If the plan fits, the program allocates its blocks and ends as planned; if
not, some block is not where it belongs. -/
structure Follows (edata : BitVec 32) {α : Type} (x : Fw α) (p : Plan) (s : Firmware)
    (Q : α → Firmware → Prop) : Prop where
  aligned : ∀ r ∈ p.requests, 0 < r.align.toNat
  fits : s.room.Fits p.requests → p.ending.Carried (x s) s p.requests Q
  misfits : ¬ s.room.Fits p.requests → ¬ LogKept edata (StateRun.final (x s))

/-- The blocks of the program are those of the plan, if it fits. -/
structure Logs (edata : BitVec 32) {α : Type} (x : Fw α) (p : Plan) (s : Firmware) : Prop where
  aligned : ∀ r ∈ p.requests, 0 < r.align.toNat
  fits : p.ending.Meant → s.room.Fits p.requests →
    (StateRun.final (x s)).heap = (s.takes p.requests).heap
  misfits : ¬ s.room.Fits p.requests → ¬ LogKept edata (StateRun.final (x s))

namespace Plan

/-- No block, and this end. -/
def stops (e : Ending) : Plan := { requests := [], ending := e }

/-- One block. -/
def block (zone : Zone) (n align : BitVec 32) : Plan :=
  { requests := [{ zone := zone, size := n, align := align }], ending := .returns }

/-- The second plan comes into play if the first part returns. -/
def andThen (p q : Plan) : Plan :=
  if p.ending = .returns then { requests := p.requests ++ q.requests, ending := q.ending } else p

theorem stops_andThen (q : Plan) : (stops .returns).andThen q = q := rfl

end Plan

/-- A program that leaves the log alone or adds to it. -/
def Grows {α : Type} (x : Fw α) : Prop :=
  ∀ b : Alloc, StateRun.Keeps (fun s => b ∈ s.allocs) x

section Rules

variable {α β : Type} {edata : BitVec 32} {x : Fw α} {f : α → Fw β} {p q : Plan} {s t : Firmware}
  {a : α} {e : Ending} {Q : α → Firmware → Prop} {R : β → Firmware → Prop}

theorem KeepsHeap.grows (h : KeepsHeap x) : Grows x := fun b => h.keeps (heapInvariant_mem b)

theorem not_logKept_bind (hf : ∀ a, Grows (f a)) (h : ¬ LogKept edata (StateRun.final (x s))) :
    ¬ LogKept edata (StateRun.final ((x >>= f) s)) := by
  intro hkept
  refine h fun b hb => hkept b ?_
  exact StateRun.Keeps.after (fun a => hf a b) hb

theorem Ending.Carried.congr {y : EStateM.Result Stop Firmware α} {rs : List Request}
    (hheap : t.heap = s.heap) (h : e.Carried y t rs Q) : e.Carried y s rs Q := by
  have htakes := heap_takes_congr hheap rs
  cases e with
  | returns =>
    obtain ⟨a, u, hrun, hu, hQ⟩ := h
    exact ⟨a, u, hrun, hu.trans htakes, hQ⟩
  | panics =>
    obtain ⟨u, hrun, hu⟩ := h
    exact ⟨u, hrun, hu.trans htakes⟩
  | indexes => trivial
  | strays => trivial
  | overruns => trivial

/-! ### Rules for one part -/

/-- A part without allocations. -/
theorem Follows.silent (h : e.Carried (x s) s [] Q) : Follows edata x (Plan.stops e) s Q where
  aligned _ hr := absurd hr List.not_mem_nil
  fits _ := h
  misfits hne := absurd trivial hne

theorem Logs.silent (h : KeepsHeap x) (s : Firmware) (e : Ending) :
    Logs edata x (Plan.stops e) s where
  aligned _ hr := absurd hr List.not_mem_nil
  fits _ _ := h s.heap s rfl
  misfits hne := absurd trivial hne

/-- A step that is no matter for the allocators. -/
theorem Follows.after_step (hx : x s = .ok a t) (hheap : t.heap = s.heap)
    (h : Follows edata (f a) p t R) : Follows edata (x >>= f) p s R := by
  have hrun : (x >>= f) s = f a t := StateRun.bind_of_ok hx
  refine ⟨h.aligned, fun hfits => ?_, fun hne => ?_⟩
  · rw [hrun]
    exact (h.fits (room_congr hheap ▸ hfits)).congr hheap
  · rw [hrun]
    exact h.misfits (room_congr hheap ▸ hne)

theorem Logs.after_step (hx : x s = .ok a t) (hheap : t.heap = s.heap)
    (h : Logs edata (f a) p t) : Logs edata (x >>= f) p s := by
  have hrun : (x >>= f) s = f a t := StateRun.bind_of_ok hx
  refine ⟨h.aligned, fun hmeant hfits => ?_, fun hne => ?_⟩
  · rw [hrun, h.fits hmeant (room_congr hheap ▸ hfits)]
    exact heap_takes_congr hheap _
  · rw [hrun]
    exact h.misfits (room_congr hheap ▸ hne)

/-- A part that leaves the allocators as one allocation does. -/
theorem Follows.of_heap (hedata : fsegStart ≤ edata.toNat) (hs : PointersInside edata s)
    (r : Request) (halign : 0 < r.align.toNat)
    (hheap : (StateRun.final (x s)).heap = (s.allocate (s.request r.zone r.size r.align)).heap)
    (hfits : s.room.Fits [r] → e.Carried (x s) s [r] Q) :
    Follows edata x { requests := [r], ending := e } s Q where
  aligned q hq := by
    rw [List.mem_singleton.mp hq]
    exact halign
  fits := hfits
  misfits hne hkept := by
    have hallocs : (StateRun.final (x s)).allocs =
        s.request r.zone r.size r.align :: s.allocs :=
      (congrArg (fun heap => heap.2.2) hheap).trans (allocate_allocs s _)
    have hblock := (request_fits_iff r.zone hedata hs halign).mp
      (hkept _ (hallocs ▸ List.mem_cons_self))
    exact hne ⟨(request_fits s r).mp hblock, trivial⟩

/-- One allocation. -/
theorem Follows.malloc (hedata : fsegStart ≤ edata.toNat) (hs : PointersInside edata s)
    (zone : Zone) (n : BitVec 32) {align : BitVec 32} (halign : 0 < align.toNat) :
    Follows edata (mallocIn zone n align) (Plan.block zone n align) s fun p t =>
      p = (s.request zone n align).base ∧ t = s.allocate (s.request zone n align) ∧
        s.room.Fits (Plan.block zone n align).requests := by
  have hrun := mallocIn_apply zone n align s
  apply Follows.of_heap hedata hs _ halign
  · rw [hrun]
    rfl
  · exact fun hfits => ⟨_, _, hrun, rfl, rfl, rfl, hfits⟩

/-- What follows an allocation is no matter for the allocators. -/
theorem heap_malloc_bind {g : BitVec 32 → Fw β} (hg : ∀ p, KeepsHeap (g p)) (zone : Zone)
    (n align : BitVec 32) (s : Firmware) :
    (StateRun.final ((mallocIn zone n align >>= g) s)).heap =
      (s.allocate (s.request zone n align)).heap := by
  rw [StateRun.bind_of_ok (mallocIn_apply zone n align s)]
  exact hg _ _ _ rfl

/-! ### One part after the other -/

/-- Where the second part starts. -/
theorem Follows.returned (hedata : fsegStart ≤ edata.toNat) (hs : PointersInside edata s)
    (hx : Follows edata x p s Q) (hreturns : p.ending = .returns) (hfits : s.room.Fits p.requests) :
    ∃ a t, x s = .ok a t ∧ t.heap = (s.takes p.requests).heap ∧
      t.room = s.room.after p.requests ∧ PointersInside edata t ∧ Q a t := by
  have hcarried := hx.fits hfits
  rw [hreturns] at hcarried
  obtain ⟨a, t, hrun, hheap, hQ⟩ := hcarried
  obtain ⟨hinside, hroom, -, -⟩ := takes_fits hedata hs hx.aligned hfits
  exact ⟨a, t, hrun, hheap, (room_congr hheap).trans hroom,
    pointersInside_congr hheap.symm hinside, hQ⟩

theorem andThen_aligned (hp : ∀ r ∈ p.requests, 0 < r.align.toNat)
    (hq : ∀ r ∈ q.requests, 0 < r.align.toNat) :
    ∀ r ∈ (p.andThen q).requests, 0 < r.align.toNat := by
  unfold Plan.andThen
  split
  · intro r hr
    exact (List.mem_append.mp hr).elim (hp r) (hq r)
  · exact hp

theorem Follows.andThen (hedata : fsegStart ≤ edata.toNat) (hs : PointersInside edata s)
    (hx : Follows edata x p s Q) (hgrows : ∀ a, Grows (f a))
    (hq : ∀ r ∈ q.requests, 0 < r.align.toNat)
    (hf : ∀ a t, PointersInside edata t → Q a t → Logs edata (f a) q t) :
    Logs edata (x >>= f) (p.andThen q) s := by
  refine ⟨andThen_aligned hx.aligned hq, ?_, ?_⟩
  · unfold Plan.andThen
    split
    · rename_i hreturns
      intro hmeant hfits
      obtain ⟨hhead, htail⟩ := (s.room.fits_append _ _).mp hfits
      obtain ⟨a, t, hrun, hheap, hroom, hinside, hQ⟩ := hx.returned hedata hs hreturns hhead
      rw [StateRun.bind_of_ok hrun, (hf a t hinside hQ).fits hmeant (hroom ▸ htail), takes_append]
      exact heap_takes_congr hheap _
    · rename_i hstops
      intro hmeant hfits
      have hcarried := hx.fits hfits
      rw [hmeant.resolve_left hstops] at hcarried
      obtain ⟨t, hrun, hheap⟩ := hcarried
      rw [StateRun.bind_of_error hrun]
      exact hheap
  · intro hne
    by_cases hhead : s.room.Fits p.requests
    · unfold Plan.andThen at hne
      split at hne
      · rename_i hreturns
        obtain ⟨a, t, hrun, -, hroom, hinside, hQ⟩ := hx.returned hedata hs hreturns hhead
        rw [StateRun.bind_of_ok hrun]
        refine (hf a t hinside hQ).misfits fun htail => hne ?_
        exact (s.room.fits_append _ _).mpr ⟨hhead, hroom ▸ htail⟩
      · exact absurd hhead hne
    · exact not_logKept_bind hgrows (hx.misfits hhead)

/-- A program that logs its plan keeps its blocks inside if the plan fits and
ends as it should, and only if it fits. -/
theorem Logs.logKept (hedata : fsegStart ≤ edata.toNat) (hs : PointersInside edata s)
    (hlog : LogKept edata s) (h : Logs edata x p s) :
    (LogKept edata (StateRun.final (x s)) → s.room.Fits p.requests) ∧
      (p.ending.Meant → s.room.Fits p.requests → LogKept edata (StateRun.final (x s))) := by
  refine ⟨fun hkept => by_contra fun hne => h.misfits hne hkept, fun hmeant hfits => ?_⟩
  obtain ⟨-, -, -, htakes⟩ := takes_fits hedata hs h.aligned hfits
  have hallocs : (StateRun.final (x s)).allocs = (s.takes p.requests).allocs :=
    congrArg (fun heap => heap.2.2) (h.fits hmeant hfits)
  intro b hb
  exact htakes hlog b (hallocs ▸ hb)

end Rules

end Qboot
