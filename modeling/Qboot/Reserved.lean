import Qboot.FwCfg.Reread
import Qboot.Main

/-!
Where the blocks of a boot lie. The memory map keeps two ranges from the
kernel: 128 KiB below the firmware, and the F-segment, whose end the firmware
does not use. The allocators know where these ranges start to be free, but not
where they end.
-/

namespace Qboot

open Bytes

/-! ### The reserved ranges -/

/-- The NVS range of the memory map ends where the firmware starts. -/
def nvsStart : Nat := 0xd0000
def fsegStart : Nat := 0xf0000
def fsegEnd : Nat := 0x100000

example : { addr := BitVec.ofNat 64 nvsStart, size := BitVec.ofNat 64 (fsegStart - nvsStart),
            type := E820_NVS } ∈ fixedEntries ∧
    { addr := BitVec.ofNat 64 fsegStart, size := BitVec.ofNat 64 (fsegEnd - fsegStart),
      type := E820_RESERVED } ∈ fixedEntries := by decide

/-- The block lies in the range that the memory map reserves for its zone. -/
def Alloc.InReserved (a : Alloc) (edata : BitVec 32) : Prop :=
  match a.zone with
  | .low => nvsStart ≤ a.base.toNat ∧ a.base.toNat + a.size.toNat ≤ fsegStart
  | .fseg => edata.toNat ≤ a.base.toNat ∧ a.base.toNat + a.size.toNat ≤ fsegEnd

instance (a : Alloc) (edata : BitVec 32) : Decidable (a.InReserved edata) :=
  match a with
  | { zone := .low, .. } => inferInstanceAs (Decidable (_ ∧ _))
  | { zone := .fseg, .. } => inferInstanceAs (Decidable (_ ∧ _))

/-- `malloc_fseg` returned NULL, the one result that a caller takes for a
refusal. -/
def Alloc.Refused (a : Alloc) : Prop := a.zone = .fseg ∧ a.align = 16#32 ∧ a.base = 0#32

instance (a : Alloc) : Decidable a.Refused := inferInstanceAs (Decidable (_ ∧ _))

/-! ### When a request fits -/

/-- The bytes that the alignment costs: below a low block they lie behind it,
and in front of an F-segment block. -/
def Alloc.padding (a : Alloc) : Nat :=
  match a.zone with
  | .low => (a.start.toNat - a.size.toNat) &&& (a.align.toNat - 1)
  | .fseg => (a.align.toNat - 1) - ((a.start.toNat + a.align.toNat - 1) &&& (a.align.toNat - 1))

/-- The bytes of the range that are left when the call is made. -/
def Alloc.room (a : Alloc) : Nat :=
  match a.zone with
  | .low => a.start.toNat - nvsStart
  | .fseg => fsegEnd - a.start.toNat

/-- There is room for the block and its padding. -/
def Alloc.Fits (a : Alloc) : Prop := a.size.toNat + a.padding ≤ a.room

instance (a : Alloc) : Decidable a.Fits := inferInstanceAs (Decidable (_ ≤ _))

/-- Both pointers are in their ranges. -/
structure PointersInside (edata : BitVec 32) (s : Firmware) : Prop where
  low : nvsStart ≤ s.mallocTop.toNat
  top : s.mallocTop.toNat ≤ fsegStart
  fseg : edata.toNat ≤ s.fsegBase.toNat
  limit : s.fsegBase.toNat ≤ fsegEnd

section Request

variable {s : Firmware} {edata n align : BitVec 32}

/-- A low block and its padding end at the pointer. -/
theorem lowBase_add (halign : 0 < align.toNat) (hn : n.toNat ≤ s.mallocTop.toNat) :
    (s.request .low n align).base.toNat + (n.toNat + (s.request .low n align).padding) =
      s.mallocTop.toNat := by
  have hbase : (s.request .low n align).base.toNat = (s.mallocTop.toNat - n.toNat) -
      ((s.mallocTop.toNat - n.toNat) &&& (align.toNat - 1)) := by
    change ((s.mallocTop - n) &&& -align).toNat = _
    rw [Rounding.toNat_and_neg halign, BitVec.toNat_sub_of_le hn]
  have hpadding : (s.request .low n align).padding =
      (s.mallocTop.toNat - n.toNat) &&& (align.toNat - 1) := rfl
  have hle : (s.mallocTop.toNat - n.toNat) &&& (align.toNat - 1) ≤ s.mallocTop.toNat - n.toNat :=
    Nat.and_le_left
  omega

theorem low_fits_iff (hs : PointersInside edata s) (halign : 0 < align.toNat) :
    (s.request .low n align).InReserved edata ↔ (s.request .low n align).Fits := by
  have hlow := hs.low
  have htop := hs.top
  change (nvsStart ≤ (s.request .low n align).base.toNat ∧
    (s.request .low n align).base.toNat + n.toNat ≤ fsegStart) ↔
      n.toNat + (s.request .low n align).padding ≤ s.mallocTop.toNat - nvsStart
  rw [nvsStart, fsegStart] at *
  by_cases hn : n.toNat ≤ s.mallocTop.toNat
  · have hadd := lowBase_add halign hn
    omega
  · omega

/-- An F-segment block starts behind its padding, if no address wraps. -/
theorem fsegBase_add (halign : 0 < align.toNat)
    (hwrap : s.fsegBase.toNat + align.toNat - 1 < 2 ^ 32) :
    (s.request .fseg n align).base.toNat =
      s.fsegBase.toNat + (s.request .fseg n align).padding := by
  have hbase : (s.request .fseg n align).base.toNat = (s.fsegBase.toNat + align.toNat - 1) -
      ((s.fsegBase.toNat + align.toNat - 1) &&& (align.toNat - 1)) := by
    change ((s.fsegBase + align - 1#32) &&& -align).toNat = _
    rw [Rounding.toNat_and_neg halign, Rounding.toNat_add_sub_one halign hwrap]
  have hpadding : (s.request .fseg n align).padding = (align.toNat - 1) -
      ((s.fsegBase.toNat + align.toNat - 1) &&& (align.toNat - 1)) := rfl
  have hle : (s.fsegBase.toNat + align.toNat - 1) &&& (align.toNat - 1) ≤ align.toNat - 1 :=
    Nat.and_le_right
  omega

/-- An alignment that wraps the pointer puts the block at its lower half and
asks for more padding than there is room. -/
theorem fseg_wraps (hlimit : s.fsegBase.toNat ≤ fsegEnd)
    (hwrap : 2 ^ 32 ≤ s.fsegBase.toNat + align.toNat - 1) :
    (s.request .fseg n align).base.toNat < fsegStart ∧
      fsegEnd < (s.request .fseg n align).padding := by
  rw [fsegEnd] at *
  have hlt := align.isLt
  have hadd : (s.fsegBase + align - 1#32).toNat = s.fsegBase.toNat + align.toNat - 1 - 2 ^ 32 := by
    have hassoc : s.fsegBase + align - 1#32 = s.fsegBase + (align - 1#32) := by ring
    rw [hassoc, BitVec.toNat_add, Rounding.toNat_sub_one (by omega)]
    omega
  have hneg : (-align).toNat = 2 ^ 32 - align.toNat := by
    rw [BitVec.toNat_neg, Nat.mod_eq_of_lt (by omega)]
  have hbase : (s.request .fseg n align).base.toNat =
      (s.fsegBase.toNat + align.toNat - 1 - 2 ^ 32) &&& (2 ^ 32 - align.toNat) := by
    change ((s.fsegBase + align - 1#32) &&& -align).toNat = _
    rw [BitVec.toNat_and, hadd, hneg]
  have hleft : (s.fsegBase.toNat + align.toNat - 1 - 2 ^ 32) &&& (2 ^ 32 - align.toNat) ≤
      s.fsegBase.toNat + align.toNat - 1 - 2 ^ 32 := Nat.and_le_left
  have hright : (s.fsegBase.toNat + align.toNat - 1 - 2 ^ 32) &&& (2 ^ 32 - align.toNat) ≤
      2 ^ 32 - align.toNat := Nat.and_le_right
  have hpadding : (s.request .fseg n align).padding = (align.toNat - 1) -
      ((s.fsegBase.toNat + align.toNat - 1) &&& (align.toNat - 1)) := rfl
  -- the mask has only 32 bits, so the wrapped sum decides the conjunction
  have hmask : (s.fsegBase.toNat + align.toNat - 1) &&& (align.toNat - 1) ≤
      s.fsegBase.toNat + align.toNat - 1 - 2 ^ 32 := by
    have hle : (s.fsegBase.toNat + align.toNat - 1) &&& (align.toNat - 1) ≤ align.toNat - 1 :=
      Nat.and_le_right
    have hmod := Nat.and_mod_two_pow (n := 32) (a := s.fsegBase.toNat + align.toNat - 1)
      (b := align.toNat - 1)
    rw [Nat.mod_eq_of_lt (by omega)] at hmod
    have hsum : (s.fsegBase.toNat + align.toNat - 1) % 2 ^ 32 =
        s.fsegBase.toNat + align.toNat - 1 - 2 ^ 32 := by omega
    rw [hmod, hsum]
    exact Nat.and_le_left
  rw [fsegStart]
  omega

theorem fseg_fits_iff (hedata : fsegStart ≤ edata.toNat) (hs : PointersInside edata s)
    (halign : 0 < align.toNat) :
    ((s.request .fseg n align).Refused ∨ (s.request .fseg n align).InReserved edata) ↔
      (s.request .fseg n align).Fits := by
  have hfseg := hs.fseg
  have hlimit := hs.limit
  have hzero : (s.request .fseg n align).Refused → (s.request .fseg n align).base.toNat = 0 ∧
      align.toNat = 16 := by
    rintro ⟨-, halign, hbase⟩
    have heq : align = 16#32 := halign
    rw [hbase, heq]
    exact ⟨rfl, rfl⟩
  change (_ ∨ edata.toNat ≤ (s.request .fseg n align).base.toNat ∧
    (s.request .fseg n align).base.toNat + n.toNat ≤ fsegEnd) ↔
      n.toNat + (s.request .fseg n align).padding ≤ fsegEnd - s.fsegBase.toNat
  by_cases hwrap : s.fsegBase.toNat + align.toNat - 1 < 2 ^ 32
  · have hadd := fsegBase_add (n := n) halign hwrap
    rw [fsegStart, fsegEnd] at *
    constructor
    · rintro (hrefused | hin)
      · have hbase := (hzero hrefused).1
        omega
      · omega
    · intro hfits
      right
      omega
  · obtain ⟨hbase, hpadding⟩ := fseg_wraps (n := n) hlimit (Nat.not_lt.mp hwrap)
    rw [fsegStart, fsegEnd] at *
    constructor
    · rintro (hrefused | hin)
      · have halign16 := (hzero hrefused).2
        omega
      · omega
    · intro hfits
      omega

/-- From pointers inside their ranges a request stays inside exactly if it
fits, and it is never refused. -/
theorem request_fits_iff (zone : Zone) (hedata : fsegStart ≤ edata.toNat)
    (hs : PointersInside edata s) (halign : 0 < align.toNat) :
    ((s.request zone n align).Refused ∨ (s.request zone n align).InReserved edata) ↔
      (s.request zone n align).Fits := by
  cases zone with
  | low =>
    refine Iff.trans ⟨?_, Or.inr⟩ (low_fits_iff hs halign)
    rintro (⟨hzone, -⟩ | hin)
    · cases hzone
    · exact hin
  | fseg => exact fseg_fits_iff hedata hs halign

/-- A request that fits leaves both pointers inside their ranges. -/
theorem PointersInside.allocate {zone : Zone} (hs : PointersInside edata s)
    (halign : 0 < align.toNat) (hfits : (s.request zone n align).Fits) :
    PointersInside edata (s.allocate (s.request zone n align)) := by
  have hfseg := hs.fseg
  have htop := hs.top
  cases zone with
  | low =>
    have hin := (low_fits_iff hs halign).mpr hfits
    obtain ⟨hlow, hend⟩ : nvsStart ≤ (s.request .low n align).base.toNat ∧
      (s.request .low n align).base.toNat + n.toNat ≤ fsegStart := hin
    refine ⟨hlow, ?_, hs.fseg, hs.limit⟩
    change (s.request .low n align).base.toNat ≤ fsegStart
    omega
  | fseg =>
    have hfits' : n.toNat + (s.request .fseg n align).padding ≤ fsegEnd - s.fsegBase.toNat := hfits
    have hlimit := hs.limit
    have hnext : (s.allocate (s.request .fseg n align)).fsegBase =
        (s.request .fseg n align).base + n := rfl
    by_cases hwrap : s.fsegBase.toNat + align.toNat - 1 < 2 ^ 32
    · have hadd := fsegBase_add (n := n) halign hwrap
      rw [fsegEnd] at *
      refine ⟨hs.low, hs.top, ?_, ?_⟩
      · rw [hnext, BitVec.toNat_add]
        omega
      · rw [hnext, BitVec.toNat_add, fsegEnd]
        omega
    · obtain ⟨-, hpadding⟩ := fseg_wraps (n := n) hlimit (Nat.not_lt.mp hwrap)
      omega

end Request

theorem heapInvariant_mem (a : Alloc) : HeapInvariant fun s => a ∈ s.allocs := by
  constructor
  · intro s t hheap ha
    have hallocs : s.allocs = t.allocs := congrArg (fun heap => heap.2.2) hheap
    rwa [← hallocs]
  · intro s zone n align _ ha
    rw [allocate_allocs]
    exact List.mem_cons_of_mem _ ha

/-! ### Machines -/

/-- A platform with PCI and MMCONFIG, and code labels in the F-segment. -/
def q35Platform : Platform :=
  { havePci := true, knownBridge := true, haveMmconfig := true, stepping := 0x663#32,
    features := 0x78bfbff#32 }

def fsegLabels : Labels :=
  { bios32Entry := 0xf0100#32, biosIntfake := 0xf0200#32, biosIrq := 0xf0210#32,
    biosInt10 := 0xf0220#32, biosInt15 := 0xf0230#32 }

def acpiTablesName : List Byte :=
  cstring ['e', 't', 'c', '/', 'a', 'c', 'p', 'i', '/', 't', 'a', 'b', 'l', 'e', 's']

def acpiRsdpName : List Byte :=
  cstring ['e', 't', 'c', '/', 'a', 'c', 'p', 'i', '/', 'r', 's', 'd', 'p']

/-- A machine whose ACPI tables have `size` bytes, to be placed below the
firmware. -/
def bigTablesDevice (size : Nat) : FwCfg where
  entry := fun key =>
    if key = FW_CFG_FILE_DIR then
      toBE 4 3 ++ dirRecord 128#32 0x20#16 tableLoaderName ++
        dirRecord (BitVec.ofNat 32 size) 0x21#16 acpiTablesName ++ dirRecord 20#32 0x22#16 e820Name
    else if key = 0x20#16 then padTo 128 (toLE 4 1 ++ padTo 56 acpiTablesName ++ toLE 4 64 ++ [1#8])
    else if key = 0x21#16 then List.replicate size 0#8
    else if key = 0x22#16 then toLE 8 0 ++ toLE 8 0x8000000 ++ toLE 4 1
    else []
  key := 0#16
  pos := 0

def bigTablesMachine (size : Nat) : Firmware :=
  Firmware.initial (bigTablesDevice size) (fun _ => 0#8) 0xf0000#32 0xf4000#32

end Qboot
