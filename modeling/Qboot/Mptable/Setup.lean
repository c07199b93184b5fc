import Qboot.FwCfg.Files
import Qboot.Mptable.Entries

/-!
`setup_mptable` of mptable.c: the floating pointer and the MP configuration
table at 639 KiB. The table grows entry by entry at a running offset, and the
checksum of the entries is added up beside it.
-/

namespace Qboot

open Bytes ByteMemory

def FW_CFG_NB_CPUS : BitVec 16 := 0x05#16
def FW_CFG_IRQ0_OVERRIDE : BitVec 16 := 0x8002#16

def MPTABLE_START : BitVec 32 := 0x9fc00#32

def APIC_VERSION : Byte := 0x14#8
def MPC_SPEC : Byte := 0x04#8
def CPU_ENABLED : Byte := 1#8
def CPU_BOOTPROCESSOR : Byte := 2#8
def MPC_APIC_USABLE : Byte := 1#8
def IO_APIC_DEFAULT_PHYS_BASE : BitVec 32 := 0xfec00000#32
def APIC_DEFAULT_PHYS_BASE : BitVec 32 := 0xfee00000#32

def mp_INT : Byte := 0#8
def mp_NMI : Byte := 1#8
def mp_ExtINT : Byte := 3#8
def MP_IRQDIR_DEFAULT : BitVec 16 := 0#16

/-- `MPTABLE_START + offset` -/
def mpAddr (offset : Nat) : BitVec 32 := MPTABLE_START + BitVec.ofNat 32 offset

/-- The bytes added up as signed chars in an int. -/
def charSum (bs : List Byte) : BitVec 32 := (bs.map fun b => b.signExtend 32).sum

def mptableChecksum (m : Mem) (buf : BitVec 32) (size : Nat) : BitVec 32 :=
  charSum (load m buf size)

/-- Clear the entry at `offset`, fill it in and add it to the checksum. -/
def putEntry (offset size : Nat) (fields : List (Nat × List Byte)) (checksum : BitVec 32) :
    Fw (BitVec 32) := do
  fillStruct (mpAddr offset) size fields
  let s ← get
  pure (checksum + mptableChecksum s.mem (mpAddr offset) size)

/-- `struct mpf_intel`, without its checksum. -/
def mpfFields : List (Nat × List Byte) :=
  [(0, [0x5f#8, 0x4d#8, 0x50#8, 0x5f#8]), (8, [1#8]), (9, [4#8]), (4, toLE 4 (mpAddr 16).toNat)]

/-- `struct mpc_table`, without its length and its checksum. -/
def tableFields : List (Nat × List Byte) :=
  [(0, [0x50#8, 0x43#8, 0x4d#8, 0x50#8]), (6, [MPC_SPEC]),
   (8, [0x51#8, 0x42#8, 0x4f#8, 0x4f#8, 0x54#8, 0x20#8, 0x20#8, 0x20#8]),
   (16, List.replicate 12 0x30#8), (36, toLE 4 APIC_DEFAULT_PHYS_BASE.toNat)]

def cpuFields (stepping features : BitVec 32) (i : Nat) : List (Nat × List Byte) :=
  [(0, [MP_PROCESSOR]), (1, [BitVec.ofNat 8 i]), (2, [APIC_VERSION]),
   (3, [if i = 0 then CPU_ENABLED ||| CPU_BOOTPROCESSOR else CPU_ENABLED]),
   (4, toLE 4 stepping.toNat), (8, toLE 4 features.toNat)]

def busFields : List (Nat × List Byte) :=
  [(0, [MP_BUS]), (1, [0#8]), (2, [0x49#8, 0x53#8, 0x41#8, 0x20#8, 0x20#8, 0x20#8])]

/-- `num_cpus + 1`, as a byte -/
def ioapicId (numCpus : BitVec 32) : Byte := (numCpus + 1#32).setWidth 8

def ioapicFields (numCpus : BitVec 32) : List (Nat × List Byte) :=
  [(0, [MP_IOAPIC]), (1, [ioapicId numCpus]), (2, [APIC_VERSION]), (3, [MPC_APIC_USABLE]),
   (4, toLE 4 IO_APIC_DEFAULT_PHYS_BASE.toNat)]

def intsrcFields (irq0Override : Bool) (numCpus : BitVec 32) (i : Nat) : List (Nat × List Byte) :=
  [(0, [MP_INTSRC]), (1, [mp_INT]), (2, toLE 2 MP_IRQDIR_DEFAULT.toNat), (4, [0#8]),
   (5, [BitVec.ofNat 8 i]), (6, [ioapicId numCpus]),
   (7, [if irq0Override ∧ i = 0 then 2#8 else BitVec.ofNat 8 i])]

def lintsrcFields (irqtype destapic destapiclint : Byte) : List (Nat × List Byte) :=
  [(0, [MP_LINTSRC]), (1, [irqtype]), (2, toLE 2 MP_IRQDIR_DEFAULT.toNat), (4, [0#8]), (5, [0#8]),
   (6, [destapic]), (7, [destapiclint])]

/-- `n` processor entries from number `i` on; returns the new offset and
checksum. -/
def cpuLoop (stepping features : BitVec 32) :
    Nat → Nat → Nat → BitVec 32 → Fw (Nat × BitVec 32)
  | 0, _, offset, checksum => pure (offset, checksum)
  | n + 1, i, offset, checksum => do
    let checksum ← putEntry offset 20 (cpuFields stepping features i) checksum
    cpuLoop stepping features n (i + 1) (offset + 20) checksum

/-- The interrupt entries; IRQ 2 of an override is written to its slot, but
neither the offset nor the checksum is updated. -/
def intsrcLoop (irq0Override : Bool) (numCpus : BitVec 32) :
    List Nat → Nat → BitVec 32 → Fw (Nat × BitVec 32)
  | [], offset, checksum => pure (offset, checksum)
  | i :: rest, offset, checksum =>
    if irq0Override ∧ i = 2 then do
      fillStruct (mpAddr offset) 8 (intsrcFields irq0Override numCpus i)
      intsrcLoop irq0Override numCpus rest offset checksum
    else do
      let checksum ← putEntry offset 8 (intsrcFields irq0Override numCpus i) checksum
      intsrcLoop irq0Override numCpus rest (offset + 8) checksum

/-- The two LINTSRC entries, the second one without clearing it first, and
the length and the checksum in the header. -/
def finishMptable (offset : Nat) (checksum : BitVec 32) : Fw Unit := do
  let checksum ← putEntry offset 8 (lintsrcFields mp_ExtINT 0#8 0#8) checksum
  let offset := offset + 8
  modify fun s => { s with
    mem := storeFields s.mem (mpAddr offset) (lintsrcFields mp_NMI 0xff#8 1#8) }
  let s ← get
  let checksum := checksum + mptableChecksum s.mem (mpAddr offset) 8
  let offset := offset + 8
  poke (mpAddr 20) (toLE 2 (offset - 16))
  let s ← get
  let checksum := checksum + mptableChecksum s.mem (mpAddr 16) 44
  poke (mpAddr 23) [s.mem (mpAddr 23) - checksum.setWidth 8]

/-- The floating pointer and the table header. -/
def startMptable : Fw Unit := do
  fillStruct (mpAddr 0) 16 mpfFields
  let s ← get
  poke (mpAddr 10) [s.mem (mpAddr 10) - (mptableChecksum s.mem (mpAddr 0) 16).setWidth 8]
  fillStruct (mpAddr 16) 44 tableFields

/-- The bus, IOAPIC and interrupt entries and the end of the table. -/
def deviceEntries (numCpus : BitVec 32) (offset : Nat) (checksum : BitVec 32) : Fw Unit := do
  let checksum ← putEntry offset 8 busFields checksum
  let checksum ← putEntry (offset + 8) 8 (ioapicFields numCpus) checksum
  fwCfgSelect FW_CFG_IRQ0_OVERRIDE
  let irq0Override ← fwCfgReadlLe
  let r ← intsrcLoop (irq0Override ≠ 0) numCpus (List.range 16) (offset + 16) checksum
  finishMptable r.1 r.2

/-- `stepping` and `features` are the answer of the cpuid instruction. -/
def setupMptable (stepping features : BitVec 32) : Fw Unit := do
  startMptable
  fwCfgSelect FW_CFG_NB_CPUS
  let numCpus ← fwCfgReadlLe
  -- `i < num_cpus` compares ints
  let r ← cpuLoop stepping features numCpus.toInt.toNat 0 60 0#32
  deviceEntries numCpus r.1 r.2

/-! ### Sums -/

theorem charSum_append (bs cs : List Byte) : charSum (bs ++ cs) = charSum bs + charSum cs := by
  simp [charSum]

/-- The low byte of the signed sum is the sum of the bytes. -/
theorem charSum_setWidth (bs : List Byte) : (charSum bs).setWidth 8 = bs.sum := by
  induction bs with
  | nil => rfl
  | cons b bs ih =>
    have hcons : charSum (b :: bs) = b.signExtend 32 + charSum bs := by simp [charSum]
    have hlow : (b.signExtend 32).setWidth 8 = b := by
      ext i hi
      have h32 : i < 32 := by omega
      rw [BitVec.getElem_setWidth, BitVec.getLsbD_signExtend, if_pos hi]
      simp [h32, BitVec.getLsbD_eq_getElem hi]
    rw [hcons, BitVec.setWidth_add _ _ (by decide), hlow, ih, List.sum_cons]

/-! ### The entries that are written -/

def cpuEntry (stepping features : BitVec 32) (i : Nat) : MpEntry :=
  .cpu (BitVec.ofNat 8 i) APIC_VERSION
    (if i = 0 then CPU_ENABLED ||| CPU_BOOTPROCESSOR else CPU_ENABLED) stepping features

def busEntry : MpEntry := .bus 0#8 [0x49#8, 0x53#8, 0x41#8, 0x20#8, 0x20#8, 0x20#8]

def ioapicEntry (numCpus : BitVec 32) : MpEntry :=
  .ioapic (ioapicId numCpus) APIC_VERSION MPC_APIC_USABLE IO_APIC_DEFAULT_PHYS_BASE

def intsrcEntry (irq0Override : Bool) (numCpus : BitVec 32) (i : Nat) : MpEntry :=
  .intsrc mp_INT MP_IRQDIR_DEFAULT 0#8 (BitVec.ofNat 8 i) (ioapicId numCpus)
    (if irq0Override ∧ i = 0 then 2#8 else BitVec.ofNat 8 i)

def lintsrcEntry (irqtype destapic destapiclint : Byte) : MpEntry :=
  .lintsrc irqtype MP_IRQDIR_DEFAULT 0#8 0#8 destapic destapiclint

/-- The ISA interrupts with an entry. -/
def isaIrqs (irq0Override : Bool) : List Nat :=
  (List.range 16).filter fun i => ¬ (irq0Override ∧ i = 2)

theorem cpuEntry_encode (stepping features : BitVec 32) (i : Nat) :
    patchFields (List.replicate 20 0) (cpuFields stepping features i) =
      (cpuEntry stepping features i).encode := rfl

theorem busEntry_encode :
    patchFields (List.replicate 8 0) busFields = busEntry.encode := rfl

theorem ioapicEntry_encode (numCpus : BitVec 32) :
    patchFields (List.replicate 8 0) (ioapicFields numCpus) = (ioapicEntry numCpus).encode := rfl

theorem intsrcEntry_encode (irq0Override : Bool) (numCpus : BitVec 32) (i : Nat) :
    patchFields (List.replicate 8 0) (intsrcFields irq0Override numCpus i) =
      (intsrcEntry irq0Override numCpus i).encode := rfl

theorem lintsrcEntry_encode (irqtype destapic destapiclint : Byte) :
    patchFields (List.replicate 8 0) (lintsrcFields irqtype destapic destapiclint) =
      (lintsrcEntry irqtype destapic destapiclint).encode := rfl

/-! ### One block of bytes -/

/-- `s` with `bs` from the start of the table area on. -/
def Firmware.mpWritten (s : Firmware) (bs : List Byte) : Firmware :=
  { s with mem := store s.mem MPTABLE_START bs }

theorem mpWritten_length (offset : Nat) {bs : List Byte} (h : bs.length = offset) :
    mpAddr offset = MPTABLE_START + BitVec.ofNat 32 bs.length := by
  rw [h, mpAddr]

/-- Filling in a struct behind the bytes written so far appends its bytes. -/
theorem fillStruct_mpWritten (s : Firmware) {bs : List Byte} {offset size : Nat}
    {fields : List (Nat × List Byte)} (hlen : bs.length = offset)
    (hfields : ∀ f ∈ fields, f.1 + f.2.length ≤ size) (hfit : offset + size ≤ 2 ^ 32) :
    fillStruct (mpAddr offset) size fields (s.mpWritten bs) =
      .ok () (s.mpWritten (bs ++ patchFields (List.replicate size 0) fields)) := by
  have hpatch : (patchFields (List.replicate size 0) fields).length = size := by
    rw [length_patchFields (by simpa using hfields), List.length_replicate]
  have hstore : storeFields (store (store s.mem MPTABLE_START bs) (mpAddr offset)
      (List.replicate size 0)) (mpAddr offset) fields =
      store (store s.mem MPTABLE_START bs) (mpAddr offset)
        (patchFields (List.replicate size 0) fields) :=
    storeFields_store _ _ (by simpa using hfields) (by simp; omega)
  have happend : store (store s.mem MPTABLE_START bs)
      (MPTABLE_START + BitVec.ofNat 32 bs.length)
      (patchFields (List.replicate size 0) fields) =
      store s.mem MPTABLE_START (bs ++ patchFields (List.replicate size 0) fields) :=
    store_append _ _ (by rw [hpatch, hlen]; exact hfit)
  rw [← mpWritten_length offset hlen] at happend
  rw [fillStruct, StateRun.modify_apply, Firmware.mpWritten]
  simp only [hstore, happend]
  rfl

/-- An entry is appended to the bytes and added to the checksum. -/
theorem putEntry_apply (s : Firmware) {bs : List Byte} {offset size : Nat}
    {fields : List (Nat × List Byte)} (checksum : BitVec 32) {e : List Byte}
    (he : patchFields (List.replicate size 0) fields = e) (hlen : bs.length = offset)
    (hfields : ∀ f ∈ fields, f.1 + f.2.length ≤ size) (hfit : offset + size ≤ 2 ^ 32) :
    putEntry offset size fields checksum (s.mpWritten bs) =
      .ok (checksum + charSum e) (s.mpWritten (bs ++ e)) := by
  have hsize : e.length = size := by
    rw [← he, length_patchFields (by simpa using hfields), List.length_replicate]
  have hload : load (s.mpWritten (bs ++ e)).mem (mpAddr offset) size = e := by
    have h := load_store_right s.mem MPTABLE_START
      (by omega : bs.length + e.length ≤ 2 ^ 32)
    rwa [← mpWritten_length offset hlen, hsize] at h
  rw [putEntry, StateRun.bind_of_ok (fillStruct_mpWritten s hlen hfields hfit), he,
    StateRun.bind_of_ok (StateRun.get_apply _)]
  simp only [mptableChecksum, hload, StateRun.pure_apply]

def cpuEntries (stepping features : BitVec 32) (i n : Nat) : List MpEntry :=
  (List.range' i n).map (cpuEntry stepping features)

def encodeAll (es : List MpEntry) : List Byte := es.flatMap MpEntry.encode

theorem encodeAll_append (es fs : List MpEntry) :
    encodeAll (es ++ fs) = encodeAll es ++ encodeAll fs := List.flatMap_append

theorem encodeAll_cons (e : MpEntry) (es : List MpEntry) :
    encodeAll (e :: es) = e.encode ++ encodeAll es := rfl

theorem length_cpuEntries (stepping features : BitVec 32) (i n : Nat) :
    (encodeAll (cpuEntries stepping features i n)).length = 20 * n := by
  induction n generalizing i with
  | zero => rfl
  | succ n ih =>
    have hcons : cpuEntries stepping features i (n + 1) =
        cpuEntry stepping features i :: cpuEntries stepping features (i + 1) n := by
      simp [cpuEntries, List.range'_succ]
    have hentry : (cpuEntry stepping features i).encode.length = 20 := rfl
    rw [hcons, encodeAll_cons, List.length_append, ih, hentry]
    omega

/-- Each pass of the processor loop appends one entry. -/
theorem cpuLoop_apply (s : Firmware) (stepping features : BitVec 32) (n i : Nat)
    {offset : Nat} {bs : List Byte} (checksum : BitVec 32) (hlen : bs.length = offset)
    (hfit : offset + 20 * n ≤ 2 ^ 32) :
    cpuLoop stepping features n i offset checksum (s.mpWritten bs) =
      .ok (offset + 20 * n, checksum + charSum (encodeAll (cpuEntries stepping features i n)))
        (s.mpWritten (bs ++ encodeAll (cpuEntries stepping features i n))) := by
  induction n generalizing i offset bs checksum with
  | zero => simp [cpuLoop, cpuEntries, encodeAll, charSum]
  | succ n ih =>
    have hentry : (cpuEntry stepping features i).encode.length = 20 := rfl
    have hfields : ∀ f ∈ cpuFields stepping features i, f.1 + f.2.length ≤ 20 := by
      simp [cpuFields]
    have hcons : cpuEntries stepping features i (n + 1) =
        cpuEntry stepping features i :: cpuEntries stepping features (i + 1) n := by
      simp [cpuEntries, List.range'_succ]
    have hoffset : offset + 20 + 20 * n = offset + 20 * (n + 1) := by omega
    rw [cpuLoop, StateRun.bind_of_ok
      (putEntry_apply s checksum (cpuEntry_encode stepping features i) hlen hfields (by omega)),
      ih (i + 1) _ (by rw [List.length_append, hentry, hlen]) (by omega), hcons, encodeAll_cons,
      charSum_append, List.append_assoc, BitVec.add_assoc, hoffset]

def intsrcEntries (irq0Override : Bool) (numCpus : BitVec 32) (irqs : List Nat) : List MpEntry :=
  irqs.map (intsrcEntry irq0Override numCpus)

/-- Without the skipped interrupt, each pass of the loop appends one entry. -/
theorem intsrcLoop_apply (s : Firmware) (irq0Override : Bool) (numCpus : BitVec 32)
    {irqs : List Nat} (hirqs : ∀ i ∈ irqs, ¬ (irq0Override ∧ i = 2))
    {offset : Nat} {bs : List Byte} (checksum : BitVec 32) (hlen : bs.length = offset)
    (hfit : offset + 8 * irqs.length ≤ 2 ^ 32) :
    intsrcLoop irq0Override numCpus irqs offset checksum (s.mpWritten bs) =
      .ok (offset + 8 * irqs.length,
          checksum + charSum (encodeAll (intsrcEntries irq0Override numCpus irqs)))
        (s.mpWritten (bs ++ encodeAll (intsrcEntries irq0Override numCpus irqs))) := by
  induction irqs generalizing offset bs checksum with
  | nil => simp [intsrcLoop, intsrcEntries, encodeAll, charSum]
  | cons i irqs ih =>
    have hentry : (intsrcEntry irq0Override numCpus i).encode.length = 8 := rfl
    have hfields : ∀ f ∈ intsrcFields irq0Override numCpus i, f.1 + f.2.length ≤ 8 := by
      simp [intsrcFields]
    have hcons : intsrcEntries irq0Override numCpus (i :: irqs) =
        intsrcEntry irq0Override numCpus i :: intsrcEntries irq0Override numCpus irqs := rfl
    have hoffset : offset + 8 + 8 * irqs.length = offset + 8 * (irqs.length + 1) := by omega
    rw [List.length_cons] at hfit ⊢
    rw [intsrcLoop, if_neg (hirqs i (by simp)), StateRun.bind_of_ok
      (putEntry_apply s checksum (intsrcEntry_encode irq0Override numCpus i) hlen hfields
        (by omega)),
      ih (fun j hj => hirqs j (by simp [hj])) _ (by rw [List.length_append, hentry, hlen])
        (by omega), hcons, encodeAll_cons, charSum_append, List.append_assoc, BitVec.add_assoc,
      hoffset]

theorem intsrcLoop_append (irq0Override : Bool) (numCpus : BitVec 32) (irqs rest : List Nat)
    (offset : Nat) (checksum : BitVec 32) :
    intsrcLoop irq0Override numCpus (irqs ++ rest) offset checksum =
      intsrcLoop irq0Override numCpus irqs offset checksum >>= fun r =>
        intsrcLoop irq0Override numCpus rest r.1 r.2 := by
  induction irqs generalizing offset checksum with
  | nil => rfl
  | cons i irqs ih =>
    rw [List.cons_append, intsrcLoop, intsrcLoop]
    split
    · simp only [ih, bind_assoc]
    · simp only [ih, bind_assoc]

/-- The next entry covers the one that was written and skipped. -/
theorem intsrcLoop_skip (s : Firmware) (numCpus : BitVec 32) {j : Nat} (hj : j ≠ 2)
    (rest : List Nat) {offset : Nat} {bs : List Byte} (checksum : BitVec 32)
    (hlen : bs.length = offset) (hfit : offset + 8 ≤ 2 ^ 32) :
    intsrcLoop true numCpus (2 :: j :: rest) offset checksum (s.mpWritten bs) =
      intsrcLoop true numCpus (j :: rest) offset checksum (s.mpWritten bs) := by
  have hfields (i : Nat) : ∀ f ∈ intsrcFields true numCpus i, f.1 + f.2.length ≤ 8 := by
    simp [intsrcFields]
  have hnext : ¬ (true = true ∧ j = 2) := fun h => hj h.2
  have hcover : fillStruct (mpAddr offset) 8 (intsrcFields true numCpus j)
      (s.mpWritten (bs ++ (intsrcEntry true numCpus 2).encode)) =
      fillStruct (mpAddr offset) 8 (intsrcFields true numCpus j) (s.mpWritten bs) := by
    have hstore : store s.mem MPTABLE_START (bs ++ (intsrcEntry true numCpus 2).encode) =
        store (store s.mem MPTABLE_START bs) (mpAddr offset)
          (intsrcEntry true numCpus 2).encode := by
      rw [mpWritten_length offset hlen, store_append _ _ (by rw [hlen]; exact hfit)]
    have hzero : store (store (store s.mem MPTABLE_START bs) (mpAddr offset)
        (intsrcEntry true numCpus 2).encode) (mpAddr offset) (List.replicate 8 0) =
        store (store s.mem MPTABLE_START bs) (mpAddr offset) (List.replicate 8 0) :=
      store_store_cover _ _ le_rfl
    simp only [fillStruct, StateRun.modify_apply, Firmware.mpWritten, hstore, hzero]
  have hput : putEntry offset 8 (intsrcFields true numCpus j) checksum
      (s.mpWritten (bs ++ (intsrcEntry true numCpus 2).encode)) =
      putEntry offset 8 (intsrcFields true numCpus j) checksum (s.mpWritten bs) := by
    rw [putEntry, StateRun.bind_apply, StateRun.bind_apply, hcover]
  rw [intsrcLoop, if_pos ⟨rfl, rfl⟩,
    StateRun.bind_of_ok (fillStruct_mpWritten s hlen (hfields 2) hfit), intsrcEntry_encode,
    intsrcLoop, if_neg hnext, StateRun.bind_apply, StateRun.bind_apply, hput]

/-- The loop over the 16 ISA interrupts appends one entry for each of them,
except for IRQ 2 of an override. -/
theorem intsrcLoop_range (s : Firmware) (irq0Override : Bool) (numCpus : BitVec 32)
    {offset : Nat} {bs : List Byte} (checksum : BitVec 32) (hlen : bs.length = offset)
    (hfit : offset + 128 ≤ 2 ^ 32) :
    intsrcLoop irq0Override numCpus (List.range 16) offset checksum (s.mpWritten bs) =
      .ok (offset + 8 * (isaIrqs irq0Override).length,
          checksum + charSum
            (encodeAll (intsrcEntries irq0Override numCpus (isaIrqs irq0Override))))
        (s.mpWritten
          (bs ++ encodeAll (intsrcEntries irq0Override numCpus (isaIrqs irq0Override)))) := by
  have hirqs : ∀ i ∈ isaIrqs irq0Override, ¬ (irq0Override ∧ i = 2) := by
    intro i hi
    exact of_decide_eq_true (List.mem_filter.mp hi).2
  have hlength : (isaIrqs irq0Override).length ≤ 16 := by
    cases irq0Override <;> decide
  have hsame : intsrcLoop irq0Override numCpus (List.range 16) offset checksum (s.mpWritten bs) =
      intsrcLoop irq0Override numCpus (isaIrqs irq0Override) offset checksum
        (s.mpWritten bs) := by
    cases irq0Override with
    | false => rfl
    | true =>
      have hfirst : ∀ i ∈ [0, 1], ¬ (true = true ∧ i = 2) := by simp
      have hzero := intsrcLoop_apply s true numCpus hfirst checksum hlen
        (by simp only [List.length_cons, List.length_nil]; omega)
      have hsplit : List.range 16 = [0, 1] ++ 2 :: 3 :: List.range' 4 12 := rfl
      have hjoin : isaIrqs true = [0, 1] ++ 3 :: List.range' 4 12 := rfl
      rw [hsplit, hjoin, intsrcLoop_append, intsrcLoop_append, StateRun.bind_of_ok hzero,
        StateRun.bind_of_ok hzero]
      exact intsrcLoop_skip s numCpus (by decide) _ _ (by simp [hlen]; rfl)
        (by simp only [List.length_cons, List.length_nil]; omega)
  rw [hsame]
  exact intsrcLoop_apply s irq0Override numCpus hirqs checksum hlen (by omega)

/-- Writing over a part of the bytes. -/
theorem poke_mpWritten (s : Firmware) {bs cs : List Byte} {k : Nat}
    (hk : k + cs.length ≤ bs.length) (hlen : bs.length ≤ 2 ^ 32) :
    poke (mpAddr k) cs (s.mpWritten bs) = .ok () (s.mpWritten (patch bs k cs)) := by
  rw [poke_apply]
  simp only [Firmware.mpWritten, mpAddr, store_store_inside _ _ hk hlen]

theorem mem_mpWritten (s : Firmware) {bs : List Byte} {k : Nat} (hk : k < bs.length)
    (hlen : bs.length ≤ 2 ^ 32) : (s.mpWritten bs).mem (mpAddr k) = bs.getD k 0 := by
  have hoff : offset MPTABLE_START (mpAddr k) = k := offset_add _ (by omega)
  have hin : offset MPTABLE_START (mpAddr k) < bs.length := by omega
  simp only [Firmware.mpWritten, store_of_within s.mem hin, hoff, List.getD_eq_getElem?_getD,
    List.getElem?_eq_getElem hk, Option.getD_some]

theorem load_mpWritten (s : Firmware) {bs : List Byte} {k n : Nat} (hk : k + n ≤ bs.length)
    (hlen : bs.length ≤ 2 ^ 32) : load (s.mpWritten bs).mem (mpAddr k) n = slice bs k n :=
  load_store_inside s.mem MPTABLE_START hk hlen

/-! ### The floating pointer and the header -/

/-- The floating pointer before its checksum is set. -/
def rawMpf : List Byte := patchFields (List.replicate 16 0) mpfFields

def mpfBytes : List Byte := lowerByte rawMpf 10 rawMpf.sum

/-- The header before its length and its checksum are set. -/
def rawHeader : List Byte := patchFields (List.replicate 44 0) tableFields

theorem startMptable_apply (s : Firmware) :
    startMptable s = .ok () (s.mpWritten (mpfBytes ++ rawHeader)) := by
  have hraw : rawMpf.length = 16 := rfl
  have hnil : s.mpWritten [] = s := by simp [Firmware.mpWritten]
  have hfill : fillStruct (mpAddr 0) 16 mpfFields (s.mpWritten []) =
      .ok () (s.mpWritten ([] ++ rawMpf)) :=
    fillStruct_mpWritten s rfl (by decide) (by decide)
  rw [hnil, List.nil_append] at hfill
  have hsum : (mptableChecksum (s.mpWritten rawMpf).mem (mpAddr 0) 16).setWidth 8 =
      rawMpf.sum := by
    rw [mptableChecksum, load_mpWritten s (by decide) (by decide), charSum_setWidth, ← hraw,
      slice_zero]
  have hbyte : (s.mpWritten rawMpf).mem (mpAddr 10) = rawMpf.getD 10 0 :=
    mem_mpWritten s (by decide) (by decide)
  rw [startMptable, StateRun.bind_of_ok hfill, StateRun.bind_of_ok (StateRun.get_apply _), hbyte,
    hsum, StateRun.bind_of_ok (poke_mpWritten s (by decide) (by decide))]
  exact fillStruct_mpWritten s rfl (by decide) (by decide)

/-- The header with the length of the table in it. -/
def lengthHeader (length : Nat) : List Byte := patch rawHeader 4 (toLE 2 length)

/-- The header of a table with the entry bytes `es`. -/
def tableHeader (es : List Byte) : List Byte :=
  lowerByte (lengthHeader (44 + es.length)) 7
    (es.sum + (lengthHeader (44 + es.length)).sum)

theorem length_lengthHeader (length : Nat) : (lengthHeader length).length = 44 := rfl

theorem length_tableHeader (es : List Byte) : (tableHeader es).length = 44 := rfl

/-- A finished table sums to zero. -/
theorem sum_tableHeader (es : List Byte) : (tableHeader es ++ es).sum = 0 := by
  rw [sum_append, tableHeader, sum_lowerByte (by rw [length_lengthHeader]; decide)]
  ring

/-- Assignments to all fields need no cleared memory. -/
theorem storeFields_lintsrc (m : Mem) (p : BitVec 32) (irqtype destapic destapiclint : Byte) :
    storeFields m p (lintsrcFields irqtype destapic destapiclint) =
      store m p (lintsrcEntry irqtype destapic destapiclint).encode := by
  have hpatch : ∀ bs : List Byte, bs.length = 8 →
      patchFields bs (lintsrcFields irqtype destapic destapiclint) =
        (lintsrcEntry irqtype destapic destapiclint).encode := by
    intro bs hbs
    match bs, hbs with
    | [_, _, _, _, _, _, _, _], _ => rfl
  have hlen : (load m p 8).length = 8 := length_load m p 8
  have hfields : ∀ f ∈ lintsrcFields irqtype destapic destapiclint,
      f.1 + f.2.length ≤ (load m p 8).length := by
    simp [lintsrcFields]
  have hstore := storeFields_store m p hfields (by rw [hlen]; decide)
  rwa [store_load, hpatch _ hlen] at hstore

/-- Writing into the header leaves the floating pointer and the entries. -/
theorem patch_header (hdr es cs : List Byte) {k : Nat} (hk : k + cs.length ≤ hdr.length) :
    patch (mpfBytes ++ hdr ++ es) (16 + k) cs = mpfBytes ++ patch hdr k cs ++ es := by
  have hmpf : mpfBytes.length = 16 := rfl
  have hin : mpfBytes.length + k + cs.length ≤ (mpfBytes ++ hdr).length := by
    rw [List.length_append]
    omega
  rw [← hmpf, patch_append_left hin, patch_append_right]

/-- The end of the table: the LINTSRC entries are appended and the header is
completed. -/
theorem finishMptable_apply (s : Firmware) {es : List Byte} {checksum : BitVec 32}
    (hsum : checksum = charSum es) (hfit : 76 + es.length ≤ 2 ^ 32) :
    let es' := es ++ encodeAll [lintsrcEntry mp_ExtINT 0#8 0#8, lintsrcEntry mp_NMI 0xff#8 1#8]
    finishMptable (60 + es.length) checksum (s.mpWritten (mpfBytes ++ rawHeader ++ es)) =
      .ok () (s.mpWritten (mpfBytes ++ tableHeader es' ++ es')) := by
  intro es'
  have hmpf : mpfBytes.length = 16 := rfl
  have hhdr : rawHeader.length = 44 := rfl
  have hes' : es'.length = es.length + 16 := by
    simp only [es', List.length_append]
    rfl
  have hext := putEntry_apply s checksum (lintsrcEntry_encode mp_ExtINT 0#8 0#8)
    (by simp only [List.length_append, hmpf, hhdr] :
      (mpfBytes ++ rawHeader ++ es).length = 60 + es.length)
    (by simp [lintsrcFields]) (by omega)
  have hjoin : mpfBytes ++ rawHeader ++ es ++ (lintsrcEntry mp_ExtINT 0#8 0#8).encode ++
      (lintsrcEntry mp_NMI 0xff#8 1#8).encode = mpfBytes ++ rawHeader ++ es' := by
    simp [es', encodeAll]
  have hlen : (mpfBytes ++ rawHeader ++ es ++ (lintsrcEntry mp_ExtINT 0#8 0#8).encode).length =
      60 + es.length + 8 := by
    simp only [List.length_append, hmpf, hhdr]
    rfl
  have hnmi : storeFields (s.mpWritten (mpfBytes ++ rawHeader ++ es ++
        (lintsrcEntry mp_ExtINT 0#8 0#8).encode)).mem (mpAddr (60 + es.length + 8))
        (lintsrcFields mp_NMI 0xff#8 1#8) =
      (s.mpWritten (mpfBytes ++ rawHeader ++ es')).mem := by
    rw [storeFields_lintsrc, mpWritten_length _ hlen, ← hjoin]
    exact store_append s.mem MPTABLE_START (by
      rw [hlen]
      change 60 + es.length + 8 + 8 ≤ _
      omega)
  have hall (hdr : List Byte) (h44 : hdr.length = 44) :
      (mpfBytes ++ hdr ++ es').length = 60 + es.length + 16 := by
    simp only [List.length_append, hmpf, h44, hes']
    omega
  have hnmiSum : mptableChecksum (s.mpWritten (mpfBytes ++ rawHeader ++ es')).mem
      (mpAddr (60 + es.length + 8)) 8 = charSum (lintsrcEntry mp_NMI 0xff#8 1#8).encode := by
    rw [mptableChecksum, load_mpWritten s (by rw [hall _ hhdr]) (by rw [hall _ hhdr]; omega),
      ← hjoin, ← hlen]
    exact congrArg charSum (slice_append_right _ _)
  have hlength : poke (mpAddr 20) (toLE 2 (60 + es.length + 8 + 8 - 16))
      (s.mpWritten (mpfBytes ++ rawHeader ++ es')) =
      .ok () (s.mpWritten (mpfBytes ++ lengthHeader (44 + es'.length) ++ es')) := by
    have hvalue : 60 + es.length + 8 + 8 - 16 = 44 + es'.length := by omega
    have hpatch : patch (mpfBytes ++ rawHeader ++ es') (16 + 4) (toLE 2 (44 + es'.length)) =
        mpfBytes ++ lengthHeader (44 + es'.length) ++ es' :=
      patch_header rawHeader es' _ (by rw [length_toLE]; decide)
    rw [hvalue, poke_mpWritten s (by rw [hall _ hhdr, length_toLE]; omega)
      (by rw [hall _ hhdr]; omega), hpatch]
  have hhdrLen := length_lengthHeader (44 + es'.length)
  have hhdrSum : mptableChecksum
      (s.mpWritten (mpfBytes ++ lengthHeader (44 + es'.length) ++ es')).mem (mpAddr 16) 44 =
      charSum (lengthHeader (44 + es'.length)) := by
    rw [mptableChecksum, load_mpWritten s (by rw [hall _ hhdrLen]; omega)
      (by rw [hall _ hhdrLen]; omega)]
    exact congrArg charSum (slice_append_middle mpfBytes _ es')
  have hbyte : (s.mpWritten (mpfBytes ++ lengthHeader (44 + es'.length) ++ es')).mem
      (mpAddr 23) = (lengthHeader (44 + es'.length)).getD 7 0 := by
    rw [mem_mpWritten s (by rw [hall _ hhdrLen]; omega) (by rw [hall _ hhdrLen]; omega)]
    rfl
  have htotal : (checksum + charSum (lintsrcEntry mp_ExtINT 0#8 0#8).encode +
      charSum (lintsrcEntry mp_NMI 0xff#8 1#8).encode +
      charSum (lengthHeader (44 + es'.length))).setWidth 8 =
      es'.sum + (lengthHeader (44 + es'.length)).sum := by
    have hes : es' = es ++ (lintsrcEntry mp_ExtINT 0#8 0#8).encode ++
        (lintsrcEntry mp_NMI 0xff#8 1#8).encode := by simp [es', encodeAll]
    rw [hsum, ← charSum_append, ← charSum_append, ← hes, BitVec.setWidth_add _ _ (by decide),
      charSum_setWidth, charSum_setWidth]
  rw [finishMptable, StateRun.bind_of_ok hext, StateRun.bind_of_ok (StateRun.modify_apply _ _),
    hnmi, StateRun.bind_of_ok (StateRun.get_apply _), hnmiSum]
  change (poke (mpAddr 20) _ >>= _) (s.mpWritten (mpfBytes ++ rawHeader ++ es')) = _
  have hpatch (b : Byte) : patch (mpfBytes ++ lengthHeader (44 + es'.length) ++ es') (16 + 7) [b] =
      mpfBytes ++ patch (lengthHeader (44 + es'.length)) 7 [b] ++ es' :=
    patch_header _ es' _ (by rw [hhdrLen, List.length_singleton]; decide)
  rw [StateRun.bind_of_ok hlength, StateRun.bind_of_ok (StateRun.get_apply _), hhdrSum, hbyte,
    htotal, poke_mpWritten s (by rw [hall _ hhdrLen, List.length_singleton]; omega)
      (by rw [hall _ hhdrLen]; omega), hpatch]
  rfl

/-! ### The whole table -/

/-- The processor count of the device, an int. -/
def FwCfg.numCpus (d : FwCfg) : Int := (d.word FW_CFG_NB_CPUS).toInt

def FwCfg.irq0Override (d : FwCfg) : Bool := d.word FW_CFG_IRQ0_OVERRIDE ≠ 0

/-- The entries between the processors and the LINTSRC entries. -/
def middleEntries (irq0Override : Bool) (numCpus : BitVec 32) : List MpEntry :=
  [busEntry, ioapicEntry numCpus] ++ intsrcEntries irq0Override numCpus (isaIrqs irq0Override)

/-- The entries behind the processors. -/
def deviceMpEntries (irq0Override : Bool) (numCpus : BitVec 32) : List MpEntry :=
  middleEntries irq0Override numCpus ++
    [lintsrcEntry mp_ExtINT 0#8 0#8, lintsrcEntry mp_NMI 0xff#8 1#8]

/-- All entries of the table a device gets. -/
def mpEntries (stepping features : BitVec 32) (d : FwCfg) : List MpEntry :=
  cpuEntries stepping features 0 d.numCpus.toNat ++
    deviceMpEntries d.irq0Override (d.word FW_CFG_NB_CPUS)

/-- The bytes of the floating pointer and the table. -/
def mpBytes (es : List MpEntry) : List Byte :=
  mpfBytes ++ tableHeader (encodeAll es) ++ encodeAll es

theorem length_isaIrqs (irq0Override : Bool) :
    (isaIrqs irq0Override).length = if irq0Override then 15 else 16 := by
  cases irq0Override <;> rfl

theorem length_middleEntries (irq0Override : Bool) (numCpus : BitVec 32) :
    (encodeAll (middleEntries irq0Override numCpus)).length =
      16 + 8 * (isaIrqs irq0Override).length := by
  cases irq0Override <;> rfl

/-- The bus, the IOAPIC and the interrupts are appended. -/
theorem deviceEntries_middle (s : Firmware) (numCpus : BitVec 32) {bs : List Byte}
    {offset : Nat} (checksum : BitVec 32) (hlen : bs.length = offset)
    (hfit : offset + 144 ≤ 2 ^ 32) :
    ∃ dev : FwCfg, deviceEntries numCpus offset checksum (s.mpWritten bs) =
      finishMptable (offset + (encodeAll (middleEntries s.dev.irq0Override numCpus)).length)
        (checksum + charSum (encodeAll (middleEntries s.dev.irq0Override numCpus)))
        ({ s with dev := dev }.mpWritten
          (bs ++ encodeAll (middleEntries s.dev.irq0Override numCpus))) := by
  have hbus : putEntry offset 8 busFields checksum (s.mpWritten bs) =
      .ok (checksum + charSum busEntry.encode) (s.mpWritten (bs ++ busEntry.encode)) :=
    putEntry_apply s checksum busEntry_encode hlen (by simp [busFields]) (by omega)
  have hbusLen : (bs ++ busEntry.encode).length = offset + 8 := by
    rw [List.length_append, hlen]
    rfl
  have hioapic : putEntry (offset + 8) 8 (ioapicFields numCpus)
      (checksum + charSum busEntry.encode) (s.mpWritten (bs ++ busEntry.encode)) =
      .ok (checksum + charSum busEntry.encode + charSum (ioapicEntry numCpus).encode)
        (s.mpWritten (bs ++ busEntry.encode ++ (ioapicEntry numCpus).encode)) :=
    putEntry_apply s _ (ioapicEntry_encode numCpus) hbusLen (by simp [ioapicFields]) (by omega)
  have hioapicLen : (bs ++ busEntry.encode ++ (ioapicEntry numCpus).encode).length =
      offset + 16 := by
    rw [List.length_append, hbusLen]
    rfl
  have hloop := intsrcLoop_range
    { s with dev := (s.dev.select FW_CFG_IRQ0_OVERRIDE).skip 4 } s.dev.irq0Override numCpus
    (checksum + charSum busEntry.encode + charSum (ioapicEntry numCpus).encode) hioapicLen
    (by omega)
  refine ⟨(s.dev.select FW_CFG_IRQ0_OVERRIDE).skip 4, ?_⟩
  rw [deviceEntries, StateRun.bind_of_ok hbus, StateRun.bind_of_ok hioapic,
    StateRun.bind_of_ok (fwCfgSelect_apply _ _), StateRun.bind_of_ok (fwCfgReadlLe_select _ _)]
  have hsplit : encodeAll (middleEntries s.dev.irq0Override numCpus) =
      busEntry.encode ++ ((ioapicEntry numCpus).encode ++ encodeAll
        (intsrcEntries s.dev.irq0Override numCpus (isaIrqs s.dev.irq0Override))) := rfl
  rw [length_middleEntries, hsplit, charSum_append, charSum_append, ← BitVec.add_assoc,
    ← BitVec.add_assoc, ← List.append_assoc, ← List.append_assoc, ← Nat.add_assoc]
  change (intsrcLoop s.dev.irq0Override numCpus (List.range 16) (offset + 16)
    (checksum + charSum busEntry.encode + charSum (ioapicEntry numCpus).encode) >>= fun r =>
      finishMptable r.1 r.2)
    ({ s with dev := (s.dev.select FW_CFG_IRQ0_OVERRIDE).skip 4 }.mpWritten _) = _
  rw [StateRun.bind_of_ok hloop]

theorem deviceEntries_apply (s : Firmware) (numCpus : BitVec 32) {es : List Byte}
    {checksum : BitVec 32} (hsum : checksum = charSum es) (hfit : 220 + es.length ≤ 2 ^ 32) :
    let es' := es ++ encodeAll (deviceMpEntries s.dev.irq0Override numCpus)
    ∃ dev, deviceEntries numCpus (60 + es.length) checksum
        (s.mpWritten (mpfBytes ++ rawHeader ++ es)) =
      .ok () ({ s with dev := dev }.mpWritten (mpfBytes ++ tableHeader es' ++ es')) := by
  intro es'
  have hlen : (mpfBytes ++ rawHeader ++ es).length = 60 + es.length := by
    rw [List.length_append]
    rfl
  have hmidLen := length_middleEntries s.dev.irq0Override numCpus
  have hirqs : (isaIrqs s.dev.irq0Override).length ≤ 16 := by
    rw [length_isaIrqs]
    split <;> omega
  obtain ⟨dev, hmid⟩ := deviceEntries_middle s numCpus checksum hlen (by omega)
  have hsum' : checksum + charSum (encodeAll (middleEntries s.dev.irq0Override numCpus)) =
      charSum (es ++ encodeAll (middleEntries s.dev.irq0Override numCpus)) := by
    rw [hsum, charSum_append]
  have hfinish := finishMptable_apply { s with dev := dev } hsum'
    (by rw [List.length_append]; omega)
  rw [List.length_append, ← Nat.add_assoc] at hfinish
  refine ⟨dev, ?_⟩
  rw [hmid, List.append_assoc (mpfBytes ++ rawHeader), hfinish]
  simp only [es', deviceMpEntries, encodeAll_append, List.append_assoc]

/-- Whatever the memory held, the run writes the bytes of the table. -/
theorem setupMptable_apply (stepping features : BitVec 32) (s : Firmware)
    (hfit : 220 + 20 * s.dev.numCpus.toNat ≤ 2 ^ 32) :
    ∃ dev, setupMptable stepping features s =
      .ok () ({ s with dev := dev }.mpWritten (mpBytes (mpEntries stepping features s.dev))) := by
  have hbase : (mpfBytes ++ rawHeader).length = 60 := rfl
  have hcpuLen : (encodeAll (cpuEntries stepping features 0 s.dev.numCpus.toNat)).length =
      20 * s.dev.numCpus.toNat := length_cpuEntries stepping features 0 _
  have hloop := cpuLoop_apply { s with dev := (s.dev.select FW_CFG_NB_CPUS).skip 4 }
    stepping features s.dev.numCpus.toNat 0 0#32 hbase (by omega)
  rw [BitVec.zero_add, ← hcpuLen] at hloop
  obtain ⟨dev, hdevice⟩ := deviceEntries_apply
    { s with dev := (s.dev.select FW_CFG_NB_CPUS).skip 4 } (s.dev.word FW_CFG_NB_CPUS)
    (rfl : charSum (encodeAll (cpuEntries stepping features 0 s.dev.numCpus.toNat)) = _)
    (by omega)
  refine ⟨dev, ?_⟩
  rw [setupMptable, StateRun.bind_of_ok (startMptable_apply s),
    StateRun.bind_of_ok (fwCfgSelect_apply _ _), StateRun.bind_of_ok (fwCfgReadlLe_select _ _)]
  change (cpuLoop stepping features s.dev.numCpus.toNat 0 60 0#32 >>= fun r =>
      deviceEntries (s.dev.word FW_CFG_NB_CPUS) r.1 r.2)
    ({ s with dev := (s.dev.select FW_CFG_NB_CPUS).skip 4 }.mpWritten (mpfBytes ++ rawHeader)) = _
  rw [StateRun.bind_of_ok hloop, hdevice, mpBytes, mpEntries, encodeAll_append]
  rfl

end Qboot
