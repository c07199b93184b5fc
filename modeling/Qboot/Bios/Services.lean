import Qboot.Bios.Handlers

/-!
What the firmware does for real-mode code after `setup_idt`: the vector table
decides which entry point an INT instruction reaches, and the caller goes on
behind the instruction with changes that only depend on the vector and on EAX.
-/

namespace Qboot

open Bytes ByteMemory

/-! ### The vector table -/

/-- Vectors at which the interrupt controllers deliver. -/
abbrev IsIrq (vec : Nat) : Prop := 8 ≤ vec ∧ vec < 16 ∨ 0x70 ≤ vec ∧ vec < 0x78

/-- The code that vector `vec` is for. -/
def Labels.handler (labels : Labels) (vec : Nat) : BitVec 32 :=
  if vec = 0x15 then labels.biosInt15
  else if vec = 0x10 then labels.biosInt10
  else if IsIrq vec then labels.biosIrq
  else labels.biosIntfake

def vectorWord (p : BitVec 32) : Nat := ofLE (vectorBytes p)

def vectorWords (labels : Labels) : List Nat :=
  (List.range 0x100).map fun vec => vectorWord (labels.handler vec)

def vectorTable (labels : Labels) : List Byte := wordBytes 4 (vectorWords labels)

theorem length_vectorTable (labels : Labels) : (vectorTable labels).length = 0x400 := by
  rw [vectorTable, length_wordBytes, vectorWords, List.length_map, List.length_range]

/-- The table is there once it is written. -/
theorem load_vectorTable (labels : Labels) (m : Mem) :
    load (store m 0#32 (vectorTable labels)) 0#32 0x400 = vectorTable labels := by
  have hload := @load_store 32 m 0#32 (vectorTable labels) (by rw [length_vectorTable]; decide)
  rwa [length_vectorTable] at hload

theorem toLE_vectorWord (p : BitVec 32) : toLE 4 (vectorWord p) = vectorBytes p :=
  toLE_ofLE (vectorBytes p)

theorem setRealmodeInt_apply (p : BitVec 32) (vec : Nat) (s : Firmware) :
    setRealmodeInt p vec s = .ok () (s.withBlock (BitVec.ofNat 32 (4 * vec)) (vectorBytes p)) := by
  have haddr : BitVec.ofNat 32 (vec * 4 + 2) = BitVec.ofNat 32 (4 * vec) + 2#32 := by
    rw [Nat.mul_comm vec 4, BitVec.ofNat_add]
  have hjoin := @store_append _ s.mem (BitVec.ofNat 32 (4 * vec)) (toLE 2 (flatToOff16 p).toNat)
    (toLE 2 (flatToSeg16 p).toNat) (show 2 + 2 ≤ 2 ^ 32 by decide)
  rw [setRealmodeInt, StateRun.bind_of_ok (poke_apply _ _ s), poke_apply, haddr,
    Nat.mul_comm vec 4]
  exact congrArg (fun m => EStateM.Result.ok () { s with mem := m }) hjoin

/-- One vector changes one word of the table. -/
theorem setVector_apply (p : BitVec 32) (s : Firmware) {vec : Nat} {ws : List Nat}
    (hws : ws.length = 0x100) (hvec : vec < 0x100) :
    setRealmodeInt p vec (s.withBlock 0#32 (wordBytes 4 ws)) =
      .ok () (s.withBlock 0#32 (wordBytes 4 (ws.set vec (vectorWord p)))) := by
  have hstore := @store_word _ 4 vec ws s.mem 0#32 [] (by omega) (by
    rw [List.length_nil, hws]
    decide) (vectorWord p)
  rw [List.append_nil, List.append_nil, BitVec.zero_add, toLE_vectorWord] at hstore
  rw [setRealmodeInt_apply]
  exact congrArg (fun m => EStateM.Result.ok () { s with mem := m }) hstore

theorem setVectors_apply (p : BitVec 32) (s : Firmware) (l : List Nat) {ws : List Nat}
    (hws : ws.length = 0x100) (hl : ∀ vec ∈ l, vec < 0x100) :
    forM l (setRealmodeInt p) (s.withBlock 0#32 (wordBytes 4 ws)) =
      .ok () (s.withBlock 0#32 (wordBytes 4 (setEach ws l (vectorWord p)))) := by
  induction l generalizing ws with
  | nil => rfl
  | cons vec l ih =>
    rw [List.forM_cons, StateRun.bind_of_ok (setVector_apply p s hws (hl vec (by simp)))]
    exact ih (by rwa [List.length_set]) fun v hv => hl v (by simp [hv])

/-- The stores of `setup_idt`, one after the other. -/
theorem setVectors_all (labels : Labels) {ws : List Nat} (hws : ws.length = 0x100) :
    (((setEach (setEach (setEach ws (List.range 0x100) (vectorWord labels.biosIntfake))
      (List.range' 8 8) (vectorWord labels.biosIrq))
      (List.range' 0x70 8) (vectorWord labels.biosIrq)).set 0x10
        (vectorWord labels.biosInt10)).set 0x15 (vectorWord labels.biosInt15)) =
      vectorWords labels := by
  apply List.ext_getElem?
  intro i
  by_cases hi : i < 0x100
  · have hget : (vectorWords labels)[i]? = some (vectorWord (labels.handler i)) := by
      simp [vectorWords, hi]
    have hirq : i ∈ List.range' 8 8 ↔ 8 ≤ i ∧ i < 16 := List.mem_range'_1
    have hirq' : i ∈ List.range' 0x70 8 ↔ 0x70 ≤ i ∧ i < 0x78 := List.mem_range'_1
    rw [hget, List.getElem?_set, List.getElem?_set, getElem?_setEach (by simpa [hws] using hi),
      getElem?_setEach (by simpa [hws] using hi), getElem?_setEach (by simpa [hws] using hi),
      if_pos (List.mem_range.mpr hi)]
    simp only [List.length_set, length_setEach, hws, hirq, hirq', Labels.handler, IsIrq]
    by_cases h15 : i = 0x15
    · rw [if_pos h15.symm, if_pos (by omega), if_pos h15]
    · rw [if_neg (Ne.symm h15), if_neg h15]
      by_cases h10 : i = 0x10
      · rw [if_pos h10.symm, if_pos (by omega), if_pos h10]
      · rw [if_neg (Ne.symm h10), if_neg h10]
        by_cases hlate : 0x70 ≤ i ∧ i < 0x78
        · rw [if_pos hlate, if_pos (Or.inr hlate)]
        · rw [if_neg hlate]
          by_cases hearly : 8 ≤ i ∧ i < 16
          · rw [if_pos hearly, if_pos (Or.inl hearly)]
          · rw [if_neg hearly, if_neg (not_or.mpr ⟨hearly, hlate⟩)]
  · have hleft (xs : List Nat) (hxs : xs.length = 0x100) : xs[i]? = none :=
      List.getElem?_eq_none (by omega)
    rw [hleft _ (by simp [hws]), hleft _ (by simp [vectorWords])]

/-- `setup_idt` fills the whole table and nothing else. -/
theorem setupIdt_apply (labels : Labels) (s : Firmware) :
    setupIdt labels s = .ok () (s.withBlock 0#32 (vectorTable labels)) := by
  obtain ⟨ws, hws⟩ := @exists_wordBytes 4 (by decide) (load s.mem 0#32 0x400)
    (by rw [length_load]; decide)
  have hlen : ws.length = 0x100 := by
    have h := congrArg List.length hws
    rw [length_wordBytes, length_load] at h
    omega
  have hstart : s = s.withBlock 0#32 (wordBytes 4 ws) := by
    rw [hws, Firmware.withBlock, store_load]
  let ws1 : List Nat := setEach ws (List.range 0x100) (vectorWord labels.biosIntfake)
  let ws2 : List Nat := setEach ws1 (List.range' 8 8) (vectorWord labels.biosIrq)
  let ws3 : List Nat := setEach ws2 (List.range' 0x70 8) (vectorWord labels.biosIrq)
  let ws4 : List Nat := ws3.set 0x10 (vectorWord labels.biosInt10)
  have hlen1 : ws1.length = 0x100 := (length_setEach _ _ _).trans hlen
  have hlen2 : ws2.length = 0x100 := (length_setEach _ _ _).trans hlen1
  have hlen3 : ws3.length = 0x100 := (length_setEach _ _ _).trans hlen2
  have hlen4 : ws4.length = 0x100 := List.length_set.trans hlen3
  have hrange (first : Nat) (hfirst : first + 8 ≤ 0x100) :
      ∀ vec ∈ List.range' first 8, vec < 0x100 := by
    intro vec hvec
    have h := List.mem_range'_1.mp hvec
    omega
  have hfake := setVectors_apply labels.biosIntfake s (List.range 0x100) hlen
    (fun vec hvec => List.mem_range.mp hvec)
  have hirq := setVectors_apply labels.biosIrq s (List.range' 8 8) hlen1 (hrange 8 (by decide))
  have hirq' := setVectors_apply labels.biosIrq s (List.range' 0x70 8) hlen2
    (hrange 0x70 (by decide))
  have hint10 := setVector_apply labels.biosInt10 s hlen3 (show 0x10 < 0x100 by decide)
  have hint15 := setVector_apply labels.biosInt15 s hlen4 (show 0x15 < 0x100 by decide)
  rw [setVectors_all labels hlen] at hint15
  conv_lhs => rw [hstart]
  rw [setupIdt, StateRun.bind_of_ok hfake, StateRun.bind_of_ok hirq, StateRun.bind_of_ok hirq',
    StateRun.bind_of_ok hint10]
  exact hint15

/-- A vector of the table in memory. -/
theorem load_vector {m : Mem} {labels : Labels} (htable : load m 0#32 0x400 = vectorTable labels)
    (vec : BitVec 8) : load m (vectorAt vec) 4 = vectorBytes (labels.handler vec.toNat) := by
  have hvec : vec.toNat < (vectorWords labels).length := by
    rw [vectorWords, List.length_map, List.length_range]
    exact vec.isLt
  have hword : (vectorWords labels)[vec.toNat] = vectorWord (labels.handler vec.toNat) := by
    simp [vectorWords]
  have hslice := slice_load m 0#32 (show 4 * vec.toNat + 4 ≤ 0x400 by omega)
  have hget := slice_wordBytes (n := 4) hvec []
  rw [List.append_nil, hword, toLE_vectorWord] at hget
  rw [htable, vectorTable, hget, BitVec.zero_add] at hslice
  exact hslice.symm

/-! ### The way to the handler -/

/-- The entry points are different code below one megabyte. -/
structure Labels.Placed (labels : Labels) : Prop where
  below : ∀ vec, (labels.handler vec).toNat < 0x100000
  irq : labels.biosIrq ≠ labels.biosIntfake
  int10 : labels.biosInt10 ≠ labels.biosIntfake ∧ labels.biosInt10 ≠ labels.biosIrq
  int15 : labels.biosInt15 ≠ labels.biosIntfake ∧ labels.biosInt15 ≠ labels.biosIrq ∧
    labels.biosInt15 ≠ labels.biosInt10

/-- The last `n` bytes below the stack pointer. -/
def Cpu.freeStack (c : Cpu) (n : Nat) : BitVec 32 :=
  c.stackBase .real + BitVec.ofNat 32 (c.esp.toNat - n)

/-- Real-mode code that may execute INT if the firmware takes `n` bytes of its
stack. -/
structure Board.MayCall (m : Board) (n : Nat) : Prop where
  room : n ≤ m.cpu.esp.toNat
  stack : m.cpu.esp.toNat < 2 ^ 16
  code : m.cpu.eip.toNat < 2 ^ 16
  apart : Apart 0#32 0x400 (m.cpu.freeStack n) n

section Call

variable {labels : Labels} {scratch : List Byte} {vec : BitVec 8} {m : Board} {n k : Nat}

theorem freeStack_add (c : Cpu) (hn : n ≤ c.esp.toNat) (hk : k ≤ n) :
    c.freeStack n + BitVec.ofNat 32 (n - k) = c.freeStack k := by
  have hnat : c.esp.toNat - n + (n - k) = c.esp.toNat - k := by
    omega
  rw [Cpu.freeStack, Cpu.freeStack, BitVec.add_assoc, ← BitVec.ofNat_add, hnat]

theorem Board.MayCall.fewer (h : m.MayCall n) (hk : k ≤ n) : m.MayCall k where
  room := hk.trans h.room
  stack := h.stack
  code := h.code
  apart := by
    have hroom := h.room
    have hstack := h.stack
    have hpart := h.apart.symm.part (show n - k + k ≤ n by omega) (by omega)
    rw [freeStack_add m.cpu h.room hk] at hpart
    exact hpart.symm

theorem Board.MayCall.esp (h : m.MayCall n) :
    m.cpu.esp = BitVec.ofNat 32 (m.cpu.esp.toNat - n + n) := by
  have hback : BitVec.ofNat 32 m.cpu.esp.toNat = m.cpu.esp := by simp
  rw [Nat.sub_add_cancel h.room, hback]

/-- INT goes to the entry point with the return frame on the stack. -/
theorem interrupt_handler (hplaced : labels.Placed)
    (htable : load m.fw.mem 0#32 0x400 = vectorTable labels) (hcall : m.MayCall 6) :
    interrupt labels scratch vec m = firmwareCode labels scratch (labels.handler vec.toNat)
      ({ m with cpu := m.cpu.calling (labels.handler vec.toNat) }.stacked .real
        (m.cpu.esp.toNat - 6) m.cpu.frame) := by
  have hroom := hcall.room
  have hstack := hcall.stack
  apply interrupt_apply hcall.esp (by omega) (hplaced.below _) (load_vector htable vec)
  have hpart := hcall.apart.part (show 4 * vec.toNat + 4 ≤ 0x400 by omega) (by decide)
  rw [BitVec.zero_add] at hpart
  exact hpart

theorem firmwareCode_biosIntfake :
    firmwareCode labels scratch labels.biosIntfake = biosIntfake := if_pos rfl

theorem firmwareCode_biosIrq (h : labels.Placed) :
    firmwareCode labels scratch labels.biosIrq = biosIrq :=
  (if_neg h.irq).trans (if_pos rfl)

theorem firmwareCode_biosInt10 (h : labels.Placed) :
    firmwareCode labels scratch labels.biosInt10 = biosInt scratch int10HandlerAt :=
  (if_neg h.int10.1).trans ((if_neg h.int10.2).trans (if_pos rfl))

theorem firmwareCode_biosInt15 (h : labels.Placed) :
    firmwareCode labels scratch labels.biosInt15 =
      biosInt scratch fun ds regs => callFw (int15HandlerAt ds regs) :=
  (if_neg h.int15.1).trans ((if_neg h.int15.2.1).trans ((if_neg h.int15.2.2).trans (if_pos rfl)))

/-- The return loads the caller's registers, and flags from the stack. -/
theorem calling_returned (c : Cpu) (p : BitVec 32) (flags : BitVec 16)
    (hesp : c.esp = BitVec.ofNat 32 k) (hcode : c.eip.toNat < 2 ^ 16) :
    { c.calling p with
      esp := BitVec.ofNat 32 k
      eip := (c.eip.setWidth 16).setWidth 32
      cs := c.cs
      eflags := withLowHalf (c.calling p).eflags flags } =
    { c with eflags := withLowHalf c.eflags flags } := by
  have hflags : withLowHalf (c.calling p).eflags flags = withLowHalf c.eflags flags :=
    withLowHalf_masked c.eflags flags
  have heip : (c.eip.setWidth 16).setWidth 32 = c.eip := by
    apply BitVec.eq_of_toNat_eq
    rw [BitVec.toNat_setWidth, BitVec.toNat_setWidth]
    omega
  rw [hflags, heip, ← hesp]
  rfl

end Call

/-! ### The answers -/

/-- How much of the caller's stack an interrupt takes. -/
def stackUse (scratch : List Byte) (vec : Nat) : Nat :=
  if vec = 0x10 ∨ vec = 0x15 then scratch.length + 50 else if IsIrq vec then 8 else 6

/-- The registers behind INT `vec`, which is not a question for the memory map. -/
def Cpu.answer (c : Cpu) (vec : Nat) : Cpu :=
  if vec = 0x10 then { c with eax := int10Eax c.eax, eflags := c.eflags &&& 0xfffffffe#32 }
  else if IsIrq vec then c
  else { c with eflags := c.eflags ||| 1#32 }

/-- What the firmware writes to I/O ports meanwhile. -/
def Cpu.sent (c : Cpu) (vec : Nat) : List (BitVec 16 × Byte) :=
  if vec = 0x10 then int10Sent c.eax else if IsIrq vec then [(0x20#16, 0x20#8)] else []

section Flags

variable (eflags : BitVec 32)

theorem flags_carry :
    withLowHalf eflags (eflags.setWidth 16 ||| 1#16) = eflags ||| 1#32 := by
  have hlow : eflags.setWidth 16 ||| 1#16 = (eflags ||| 1#32).setWidth 16 :=
    (BitVec.setWidth_or (x := eflags) (y := 1#32)).symm
  rw [hlow]
  apply withLowHalf_eq
  intro i hlo hi
  have hbit : (1#32).getLsbD i = false := by
    interval_cases i <;> rfl
  rw [BitVec.getLsbD_or, hbit, Bool.or_false]

theorem flags_clear :
    withLowHalf eflags (eflags.setWidth 16 &&& 0xfffe#16) = eflags &&& 0xfffffffe#32 := by
  have hlow : eflags.setWidth 16 &&& 0xfffe#16 = (eflags &&& 0xfffffffe#32).setWidth 16 :=
    (BitVec.setWidth_and (x := eflags) (y := 0xfffffffe#32)).symm
  rw [hlow]
  apply withLowHalf_eq
  intro i hlo hi
  have hbit : (0xfffffffe#32).getLsbD i = true := by
    interval_cases i <;> rfl
  rw [BitVec.getLsbD_and, hbit, Bool.and_true]

theorem flags_same : withLowHalf eflags (eflags.setWidth 16) = eflags :=
  withLowHalf_eq fun _ _ _ => rfl

/-- A failed service clears the carry flag first and then sets it. -/
theorem clear_or_carry (flags : BitVec 16) : flags &&& 0xfffe#16 ||| 1#16 = flags ||| 1#16 := by
  apply BitVec.eq_of_getLsbD_eq
  intro i hi
  simp only [BitVec.getLsbD_or, BitVec.getLsbD_and]
  have hmask : (0xfffe#16).getLsbD i = true ∨ (1#16).getLsbD i = true := by
    interval_cases i <;> decide
  rcases hmask with h | h
  · rw [h, Bool.and_true]
  · rw [h, Bool.or_true, Bool.or_true]

end Flags

section Answer

variable {labels : Labels} {scratch : List Byte} {vec : BitVec 8} {m : Board}

theorem interrupt_intfake (hplaced : labels.Placed)
    (htable : load m.fw.mem 0#32 0x400 = vectorTable labels) (hcall : m.MayCall 6)
    (hvec : labels.handler vec.toNat = labels.biosIntfake) :
    interrupt labels scratch vec m = .ok () { m with
      cpu := { m.cpu with eflags := m.cpu.eflags ||| 1#32 }
      fw := m.fw.withBlock (m.cpu.freeStack 6)
        (returnFrame (m.cpu.eip.setWidth 16) m.cpu.cs (m.cpu.eflags.setWidth 16 ||| 1#16)) } := by
  let k : Nat := m.cpu.esp.toNat - 6
  let p : BitVec 32 := labels.biosIntfake
  let inside : Board := { m with cpu := m.cpu.calling p }
  have hroom := hcall.room
  have hstack := hcall.stack
  have hlow : (m.cpu.eflags.setWidth 16).setWidth 8 ||| 1#8 =
      (m.cpu.eflags.setWidth 16 ||| 1#16).setWidth 8 :=
    (BitVec.setWidth_or (x := m.cpu.eflags.setWidth 16) (y := 1#16)).symm
  have hhigh : (m.cpu.eflags.setWidth 16 >>> 8).setWidth 8 =
      ((m.cpu.eflags.setWidth 16 ||| 1#16) >>> 8).setWidth 8 := by
    have hbit : 1#16 >>> 8 = 0#16 := rfl
    rw [BitVec.ushiftRight_or_distrib, hbit, BitVec.or_zero]
  have hset := @updateSavedFlags_stacked inside k (m.cpu.eip.setWidth 16) m.cpu.cs
    (m.cpu.eflags.setWidth 16) (fun b => b ||| 1#8) (m.cpu.eflags.setWidth 16 ||| 1#16) hlow hhigh
  let frame : List Byte :=
    returnFrame (m.cpu.eip.setWidth 16) m.cpu.cs (m.cpu.eflags.setWidth 16 ||| 1#16)
  have hload : load (inside.stacked .real k frame).fw.mem
      (m.cpu.stackBase .real + BitVec.ofNat 32 k) 6 = frame :=
    @load_store 32 m.fw.mem (m.cpu.stackBase .real + BitVec.ofNat 32 k) frame
      (show 6 ≤ 2 ^ 32 by decide)
  have hiret := @iret_apply (inside.stacked .real k frame) k _ _ _ rfl (by omega) hload
  have hcpu := calling_returned m.cpu p (m.cpu.eflags.setWidth 16 ||| 1#16) hcall.esp hcall.code
  rw [interrupt_handler hplaced htable hcall, hvec, firmwareCode_biosIntfake, biosIntfake]
  refine (StateRun.bind_of_ok hset).trans (hiret.trans ?_)
  rw [← flags_carry]
  exact congrArg (fun c => EStateM.Result.ok () { m with
    cpu := c, fw := m.fw.withBlock (m.cpu.freeStack 6) frame }) hcpu

theorem interrupt_irq (hplaced : labels.Placed)
    (htable : load m.fw.mem 0#32 0x400 = vectorTable labels) (hcall : m.MayCall 8)
    (hvec : labels.handler vec.toNat = labels.biosIrq) :
    interrupt labels scratch vec m = .ok () { m with
      fw := m.fw.withBlock (m.cpu.freeStack 8)
        (toLE 2 (m.cpu.eax.setWidth 16).toNat ++ m.cpu.frame)
      ports := m.ports ++ [(0x20#16, 0x20#8)] } := by
  let k : Nat := m.cpu.esp.toNat - 8
  let inside : Board := { m with cpu := m.cpu.calling labels.biosIrq }
  have hroom := hcall.room
  have hstack := hcall.stack
  have hoffset : m.cpu.esp.toNat - 6 = k + 2 := by
    omega
  have hirq := @biosIrq_apply inside k (m.cpu.eip.setWidth 16) m.cpu.cs (m.cpu.eflags.setWidth 16)
    (by omega)
  have hcpu := calling_returned m.cpu labels.biosIrq (m.cpu.eflags.setWidth 16) hcall.esp hcall.code
  rw [flags_same] at hcpu
  rw [interrupt_handler hplaced htable (hcall.fewer (by decide)), hvec,
    firmwareCode_biosIrq hplaced, hoffset]
  refine hirq.trans ?_
  exact congrArg (fun c => EStateM.Result.ok () { m with
    cpu := c
    fw := m.fw.withBlock (m.cpu.freeStack 8)
      (toLE 2 (m.cpu.eax.setWidth 16).toNat ++ m.cpu.frame)
    ports := m.ports ++ [(0x20#16, 0x20#8)] }) hcpu

/-- Where the C handler finds the saved registers. -/
def Cpu.savedAt (c : Cpu) : Nat := c.esp.toNat - 50

/-- The saved registers as the C handler gets them. -/
def Cpu.biosregs (c : Cpu) : List Byte :=
  (c.saved c.savedAt).biosregs (c.eip.setWidth 16) c.cs (c.eflags.setWidth 16 &&& 0xfffe#16)

/-- An interrupt whose C handler changes EAX, EBX and ECX and the saved flags. -/
theorem interrupt_biosInt {handler : BitVec 16 → BitVec 32 → Asm Unit} {eax ebx ecx : BitVec 32}
    {flags : BitVec 16} {s : Firmware} {ports : List (BitVec 16 × Byte)}
    (hplaced : labels.Placed) (htable : load m.fw.mem 0#32 0x400 = vectorTable labels)
    (hcall : m.MayCall (scratch.length + 50))
    (hcode : firmwareCode labels scratch (labels.handler vec.toNat) = biosInt scratch handler)
    (hrun : handler m.cpu.ds (BitVec.ofNat 32 m.cpu.savedAt)
        ({ m with cpu := m.cpu.calling (labels.handler vec.toNat) }.inHandler m.cpu.savedAt scratch
          m.fw m.cpu.biosregs) =
      .ok ()
        { { m with cpu := m.cpu.calling (labels.handler vec.toNat) }.inHandler m.cpu.savedAt scratch s
            ({ m.cpu.saved m.cpu.savedAt with eax := eax, ebx := ebx, ecx := ecx }.biosregs
              (m.cpu.eip.setWidth 16) m.cpu.cs flags) with ports := ports }) :
    ∃ regs : List Byte, regs.length = 50 ∧ interrupt labels scratch vec m = .ok ()
      { cpu := { m.cpu with
          eax := eax
          ebx := ebx
          ecx := ecx
          eflags := withLowHalf m.cpu.eflags flags }
        fw := s.withBlock (m.cpu.freeStack (scratch.length + 50)) (scratch ++ regs)
        ports := ports } := by
  let k : Nat := m.cpu.savedAt
  have hroom := hcall.room
  have hstack := hcall.stack
  have hk : k = m.cpu.esp.toNat - 50 := rfl
  have hoffset : m.cpu.esp.toNat - 6 = k + 44 := by
    omega
  let p : BitVec 32 := labels.handler vec.toNat
  let f : SavedRegs := { m.cpu.saved k with eax := eax, ebx := ebx, ecx := ecx }
  let regs : List Byte := f.biosregs (m.cpu.eip.setWidth 16) m.cpu.cs flags
  have hregs : regs.length = 50 := length_biosregs f _ _ _
  have hint := @biosInt_apply { m with cpu := m.cpu.calling p } k scratch handler
    (m.cpu.eip.setWidth 16) m.cpu.cs (m.cpu.eflags.setWidth 16) flags f s ports (by omega)
    (by omega) rfl hrun
  have hsegment (seg : BitVec 16) : (seg.setWidth 32).setWidth 16 = seg := by
    simp
  have hcpu := calling_returned { m.cpu with eax := eax, ebx := ebx, ecx := ecx } p flags
    (show m.cpu.esp = BitVec.ofNat 32 (k + 50) from (hcall.fewer (by omega)).esp) hcall.code
  have hbelow : m.cpu.stackBase .real + BitVec.ofNat 32 (k - scratch.length) =
      m.cpu.freeStack (scratch.length + 50) := by
    have hnat : k - scratch.length = m.cpu.esp.toNat - (scratch.length + 50) := by
      omega
    rw [Cpu.freeStack, hnat]
  have hpart : m.cpu.freeStack (scratch.length + 50) + BitVec.ofNat 32 scratch.length =
      m.cpu.stackBase .real + BitVec.ofNat 32 k := by
    have hnat : m.cpu.esp.toNat - (scratch.length + 50) + scratch.length = k := by
      omega
    rw [Cpu.freeStack, BitVec.add_assoc, ← BitVec.ofNat_add, hnat]
  have hmem : (s.withBlock (m.cpu.stackBase .real + BitVec.ofNat 32 (k - scratch.length))
      scratch).withBlock (m.cpu.stackBase .real + BitVec.ofNat 32 k) regs =
      s.withBlock (m.cpu.freeStack (scratch.length + 50)) (scratch ++ regs) := by
    have hjoin := @store_append _ s.mem (m.cpu.freeStack (scratch.length + 50)) scratch regs
      (by omega)
    rw [hpart] at hjoin
    rw [hbelow]
    exact congrArg (fun mem => { s with mem := mem }) hjoin
  have hrestored : (m.cpu.calling p).restored f =
      { m.cpu with eax := eax, ebx := ebx, ecx := ecx }.calling p := by
    simp only [Cpu.restored, Cpu.calling, Cpu.saved, f, hsegment]
  have hback : { (m.cpu.calling p).restored f with
      esp := BitVec.ofNat 32 (k + 50)
      eip := (m.cpu.eip.setWidth 16).setWidth 32
      cs := m.cpu.cs
      eflags := withLowHalf (m.cpu.calling p).eflags flags } =
      { m.cpu with
        eax := eax
        ebx := ebx
        ecx := ecx
        eflags := withLowHalf m.cpu.eflags flags } := by
    rw [hrestored]
    exact hcpu
  refine ⟨regs, hregs, ?_⟩
  rw [interrupt_handler hplaced htable (hcall.fewer (by omega)), hcode, hoffset, ← hmem]
  refine hint.trans ?_
  exact congrArg (fun c => EStateM.Result.ok () (Board.mk c ((s.withBlock
    (m.cpu.stackBase .real + BitVec.ofNat 32 (k - scratch.length)) scratch).withBlock
      (m.cpu.stackBase .real + BitVec.ofNat 32 k) regs) ports)) hback

theorem interrupt_int10 (hplaced : labels.Placed)
    (htable : load m.fw.mem 0#32 0x400 = vectorTable labels)
    (hcall : m.MayCall (scratch.length + 50)) (hds : m.cpu.ds = m.cpu.ss)
    (hvec : labels.handler vec.toNat = labels.biosInt10) :
    ∃ regs : List Byte, regs.length = 50 ∧ interrupt labels scratch vec m = .ok ()
      { cpu := { m.cpu with
          eax := int10Eax m.cpu.eax
          eflags := m.cpu.eflags &&& 0xfffffffe#32 }
        fw := m.fw.withBlock (m.cpu.freeStack (scratch.length + 50)) (scratch ++ regs)
        ports := m.ports ++ int10Sent m.cpu.eax } := by
  have hcode : firmwareCode labels scratch (labels.handler vec.toNat) =
      biosInt scratch int10HandlerAt := by
    rw [hvec, firmwareCode_biosInt10 hplaced]
  have hrun := @int10HandlerAt_apply
    { m with cpu := m.cpu.calling (labels.handler vec.toNat) } m.cpu.savedAt scratch m.fw
    (m.cpu.saved m.cpu.savedAt) (m.cpu.eip.setWidth 16) m.cpu.cs
    (m.cpu.eflags.setWidth 16 &&& 0xfffe#16) hds
  rw [← flags_clear]
  exact @interrupt_biosInt _ _ _ _ _ _ m.cpu.ebx m.cpu.ecx _ _ _ hplaced htable hcall hcode hrun

/-- The registers with which a caller enters the INT 15h handler. -/
def Cpu.int15Args (c : Cpu) : BiosRegs :=
  (c.saved c.savedAt).args c.ds (c.eflags.setWidth 16 &&& 0xfffe#16)

/-- The machine on which the INT 15h handler runs, apart from the saved registers. -/
def Board.int15Fw (m : Board) (scratch : List Byte) : Firmware :=
  m.fw.withBlock (m.cpu.freeStack (scratch.length + 50)) scratch

/-- INT 15h does what the handler on values does. -/
theorem interrupt_int15 {regs : BiosRegs} {s : Firmware} (hplaced : labels.Placed)
    (htable : load m.fw.mem 0#32 0x400 = vectorTable labels)
    (hcall : m.MayCall (scratch.length + 50)) (hds : m.cpu.ds = m.cpu.ss)
    (hvec : labels.handler vec.toNat = labels.biosInt15)
    (hrun : int15Handler m.cpu.int15Args (m.int15Fw scratch) =
      .ok regs (s.withBlock (m.cpu.freeStack (scratch.length + 50)) scratch))
    (happ : m.cpu.eax = 0xe820#32 →
      HandlerApart (m.int15Fw scratch) m.cpu.int15Args (m.cpu.freeStack 50) 50) :
    ∃ block : List Byte, block.length = 50 ∧ interrupt labels scratch vec m = .ok () { m with
      cpu := { m.cpu with
        eax := regs.eax
        ebx := regs.ebx
        ecx := regs.ecx
        eflags := withLowHalf m.cpu.eflags regs.eflags }
      fw := s.withBlock (m.cpu.freeStack (scratch.length + 50)) (scratch ++ block) } := by
  let k : Nat := m.cpu.savedAt
  have hroom := hcall.room
  have hcode : firmwareCode labels scratch (labels.handler vec.toNat) =
      biosInt scratch fun ds regs => callFw (int15HandlerAt ds regs) := by
    rw [hvec, firmwareCode_biosInt15 hplaced]
  have hp : segmentAddress m.cpu.ds (BitVec.ofNat 32 k) = m.cpu.freeStack 50 := by
    simp only [k, hds, Cpu.stackBase, Cpu.freeStack, Cpu.savedAt, segmentAddress, BitVec.add_zero]
  have hbelow : m.cpu.stackBase .real + BitVec.ofNat 32 (k - scratch.length) =
      m.cpu.freeStack (scratch.length + 50) := by
    have hnat : k - scratch.length = m.cpu.esp.toNat - (scratch.length + 50) := by
      simp only [k, Cpu.savedAt]
      omega
    rw [Cpu.freeStack, hnat]
  have hat := @int15HandlerAt_refines (m.cpu.saved k) m.cpu.ds (m.cpu.eip.setWidth 16) m.cpu.cs
    (m.cpu.eflags.setWidth 16 &&& 0xfffe#16) (BitVec.ofNat 32 k) _ _ _ hrun (by rwa [hp])
  rw [hp, Board.int15Fw, ← hbelow] at hat
  let inside : Board := { m with cpu := m.cpu.calling (labels.handler vec.toNat) }
  have hcalled : callFw (int15HandlerAt m.cpu.ds (BitVec.ofNat 32 k))
      (inside.inHandler k scratch m.fw m.cpu.biosregs) =
      .ok () { inside.inHandler k scratch s
        ({ m.cpu.saved k with eax := regs.eax, ebx := regs.ebx, ecx := regs.ecx }.biosregs
          (m.cpu.eip.setWidth 16) m.cpu.cs regs.eflags) with ports := m.ports } :=
    callFw_ok hat
  exact interrupt_biosInt hplaced htable hcall hcode hcalled

/-- INT 15h is for the memory map alone. -/
theorem interrupt_int15_other (hplaced : labels.Placed)
    (htable : load m.fw.mem 0#32 0x400 = vectorTable labels)
    (hcall : m.MayCall (scratch.length + 50)) (hds : m.cpu.ds = m.cpu.ss)
    (hvec : labels.handler vec.toNat = labels.biosInt15) (heax : m.cpu.eax ≠ 0xe820#32) :
    ∃ block : List Byte, block.length = 50 ∧ interrupt labels scratch vec m = .ok () { m with
      cpu := { m.cpu with eflags := m.cpu.eflags ||| 1#32 }
      fw := m.fw.withBlock (m.cpu.freeStack (scratch.length + 50)) (scratch ++ block) } := by
  have hfails : int15Handler m.cpu.int15Args (m.int15Fw scratch) =
      .ok { m.cpu.int15Args with eflags := m.cpu.int15Args.eflags ||| X86_EFLAGS_CF }
        (m.int15Fw scratch) := congrFun (if_neg heax) _
  have hcall15 := interrupt_int15 hplaced htable hcall hds hvec hfails (fun h => absurd h heax)
  have hflags : m.cpu.int15Args.eflags ||| X86_EFLAGS_CF = m.cpu.eflags.setWidth 16 ||| 1#16 :=
    clear_or_carry _
  rw [hflags, flags_carry] at hcall15
  exact hcall15

/-- Every interrupt but the question for the memory map comes back to the
caller, whatever its registers are, and takes nothing but free stack. -/
theorem interrupt_answer (hplaced : labels.Placed)
    (htable : load m.fw.mem 0#32 0x400 = vectorTable labels)
    (hcall : m.MayCall (stackUse scratch vec.toNat))
    (hds : vec.toNat = 0x10 ∨ vec.toNat = 0x15 → m.cpu.ds = m.cpu.ss)
    (hother : vec.toNat = 0x15 → m.cpu.eax ≠ 0xe820#32) :
    ∃ bs : List Byte, bs.length = stackUse scratch vec.toNat ∧
      interrupt labels scratch vec m = .ok ()
        { cpu := m.cpu.answer vec.toNat
          fw := m.fw.withBlock (m.cpu.freeStack (stackUse scratch vec.toNat)) bs
          ports := m.ports ++ m.cpu.sent vec.toNat } := by
  rw [stackUse] at hcall ⊢
  rw [Cpu.answer, Cpu.sent]
  by_cases h10 : vec.toNat = 0x10
  · have hvec : labels.handler vec.toNat = labels.biosInt10 := by
      rw [Labels.handler, if_neg (by omega), if_pos h10]
    rw [if_pos (Or.inl h10)] at hcall ⊢
    rw [if_pos h10, if_pos h10]
    obtain ⟨regs, hregs, hrun⟩ := interrupt_int10 hplaced htable hcall (hds (Or.inl h10)) hvec
    exact ⟨scratch ++ regs, by rw [List.length_append, hregs], hrun⟩
  · rw [if_neg h10, if_neg h10]
    by_cases h15 : vec.toNat = 0x15
    · have hvec : labels.handler vec.toNat = labels.biosInt15 := by
        rw [Labels.handler, if_pos h15]
      have hirq : ¬ IsIrq vec.toNat := by
        omega
      rw [if_pos (Or.inr h15)] at hcall ⊢
      rw [if_neg hirq, if_neg hirq, List.append_nil]
      obtain ⟨block, hblock, hrun⟩ := interrupt_int15_other hplaced htable hcall
        (hds (Or.inr h15)) hvec (hother h15)
      exact ⟨scratch ++ block, by rw [List.length_append, hblock], hrun⟩
    · have hno : ¬ (vec.toNat = 0x10 ∨ vec.toNat = 0x15) := not_or.mpr ⟨h10, h15⟩
      rw [if_neg hno] at hcall ⊢
      by_cases hirq : IsIrq vec.toNat
      · have hvec : labels.handler vec.toNat = labels.biosIrq := by
          rw [Labels.handler, if_neg h15, if_neg h10, if_pos hirq]
        rw [if_pos hirq] at hcall ⊢
        rw [if_pos hirq, if_pos hirq]
        exact ⟨_, rfl, interrupt_irq hplaced htable hcall hvec⟩
      · have hvec : labels.handler vec.toNat = labels.biosIntfake := by
          rw [Labels.handler, if_neg h15, if_neg h10, if_neg hirq]
        rw [if_neg hirq] at hcall ⊢
        rw [if_neg hirq, if_neg hirq, List.append_nil]
        exact ⟨_, rfl, interrupt_intfake hplaced htable hcall hvec⟩

end Answer

/-- `setup_idt` changes the vector table alone, and as long as the table stays
in memory, code in real mode gets the answers of the firmware. -/
theorem setupIdt_services {labels : Labels} (hplaced : labels.Placed) (s : Firmware) :
    ∃ s', setupIdt labels s = .ok () s' ∧ (∀ a, 0x400 ≤ a.toNat → s'.mem a = s.mem a) ∧
      ∀ (m : Board) (vec : BitVec 8) (scratch : List Byte),
        load m.fw.mem 0#32 0x400 = load s'.mem 0#32 0x400 →
        m.MayCall (stackUse scratch vec.toNat) →
        (vec.toNat = 0x10 ∨ vec.toNat = 0x15 → m.cpu.ds = m.cpu.ss) →
        (vec.toNat = 0x15 → m.cpu.eax ≠ 0xe820#32) →
        ∃ bs : List Byte, bs.length = stackUse scratch vec.toNat ∧
          interrupt labels scratch vec m = .ok ()
            { cpu := m.cpu.answer vec.toNat
              fw := m.fw.withBlock (m.cpu.freeStack (stackUse scratch vec.toNat)) bs
              ports := m.ports ++ m.cpu.sent vec.toNat } := by
  have hlen := length_vectorTable labels
  refine ⟨_, setupIdt_apply labels s, ?_, ?_⟩
  · intro a ha
    apply store_of_not_within
    have hzero : (0#32).toNat + (vectorTable labels).length ≤ 2 ^ 32 := by
      rw [hlen]
      decide
    rw [within_iff hzero, hlen]
    change ¬ (0 ≤ a.toNat ∧ a.toNat < 0 + 0x400)
    omega
  · intro m vec scratch htable hcall hds hother
    have hheld := htable.trans (load_vectorTable labels s.mem)
    exact interrupt_answer hplaced hheld hcall hds hother

/-- Entry points at the start of the F-segment. -/
def entryLabels : Labels where
  bios32Entry := 0xf0080#32
  biosIntfake := 0xf0010#32
  biosIrq := 0xf0000#32
  biosInt10 := 0xf0020#32
  biosInt15 := 0xf0050#32

theorem entryLabels_placed : entryLabels.Placed where
  below := by
    intro vec
    unfold Labels.handler
    split_ifs <;> decide
  irq := by decide
  int10 := by decide
  int15 := by decide

/-- Code at 0x1000:0x100 whose stack ends at offset 0x8000. -/
def realModeCpu (eax : BitVec 32) : Cpu where
  eax := eax
  ebx := 0#32
  ecx := 0#32
  edx := 0#32
  esp := 0x8000#32
  ebp := 0#32
  esi := 0#32
  edi := 0x9000#32
  ds := 0x1000#16
  es := 0x1000#16
  fs := 0#16
  gs := 0#16
  ss := 0x1000#16
  cs := 0x1000#16
  eip := 0x100#32
  eflags := 0x202#32

/-- The machine when `main` starts, in a memory of zeros. -/
def blankMachine : Firmware :=
  Firmware.initial { entry := fun _ => [], key := 0#16, pos := 0 } (fun _ => 0#8) 0xf0000#32
    0xf4000#32

/-- Real-mode code right after `setup_idt`. -/
def vesaBoard : Board where
  cpu := realModeCpu 0x4f00#32
  fw := blankMachine.withBlock 0#32 (vectorTable entryLabels)
  ports := []

theorem vesaBoard_mayCall : vesaBoard.MayCall 50 where
  room := by
    change 50 ≤ (0x8000#32).toNat
    decide
  stack := by
    change (0x8000#32).toNat < 2 ^ 16
    decide
  code := by
    change (0x100#32).toNat < 2 ^ 16
    decide
  apart := by
    change Apart 0#32 0x400 ((realModeCpu 0x4f00#32).freeStack 50) 50
    exact apart_of_le (by decide) (by decide)

/-- The VESA call of INT 10h fails. -/
theorem setupIdt_services_vesa :
    ∃ bs, interrupt entryLabels [] 0x10#8 vesaBoard = .ok ()
      { vesaBoard with
        cpu := { realModeCpu 0x14f#32 with eflags := 0x202#32 }
        fw := vesaBoard.fw.withBlock 0x17fce#32 bs } := by
  obtain ⟨s', hrun, -, hanswer⟩ := setupIdt_services entryLabels_placed blankMachine
  have hfw : vesaBoard.fw = s' := by
    have hset := hrun.symm.trans (setupIdt_apply entryLabels blankMachine)
    exact (EStateM.Result.ok.inj hset).2.symm
  obtain ⟨bs, -, hint⟩ := hanswer vesaBoard 0x10#8 [] (by rw [hfw]) vesaBoard_mayCall
    (fun _ => rfl) (fun h => absurd h (by decide))
  refine ⟨bs, hint.trans ?_⟩
  have hcpu : vesaBoard.cpu.answer (0x10#8).toNat =
      { realModeCpu 0x14f#32 with eflags := 0x202#32 } := by
    change (realModeCpu 0x4f00#32).answer 0x10 = _
    decide +kernel
  have hsent : vesaBoard.ports ++ vesaBoard.cpu.sent (0x10#8).toNat = vesaBoard.ports := by
    change [] ++ (realModeCpu 0x4f00#32).sent 0x10 = []
    decide +kernel
  have hplace : vesaBoard.cpu.freeStack (stackUse [] (0x10#8).toNat) = 0x17fce#32 := by
    change (realModeCpu 0x4f00#32).freeStack 50 = _
    decide
  rw [hcpu, hsent, hplace]

end Qboot
