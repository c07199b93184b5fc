import Qboot.Bios.Interrupts

/-!
The way of an interrupt into the firmware and back. INT leaves a return frame,
a handler may change the saved flags and, if it is a C function, the saved
registers, and IRET takes the frame off the stack again. Handlers are
described from a machine that has the frame on its stack.
-/

namespace Qboot

open Bytes ByteMemory

/-! ### The return frame -/

section Frame

variable {m : Board} {k : Nat} {ip cs flags : BitVec 16}

@[simp] theorem length_returnFrame : (returnFrame ip cs flags).length = 6 := rfl

theorem returnFrame_eq :
    returnFrame ip cs flags = toLE 2 ip.toNat ++ (toLE 2 cs.toNat ++ toLE 2 flags.toNat) := by
  simp [returnFrame, wordBytes_cons]

/-- Reading a half word of a frame in memory back. -/
theorem load_frame {M : Mem} {p : BitVec 32} {words : List Nat} {rest : List Byte} {n i : Nat}
    (hmem : load M p n = wordBytes 2 words ++ rest) (hi : i < words.length) :
    load M (p + BitVec.ofNat 32 (2 * i)) 2 = toLE 2 words[i] := by
  have hn : n = 2 * words.length + rest.length := by
    have hlen := congrArg List.length hmem
    rwa [length_load, List.length_append, length_wordBytes] at hlen
  have hslice := slice_load M p (by omega : 2 * i + 2 ≤ n)
  rw [hmem, slice_wordBytes hi] at hslice
  exact hslice.symm

theorem ofNat_ofLE_half (v : BitVec 16) : BitVec.ofNat 16 (ofLE (toLE 2 v.toNat)) = v :=
  ofNat_ofLE_toLE 2 v

theorem ofNat_ofLE_half_wide (v : BitVec 16) :
    BitVec.ofNat 32 (ofLE (toLE 2 v.toNat)) = v.setWidth 32 := by
  rw [ofLE_toLE_of_lt v.isLt]
  apply BitVec.eq_of_toNat_eq
  simp

/-- IRET takes the frame off the stack. -/
theorem iret_apply (hesp : m.cpu.esp = BitVec.ofNat 32 k) (hk : k + 6 < 2 ^ 16)
    (hmem : load m.fw.mem (m.cpu.stackBase .real + BitVec.ofNat 32 k) 6 =
      returnFrame ip cs flags) :
    iret m = .ok () { m with cpu := { m.cpu with
      esp := BitVec.ofNat 32 (k + 6)
      eip := ip.setWidth 32
      cs := cs
      eflags := withLowHalf m.cpu.eflags flags } } := by
  have hwords : load m.fw.mem (m.cpu.stackBase .real + BitVec.ofNat 32 k) 6 =
      wordBytes 2 [ip.toNat, cs.toNat, flags.toNat] ++ [] := by
    rw [hmem, List.append_nil, returnFrame]
  have hip := load_frame hwords (show 0 < 3 by omega)
  have hcs := load_frame hwords (show 1 < 3 by omega)
  have hflags := load_frame hwords (show 2 < 3 by omega)
  rw [BitVec.add_assoc, ← BitVec.ofNat_add] at hip hcs hflags
  have hpop := @pop_apply .real m k 2 hesp (show k + 2 < 2 ^ 16 by omega)
  have hpop' := @pop_apply .real { m with cpu := { m.cpu with esp := BitVec.ofNat 32 (k + 2) } }
    (k + 2) 2 rfl (show k + 2 + 2 < 2 ^ 16 by omega)
  have hpop'' := @pop_apply .real { m with cpu := { m.cpu with esp := BitVec.ofNat 32 (k + 4) } }
    (k + 4) 2 rfl (show k + 4 + 2 < 2 ^ 16 by omega)
  rw [iret, StateRun.bind_of_ok hpop, StateRun.bind_of_ok hpop', StateRun.bind_of_ok hpop'',
    StateRun.modify_apply]
  have hbase (e : BitVec 32) : { m.cpu with esp := e }.stackBase .real = m.cpu.stackBase .real :=
    rfl
  simp only [hbase, hip, hcs, hflags, Nat.mul_zero, Nat.add_zero, Nat.mul_one,
    show 2 * 2 = 4 from rfl, List.getElem_cons_zero, List.getElem_cons_succ,
    ofNat_ofLE_half, ofNat_ofLE_half_wide] at hip hcs hflags ⊢

/-- A change of the byte in which the saved flags start. -/
theorem updateSavedFlags_stacked {f : Byte → Byte} {flags' : BitVec 16}
    (hlow : f (flags.setWidth 8) = flags'.setWidth 8)
    (hhigh : (flags >>> 8).setWidth 8 = (flags' >>> 8).setWidth 8) :
    updateSavedFlags f (m.stacked .real k (returnFrame ip cs flags)) =
      .ok () (m.stacked .real k (returnFrame ip cs flags')) := by
  have haddr : m.cpu.stackBase .real + (BitVec.ofNat 32 k + 4#32) =
      m.cpu.stackBase .real + BitVec.ofNat 32 k + BitVec.ofNat 32 4 := by
    rw [BitVec.add_assoc]
  have hread := @load_withBlock m.fw (m.cpu.stackBase .real + BitVec.ofNat 32 k)
    (returnFrame ip cs flags) 4 1 (by rw [length_returnFrame]; omega)
    (by rw [length_returnFrame]; omega)
  have hslice : slice (returnFrame ip cs flags) 4 1 = [flags.setWidth 8] := by
    rw [returnFrame_eq, toLE_flags]
    rfl
  have hbyte : (m.fw.withBlock (m.cpu.stackBase .real + BitVec.ofNat 32 k)
      (returnFrame ip cs flags)).mem
        (m.cpu.stackBase .real + BitVec.ofNat 32 k + BitVec.ofNat 32 4) = flags.setWidth 8 := by
    rw [hslice] at hread
    simpa [load] using hread
  have hpatch : patch (returnFrame ip cs flags) 4 [f (flags.setWidth 8)] =
      returnFrame ip cs flags' := by
    rw [returnFrame_eq, returnFrame_eq, toLE_flags flags, toLE_flags flags', hlow, hhigh]
    rfl
  have hstore := @store_store_inside _ m.fw.mem (m.cpu.stackBase .real + BitVec.ofNat 32 k)
    (returnFrame ip cs flags) [f (flags.setWidth 8)] 4
    (by rw [length_returnFrame, List.length_singleton]; omega)
    (by rw [length_returnFrame]; omega)
  rw [hpatch] at hstore
  rw [updateSavedFlags, StateRun.modify_apply]
  have hbase : (m.stacked .real k (returnFrame ip cs flags)).cpu.stackBase .real =
      m.cpu.stackBase .real := rfl
  have hesp : (m.stacked .real k (returnFrame ip cs flags)).cpu.esp = BitVec.ofNat 32 k := rfl
  have hfw : (m.stacked .real k (returnFrame ip cs flags)).fw =
      m.fw.withBlock (m.cpu.stackBase .real + BitVec.ofNat 32 k) (returnFrame ip cs flags) := rfl
  simp only [hbase, hesp, hfw, haddr, hbyte]
  simp only [Board.stacked, Firmware.withBlock, hstore]

end Frame

/-- `bios_irq` acknowledges the interrupt and changes no register. -/
theorem biosIrq_apply {m : Board} {k : Nat} {ip cs flags : BitVec 16} (hk : k + 8 < 2 ^ 16) :
    biosIrq (m.stacked .real (k + 2) (returnFrame ip cs flags)) =
      .ok ()
        { cpu := { m.cpu with
            esp := BitVec.ofNat 32 (k + 8)
            eip := ip.setWidth 32
            cs := cs
            eflags := withLowHalf m.cpu.eflags flags }
          fw := m.fw.withBlock (m.cpu.stackBase .real + BitVec.ofNat 32 k)
            (toLE 2 (m.cpu.eax.setWidth 16).toNat ++ returnFrame ip cs flags)
          ports := m.ports ++ [(0x20#16, 0x20#8)] } := by
  let ax : List Byte := toLE 2 (m.cpu.eax.setWidth 16).toNat
  let bs : List Byte := ax ++ returnFrame ip cs flags
  let base : BitVec 32 := m.cpu.stackBase .real
  have hbs : bs.length = 8 := rfl
  have hpush : push .real ax (m.stacked .real (k + 2) (returnFrame ip cs flags)) =
      .ok () (m.stacked .real k bs) :=
    @push_stacked .real m k (returnFrame ip cs flags) ax (show k + (2 + 6) < 2 ^ 16 by omega)
  have hload := @load_store 32 m.fw.mem (base + BitVec.ofNat 32 k) bs (by rw [hbs]; decide)
  rw [hbs] at hload
  have hax : load (store m.fw.mem (base + BitVec.ofNat 32 k) bs) (base + BitVec.ofNat 32 k) 2 =
      ax := by
    have h := slice_load (store m.fw.mem (base + BitVec.ofNat 32 k) bs)
      (base + BitVec.ofNat 32 k) (show 0 + 2 ≤ 8 by decide)
    rw [hload, BitVec.add_zero] at h
    exact h.symm
  have hframe : load (store m.fw.mem (base + BitVec.ofNat 32 k) bs)
      (base + BitVec.ofNat 32 (k + 2)) 6 = returnFrame ip cs flags := by
    have h := slice_load (store m.fw.mem (base + BitVec.ofNat 32 k) bs)
      (base + BitVec.ofNat 32 k) (show 2 + 6 ≤ 8 by decide)
    rw [hload, BitVec.add_assoc, ← BitVec.ofNat_add] at h
    exact h.symm
  let inside : Board := { m.stacked .real k bs with
    cpu := { m.cpu with
      esp := BitVec.ofNat 32 k
      eax := m.cpu.eax &&& 0xffffff00#32 ||| 0x20#32 }
    ports := m.ports ++ [(0x20#16, 0x20#8)] }
  have hpop := @pop_apply .real inside k 2 rfl (show k + 2 < 2 ^ 16 by omega)
  rw [show load inside.fw.mem (inside.cpu.stackBase .real + BitVec.ofNat 32 k) 2 = ax from hax]
    at hpop
  have heax : withLowHalf (m.cpu.eax &&& 0xffffff00#32 ||| 0x20#32) (BitVec.ofNat 16 (ofLE ax)) =
      m.cpu.eax := by
    rw [ofNat_ofLE_half]
    apply withLowHalf_eq
    intro i hlo hi
    have hmask : (0xffffff00#32).getLsbD i = true := by
      interval_cases i <;> rfl
    have hcommand : (0x20#32).getLsbD i = false := by
      interval_cases i <;> rfl
    rw [BitVec.getLsbD_or, BitVec.getLsbD_and, hmask, hcommand, Bool.and_true, Bool.or_false]
  have hiret := @iret_apply
    { inside with cpu := { inside.cpu with esp := BitVec.ofNat 32 (k + 2), eax := m.cpu.eax } }
    (k + 2) ip cs flags rfl (by omega) hframe
  rw [biosIrq, StateRun.bind_of_ok (StateRun.get_apply _)]
  refine (StateRun.bind_of_ok hpush).trans ((StateRun.bind_of_ok (StateRun.modify_apply _ _)).trans
    ((StateRun.bind_of_ok (StateRun.modify_apply _ _)).trans ((StateRun.bind_of_ok hpop).trans
      ((StateRun.bind_of_ok (StateRun.modify_apply _ _)).trans ?_))))
  refine Eq.trans ?_ hiret
  exact congrArg (fun eax => iret { inside with
    cpu := { inside.cpu with esp := BitVec.ofNat 32 (k + 2), eax := eax } }) heax

/-! ### From the INT instruction to the handler -/

/-- The four bytes of a vector. -/
def vectorBytes (p : BitVec 32) : List Byte :=
  toLE 2 (flatToOff16 p).toNat ++ toLE 2 (flatToSeg16 p).toNat

/-- Where INT finds vector `vec`. -/
def vectorAt (vec : BitVec 8) : BitVec 32 := BitVec.ofNat 32 (4 * vec.toNat)

/-- The registers with which the code at `p` starts, apart from ESP. -/
def Cpu.calling (c : Cpu) (p : BitVec 32) : Cpu :=
  { c with
    cs := flatToSeg16 p
    eip := (flatToOff16 p).setWidth 32
    eflags := c.eflags &&& 0xfffffcff#32 }

/-- What INT leaves on the stack. -/
def Cpu.frame (c : Cpu) : List Byte := returnFrame (c.eip.setWidth 16) c.cs (c.eflags.setWidth 16)

/-- Code below one megabyte can be reached through a vector. -/
theorem segmentAddress_flat {p : BitVec 32} (hp : p.toNat < 0x100000) :
    segmentAddress (flatToSeg16 p) ((flatToOff16 p).setWidth 32) = p := by
  have hmask (i : Nat) (hi : i < 32) :
      (0xf000#32).getLsbD i = decide (12 ≤ i ∧ i < 16) := by
    interval_cases i <;> rfl
  have hseg : (flatToSeg16 p).toNat = p.toNat / 0x10000 * 0x1000 := by
    have hand : (p >>> 4) &&& 0xf000#32 = (p >>> 16) <<< 12 := by
      apply BitVec.eq_of_getLsbD_eq
      intro i hi
      rw [BitVec.getLsbD_and, hmask i hi, BitVec.getLsbD_ushiftRight, BitVec.getLsbD_shiftLeft,
        BitVec.getLsbD_ushiftRight]
      by_cases hlo : i < 12
      · simp [hlo, show ¬ 12 ≤ i by omega]
      · have hidx : 16 + (i - 12) = 4 + i := by omega
        by_cases hhi : i < 16
        · simp [hlo, hhi, hi, hidx, show 12 ≤ i by omega]
        · have hbit : p.getLsbD (4 + i) = false := by
            have hpow : 2 ^ 20 ≤ 2 ^ (4 + i) := Nat.pow_le_pow_right (by decide) (by omega)
            rw [BitVec.getLsbD, Nat.testBit_lt_two_pow (by omega)]
          simp [hlo, hhi, hi, hidx, hbit]
    rw [flatToSeg16, hand, BitVec.toNat_setWidth, BitVec.toNat_shiftLeft, BitVec.toNat_ushiftRight,
      Nat.shiftLeft_eq, Nat.shiftRight_eq_div_pow]
    omega
  have hoff : (flatToOff16 p).toNat = p.toNat % 0x10000 := by
    rw [flatToOff16, BitVec.toNat_setWidth, BitVec.toNat_and]
    have hones : (65535#32).toNat = 2 ^ 16 - 1 := rfl
    rw [hones, Nat.and_two_pow_sub_one_eq_mod]
    omega
  apply BitVec.eq_of_toNat_eq
  rw [segmentAddress, BitVec.toNat_add, BitVec.toNat_shiftLeft, BitVec.toNat_setWidth,
    BitVec.toNat_setWidth, hseg, hoff, Nat.shiftLeft_eq]
  omega

theorem interrupt_apply {labels : Labels} {scratch : List Byte} {vec : BitVec 8} {m : Board}
    {p : BitVec 32} {k : Nat} (hesp : m.cpu.esp = BitVec.ofNat 32 (k + 6)) (hk : k + 6 < 2 ^ 16)
    (hp : p.toNat < 0x100000) (hvector : load m.fw.mem (vectorAt vec) 4 = vectorBytes p)
    (happ : Apart (vectorAt vec) 4 (m.cpu.stackBase .real + BitVec.ofNat 32 k) 6) :
    interrupt labels scratch vec m = firmwareCode labels scratch p
      ({ m with cpu := m.cpu.calling p }.stacked .real k m.cpu.frame) := by
  let flags : List Byte := toLE 2 (m.cpu.eflags.setWidth 16).toNat
  let cs : List Byte := toLE 2 m.cpu.cs.toNat
  let ip : List Byte := toLE 2 (m.cpu.eip.setWidth 16).toNat
  have hpush : push .real flags m = .ok () (m.stacked .real (k + 4) flags) := by
    have h := @push_stacked .real m (k + 4) [] flags (by
      change k + 4 + (2 + 0) < 2 ^ 16
      omega)
    rw [show k + 4 + flags.length = k + 6 from rfl, ← eq_stacked_nil hesp, List.append_nil] at h
    exact h
  have hpush' : push .real cs (m.stacked .real (k + 4) flags) =
      .ok () (m.stacked .real (k + 2) (cs ++ flags)) :=
    @push_stacked .real m (k + 2) flags cs (by
      change k + 2 + (2 + 2) < 2 ^ 16
      omega)
  have hpush'' : push .real ip (m.stacked .real (k + 2) (cs ++ flags)) =
      .ok () (m.stacked .real k (ip ++ (cs ++ flags))) :=
    @push_stacked .real m k (cs ++ flags) ip (by
      change k + (2 + 4) < 2 ^ 16
      omega)
  have hframe : ip ++ (cs ++ flags) = m.cpu.frame := returnFrame_eq.symm
  have hkept : load (m.stacked .real k m.cpu.frame).fw.mem (vectorAt vec) 4 = vectorBytes p := by
    rw [← hvector]
    exact load_store_outside m.fw.mem (by decide) happ
  have hwords : vectorBytes p =
      wordBytes 2 [(flatToOff16 p).toNat, (flatToSeg16 p).toNat] ++ [] := by
    simp [vectorBytes, wordBytes_cons]
  have hoff := load_frame (hkept.trans hwords) (show 0 < 2 by omega)
  have hseg := load_frame (hkept.trans hwords) (show 1 < 2 by omega)
  simp only [Nat.mul_zero, BitVec.add_zero, List.getElem_cons_zero] at hoff
  simp only [Nat.mul_one, List.getElem_cons_succ, List.getElem_cons_zero] at hseg
  rw [hframe] at hpush''
  rw [interrupt, StateRun.bind_of_ok (StateRun.get_apply m), StateRun.bind_of_ok hpush]
  refine (StateRun.bind_of_ok hpush').trans ((StateRun.bind_of_ok hpush'').trans ?_)
  refine (StateRun.bind_of_ok (StateRun.get_apply _)).trans
    ((StateRun.bind_of_ok (StateRun.modify_apply _ _)).trans ?_)
  have hoffset : BitVec.ofNat 16 (loadLE (m.stacked .real k m.cpu.frame).fw.mem
      (BitVec.ofNat 32 (4 * vec.toNat)) 2) = flatToOff16 p := by
    rw [loadLE, ← vectorAt, hoff, ofNat_ofLE_half]
  have hsegment : BitVec.ofNat 16 (loadLE (m.stacked .real k m.cpu.frame).fw.mem
      (BitVec.ofNat 32 (4 * vec.toNat) + 2#32) 2) = flatToSeg16 p := by
    rw [loadLE, ← vectorAt]
    exact (congrArg (fun bs => BitVec.ofNat 16 (ofLE bs)) hseg).trans (ofNat_ofLE_half _)
  rw [hoffset, hsegment, segmentAddress_flat hp]
  rfl

/-! ### C functions as handlers -/

/-- `struct biosregs` in memory. -/
def SavedRegs.biosregs (f : SavedRegs) (ip cs flags : BitVec 16) : List Byte :=
  wordBytes 4 f.words ++ returnFrame ip cs flags

@[simp] theorem length_biosregs (f : SavedRegs) (ip cs flags : BitVec 16) :
    (f.biosregs ip cs flags).length = 50 := by
  rw [SavedRegs.biosregs, List.length_append, length_wordBytes, length_returnFrame]
  rfl

theorem mask_carry (flags : BitVec 16) :
    flags.setWidth 8 &&& 0xfe#8 = (flags &&& 0xfffe#16).setWidth 8 := by
  rw [BitVec.setWidth_and]
  rfl

theorem mask_carry_high (flags : BitVec 16) :
    (flags >>> 8).setWidth 8 = ((flags &&& 0xfffe#16) >>> 8).setWidth 8 := by
  rw [BitVec.ushiftRight_and_distrib, BitVec.setWidth_and]
  have hones : (0xfffe#16 >>> 8).setWidth 8 = BitVec.allOnes 8 := rfl
  rw [hones, BitVec.and_allOnes]

/-- The machine when a C handler starts: the saved registers are at offset `k`
and the frames of the C functions right below them. -/
def Board.inHandler (m : Board) (k : Nat) (scratch : List Byte) (s : Firmware)
    (regs : List Byte) : Board :=
  { m with
    cpu := { m.cpu with eax := BitVec.ofNat 32 k, esp := BitVec.ofNat 32 k }
    fw := (s.withBlock (m.cpu.stackBase .real + BitVec.ofNat 32 (k - scratch.length))
      scratch).withBlock (m.cpu.stackBase .real + BitVec.ofNat 32 k) regs }

section Handler

variable {m : Board} {k : Nat} {scratch : List Byte}
  {handler : BitVec 16 → BitVec 32 → Asm Unit} {ip cs flags flags' : BitVec 16}

theorem callHandler_stacked {regs : List Byte} (hscratch : scratch.length ≤ k)
    (hk : k + regs.length < 2 ^ 16) :
    callHandler scratch handler (m.stacked .real k regs) =
      handler m.cpu.ds (BitVec.ofNat 32 k) (m.inHandler k scratch m.fw regs) := by
  let base : BitVec 32 := m.cpu.stackBase .real
  have hplace : base + BitVec.ofNat 32 k - BitVec.ofNat 32 scratch.length =
      base + BitVec.ofNat 32 (k - scratch.length) := by
    have hsplit : BitVec.ofNat 32 k =
        BitVec.ofNat 32 (k - scratch.length) + BitVec.ofNat 32 scratch.length := by
      rw [← BitVec.ofNat_add, Nat.sub_add_cancel hscratch]
    rw [hsplit]
    ring
  have happ : Apart (base + BitVec.ofNat 32 (k - scratch.length)) scratch.length
      (base + BitVec.ofNat 32 k) regs.length :=
    apart_parts base (by omega) (by omega) (by omega)
  have haddr : (m.stacked .real k regs).cpu.stackAddress .real = base + BitVec.ofNat 32 k :=
    congrArg (base + ·) (stackOffset_ofNat .real m.cpu (show k < 2 ^ 16 by omega))
  have hmem : (m.stacked .real k regs).fw.withBlock
      ((m.stacked .real k regs).cpu.stackAddress .real - BitVec.ofNat 32 scratch.length) scratch =
      (m.fw.withBlock (base + BitVec.ofNat 32 (k - scratch.length)) scratch).withBlock
        (base + BitVec.ofNat 32 k) regs := by
    rw [haddr, hplace]
    exact congrArg (fun mem => { m.fw with mem := mem }) (store_comm m.fw.mem happ).symm
  rw [callHandler, StateRun.bind_of_ok (StateRun.modify_apply _ _), hmem]
  rfl

/-- A handler that is given the saved registers, and leaves others in their
place, passes them to the caller. -/
theorem biosInt_apply {f : SavedRegs} {s : Firmware} {ports : List (BitVec 16 × Byte)}
    (hscratch : scratch.length ≤ k) (hk : k + 50 < 2 ^ 16)
    (hf : f.esp = BitVec.ofNat 32 (k + 20))
    (hrun : handler m.cpu.ds (BitVec.ofNat 32 k)
        (m.inHandler k scratch m.fw ((m.cpu.saved k).biosregs ip cs (flags &&& 0xfffe#16))) =
      .ok () { m.inHandler k scratch s (f.biosregs ip cs flags') with ports := ports }) :
    biosInt scratch handler (m.stacked .real (k + 44) (returnFrame ip cs flags)) =
      .ok ()
        { m.inHandler k scratch s (f.biosregs ip cs flags') with
          cpu := { m.cpu.restored f with
            esp := BitVec.ofNat 32 (k + 50)
            eip := ip.setWidth 32
            cs := cs
            eflags := withLowHalf m.cpu.eflags flags' }
          ports := ports } := by
  let base : BitVec 32 := m.cpu.stackBase .real
  have hclear := @updateSavedFlags_stacked m (k + 44) ip cs flags (fun b => b &&& 0xfe#8)
    (flags &&& 0xfffe#16) (mask_carry flags) (mask_carry_high flags)
  have hsave := @saveBiosregs_stacked .real m k (returnFrame ip cs (flags &&& 0xfffe#16)) (by
    rw [length_returnFrame]
    exact hk)
  have hcall := @callHandler_stacked m k scratch handler
    ((m.cpu.saved k).biosregs ip cs (flags &&& 0xfffe#16)) hscratch (by
      rw [length_biosregs]
      exact hk)
  let final : Board := { m.inHandler k scratch s (f.biosregs ip cs flags') with ports := ports }
  have hload : load final.fw.mem (base + BitVec.ofNat 32 k) 50 = f.biosregs ip cs flags' := by
    have h := @load_store 32 (s.withBlock (base + BitVec.ofNat 32 (k - scratch.length)) scratch).mem
      (base + BitVec.ofNat 32 k) (f.biosregs ip cs flags') (by
        rw [length_biosregs]
        decide)
    rwa [length_biosregs] at h
  have hrestore := @restoreBiosregs_apply .real final k 50 f (returnFrame ip cs flags') rfl hload
    hf (show k + 44 < 2 ^ 16 by omega)
  have hframe : load final.fw.mem (base + BitVec.ofNat 32 (k + 44)) 6 =
      returnFrame ip cs flags' := by
    have h := slice_load final.fw.mem (base + BitVec.ofNat 32 k) (show 44 + 6 ≤ 50 by omega)
    rw [hload, BitVec.add_assoc, ← BitVec.ofNat_add] at h
    rw [← h]
    exact slice_append_right (wordBytes 4 f.words) (returnFrame ip cs flags')
  have hiret := @iret_apply
    { final with cpu := { final.cpu.restored f with esp := BitVec.ofNat 32 (k + 44) } }
    (k + 44) ip cs flags' rfl (by omega) hframe
  rw [biosInt, StateRun.bind_of_ok hclear, StateRun.bind_of_ok hsave]
  refine (StateRun.bind_of_ok (hcall.trans hrun)).trans ?_
  exact (StateRun.bind_of_ok hrestore).trans hiret

end Handler

end Qboot
