import Qboot.Bios.Entry
import Qboot.Main

/-!
Interrupts in real mode: what the INT instruction leaves on the stack, the
entry points of entry.S that it reaches through the vector table, and how they
return to the caller. The saved flags are where a handler says that it failed.
-/

namespace Qboot

open Bytes ByteMemory

/-! ### Half registers -/

/-- The low half of a register is loaded, as IRET in 16-bit code does with
EFLAGS. -/
def withLowHalf (v : BitVec 32) (low : BitVec 16) : BitVec 32 :=
  (v &&& 0xffff0000#32) ||| low.setWidth 32

theorem getLsbD_withLowHalf (v : BitVec 32) (low : BitVec 16) {i : Nat} (hi : i < 32) :
    (withLowHalf v low).getLsbD i = if i < 16 then low.getLsbD i else v.getLsbD i := by
  have hmask : (0xffff0000#32).getLsbD i = decide (16 ≤ i) := by
    interval_cases i <;> rfl
  rw [withLowHalf, BitVec.getLsbD_or, BitVec.getLsbD_and, hmask, BitVec.getLsbD_setWidth]
  by_cases hlow : i < 16
  · simp [hlow, hi]
  · have hout : low.getLsbD i = false := BitVec.getLsbD_of_ge _ _ (by omega)
    simp only [hlow, hout, if_false, Bool.and_false, Bool.or_false]
    rw [decide_eq_true (by omega), Bool.and_true]

/-- Only the low half has changed if the other bits are the same. -/
theorem withLowHalf_eq {v v' : BitVec 32}
    (h : ∀ i, 16 ≤ i → i < 32 → v'.getLsbD i = v.getLsbD i) :
    withLowHalf v (v'.setWidth 16) = v' := by
  apply BitVec.eq_of_getLsbD_eq
  intro i hi
  rw [getLsbD_withLowHalf _ _ hi]
  by_cases hlow : i < 16
  · rw [if_pos hlow, BitVec.getLsbD_setWidth]
    simp [hlow]
  · rw [if_neg hlow, h i (by omega) hi]

/-- INT clears IF and TF, and IRET loads them back. -/
theorem withLowHalf_masked (eflags : BitVec 32) (flags : BitVec 16) :
    withLowHalf (eflags &&& 0xfffffcff#32) flags = withLowHalf eflags flags := by
  have hmask : 0xfffffcff#32 &&& 0xffff0000#32 = 0xffff0000#32 := rfl
  rw [withLowHalf, withLowHalf, BitVec.and_assoc, hmask]

theorem toLE_flags (flags : BitVec 16) :
    toLE 2 flags.toNat = [flags.setWidth 8, (flags >>> 8).setWidth 8] := by
  have hlow : BitVec.ofNat 8 flags.toNat = flags.setWidth 8 := by
    apply BitVec.eq_of_toNat_eq
    simp
  have hhigh : BitVec.ofNat 8 (flags.toNat / 256) = (flags >>> 8).setWidth 8 := by
    apply BitVec.eq_of_toNat_eq
    simp [Nat.shiftRight_eq_div_pow]
  simp only [toLE, hlow, hhigh]

/-! ### Entry points -/

/-- What INT pushes: IP, CS and the flags. -/
def returnFrame (ip cs flags : BitVec 16) : List Byte :=
  wordBytes 2 [ip.toNat, cs.toNat, flags.toNat]

/-- A change of the byte `0x4(%esp)`, in which the saved flags start. -/
def updateSavedFlags (f : Byte → Byte) : Asm Unit := modify fun m =>
  let p := m.cpu.stackBase .real + (m.cpu.esp + 4#32)
  { m with fw := m.fw.withBlock p [f (m.fw.mem p)] }

def iret : Asm Unit := do
  let ip ← pop .real 2
  let cs ← pop .real 2
  let flags ← pop .real 2
  modify fun m => { m with cpu := { m.cpu with
    eip := BitVec.ofNat 32 (ofLE ip)
    cs := BitVec.ofNat 16 (ofLE cs)
    eflags := withLowHalf m.cpu.eflags (BitVec.ofNat 16 (ofLE flags)) } }

def biosIntfake : Asm Unit := do
  updateSavedFlags fun b => b ||| 1#8
  iret

def biosIrq : Asm Unit := do
  let m ← get
  push .real (toLE 2 (m.cpu.eax.setWidth 16).toNat)
  modify fun m => { m with cpu := { m.cpu with eax := m.cpu.eax &&& 0xffffff00#32 ||| 0x20#32 } }
  outb 0x20#16 0x20#8
  let ax ← pop .real 2
  modify fun m => { m with cpu := { m.cpu with
    eax := withLowHalf m.cpu.eax (BitVec.ofNat 16 (ofLE ax)) } }
  iret

/-- `call` of a C function with the stack pointer as its argument. The function
leaves any bytes below its frame. -/
def callHandler (scratch : List Byte) (handler : BitVec 16 → BitVec 32 → Asm Unit) : Asm Unit := do
  modify fun m => { m with
    cpu := { m.cpu with eax := m.cpu.esp }
    fw := m.fw.withBlock (m.cpu.stackAddress .real - BitVec.ofNat 32 scratch.length) scratch }
  let m ← get
  handler m.cpu.ds m.cpu.eax

/-- `bios_int10` and `bios_int15`. -/
def biosInt (scratch : List Byte) (handler : BitVec 16 → BitVec 32 → Asm Unit) : Asm Unit := do
  updateSavedFlags fun b => b &&& 0xfe#8
  saveBiosregs .real
  callHandler scratch handler
  restoreBiosregs .real
  iret

/-! ### The C handlers, on the saved registers in memory -/

def VBE_STATUS_FAIL : BitVec 32 := 0x014f#32

/-- `int10_handler`; the data segment is the caller's. -/
def int10HandlerAt (ds : BitVec 16) (args : BitVec 32) : Asm Unit := do
  let eax ← callFw (ldlP (segmentAddress ds args))
  let ah := (eax &&& 0xff00#32) >>> 8
  if ah = 0x0e#32 then outb 0x3f8#16 (eax.setWidth 8)
  else if ah = 0x4f#32 then callFw (stlP (segmentAddress ds args) VBE_STATUS_FAIL)
  else pure ()

def e820QueryMapAt (ds : BitVec 16) (regs : BitVec 32) : Fw Unit := do
  let s ← get
  let fs := s.e820Seg
  let ndx ← ldlP (segmentAddress ds (regs + 4#32))
  let mapSize ← rdfs32 fs 0#32
  if ndx < mapSize then do
    let edi ← ldlP (segmentAddress ds (regs + 28#32))
    copyEntry fs ds (4#32 + BitVec.ofNat 32 e820EntryBytes * ndx) edi e820EntryBytes
  stlP (segmentAddress ds regs) SMAP
  stlP (segmentAddress ds (regs + 8#32)) (BitVec.ofNat 32 e820EntryBytes)
  stlP (segmentAddress ds (regs + 4#32)) (ndx + 1#32)
  if ndx + 1#32 ≥ mapSize then
    stlP (segmentAddress ds (regs + 4#32)) 0#32

/-- `int15_handler` -/
def int15HandlerAt (ds : BitVec 16) (regs : BitVec 32) : Fw Unit := do
  let eax ← ldlP (segmentAddress ds regs)
  if eax = 0xe820#32 then e820QueryMapAt ds regs
  else do
    let eflags ← lduwP (segmentAddress ds (regs + 48#32))
    stwP (segmentAddress ds (regs + 48#32)) ((eflags ||| X86_EFLAGS_CF).setWidth 32)

/-! ### The vector table -/

/-- The code of the firmware that a vector may name. -/
def firmwareCode (labels : Labels) (scratch : List Byte) (address : BitVec 32) : Asm Unit :=
  if address = labels.biosIntfake then biosIntfake
  else if address = labels.biosIrq then biosIrq
  else if address = labels.biosInt10 then biosInt scratch int10HandlerAt
  else if address = labels.biosInt15 then
    biosInt scratch fun ds regs => callFw (int15HandlerAt ds regs)
  else throw (.foreign address)

/-- `INT vec`, up to the return to the instruction behind it. -/
def interrupt (labels : Labels) (scratch : List Byte) (vec : BitVec 8) : Asm Unit := do
  let m ← get
  push .real (toLE 2 (m.cpu.eflags.setWidth 16).toNat)
  push .real (toLE 2 m.cpu.cs.toNat)
  push .real (toLE 2 (m.cpu.eip.setWidth 16).toNat)
  let vector := BitVec.ofNat 32 (4 * vec.toNat)
  let m ← get
  let off := BitVec.ofNat 16 (loadLE m.fw.mem vector 2)
  let seg := BitVec.ofNat 16 (loadLE m.fw.mem (vector + 2#32) 2)
  modify fun m => { m with cpu := { m.cpu with
    cs := seg, eip := off.setWidth 32, eflags := m.cpu.eflags &&& 0xfffffcff#32 } }
  firmwareCode labels scratch (segmentAddress seg (off.setWidth 32))

end Qboot
