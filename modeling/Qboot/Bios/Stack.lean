import Qboot.Int15
import Qboot.Lib.Words

/-!
The processor as the assembler code of entry.S sees it. Real-mode code uses 16
bits of ESP as an offset in the stack segment, flat code all of ESP. As long
as the offset does not pass the end of the segment, pushes build one block of
bytes that starts at the stack pointer, and pops read it back.
-/

namespace Qboot

open Bytes ByteMemory

structure Cpu where
  eax : BitVec 32
  ebx : BitVec 32
  ecx : BitVec 32
  edx : BitVec 32
  esp : BitVec 32
  ebp : BitVec 32
  esi : BitVec 32
  edi : BitVec 32
  ds : BitVec 16
  es : BitVec 16
  fs : BitVec 16
  gs : BitVec 16
  ss : BitVec 16
  cs : BitVec 16
  eip : BitVec 32
  eflags : BitVec 32
deriving DecidableEq

/-- The processor, the machine of the firmware, and the bytes written to I/O
ports, the latest one last. -/
structure Board where
  cpu : Cpu
  fw : Firmware
  ports : List (BitVec 16 × Byte)

/-- Why a call into the firmware does not come back. -/
inductive BoardStop where
  /-- A jump to code that is not the firmware's. -/
  | foreign (address : BitVec 32)
  | fw (stop : Stop)
deriving DecidableEq

abbrev Asm (α : Type) := EStateM BoardStop Board α

/-- C code that sees no registers and no ports. -/
def callFw {α : Type} (x : Fw α) : Asm α := fun m =>
  match x m.fw with
  | .ok a s => .ok a { m with fw := s }
  | .error stop s => .error (.fw stop) { m with fw := s }

theorem callFw_ok {α : Type} {x : Fw α} {m : Board} {a : α} {s : Firmware}
    (h : x m.fw = .ok a s) : callFw x m = .ok a { m with fw := s } := by
  rw [callFw, h]

/-- `out %al, port` -/
def outb (port : BitVec 16) (val : Byte) : Asm Unit :=
  modify fun m => { m with ports := m.ports ++ [(port, val)] }

/-! ### The stack -/

/-- How ESP addresses the stack; flat code may run with any base. -/
inductive StackMode where
  | real
  | flat (base : BitVec 32)

/-- The first offset behind the stack segment. -/
def StackMode.limit : StackMode → Nat
  | .real => 2 ^ 16
  | .flat _ => 2 ^ 32

/-- Where the stack segment starts. -/
def Cpu.stackBase (c : Cpu) : StackMode → BitVec 32
  | .real => segmentAddress c.ss 0#32
  | .flat base => base

def Cpu.stackOffset (c : Cpu) : StackMode → BitVec 32
  | .real => (c.esp.setWidth 16).setWidth 32
  | .flat _ => c.esp

/-- The registers after `by` is added to the stack pointer. -/
def Cpu.moveStack (c : Cpu) (by_ : BitVec 32) : StackMode → Cpu
  | .real => { c with
      esp := (c.esp &&& 0xffff0000#32) ||| ((c.esp + by_).setWidth 16).setWidth 32 }
  | .flat _ => { c with esp := c.esp + by_ }

def Cpu.stackAddress (c : Cpu) (mode : StackMode) : BitVec 32 :=
  c.stackBase mode + c.stackOffset mode

def push (mode : StackMode) (bs : List Byte) : Asm Unit := modify fun m =>
  let cpu := m.cpu.moveStack (-BitVec.ofNat 32 bs.length) mode
  { m with cpu := cpu, fw := m.fw.withBlock (cpu.stackAddress mode) bs }

def pop (mode : StackMode) (n : Nat) : Asm (List Byte) := modifyGet fun m =>
  (load m.fw.mem (m.cpu.stackAddress mode) n,
    { m with cpu := m.cpu.moveStack (BitVec.ofNat 32 n) mode })

/-- The machine with `bs` on its stack, which then starts at offset `k`. -/
def Board.stacked (m : Board) (mode : StackMode) (k : Nat) (bs : List Byte) : Board :=
  { m with
    cpu := { m.cpu with esp := BitVec.ofNat 32 k }
    fw := m.fw.withBlock (m.cpu.stackBase mode + BitVec.ofNat 32 k) bs }

section Offset

variable (mode : StackMode) {k n : Nat}

theorem limit_le : mode.limit ≤ 2 ^ 32 := by
  cases mode with
  | real => exact Nat.pow_le_pow_right (by decide) (by decide)
  | flat base => exact le_rfl

theorem stackOffset_ofNat (c : Cpu) (hk : k < mode.limit) :
    { c with esp := BitVec.ofNat 32 k }.stackOffset mode = BitVec.ofNat 32 k := by
  cases mode with
  | flat base => rfl
  | real =>
    change k < 2 ^ 16 at hk
    apply BitVec.eq_of_toNat_eq
    simp only [Cpu.stackOffset, BitVec.toNat_setWidth, BitVec.toNat_ofNat]
    omega

/-- The high half of ESP is zero and stays zero. -/
theorem high_half_or (v : BitVec 32) (hk : k < 2 ^ 16) :
    (BitVec.ofNat 32 k &&& 0xffff0000#32) ||| (v.setWidth 16).setWidth 32 =
      (v.setWidth 16).setWidth 32 := by
  have hzero : BitVec.ofNat 32 k &&& 0xffff0000#32 = 0#32 := by
    apply BitVec.eq_of_getLsbD_eq
    intro i hi
    rw [BitVec.getLsbD_and]
    by_cases hlow : i < 16
    · have hmask : (0xffff0000#32).getLsbD i = false := by
        interval_cases i <;> rfl
      rw [hmask, Bool.and_false, BitVec.getLsbD_zero]
    · have hbit : (BitVec.ofNat 32 k).getLsbD i = false := by
        rw [BitVec.getLsbD_ofNat]
        have hpow : 2 ^ 16 ≤ 2 ^ i := Nat.pow_le_pow_right (by decide) (by omega)
        rw [Nat.testBit_lt_two_pow (by omega), Bool.and_false]
      rw [hbit, Bool.false_and, BitVec.getLsbD_zero]
  rw [hzero, BitVec.zero_or]

theorem moveStack_up (c : Cpu) (hk : k + n < mode.limit) :
    { c with esp := BitVec.ofNat 32 k }.moveStack (BitVec.ofNat 32 n) mode =
      { c with esp := BitVec.ofNat 32 (k + n) } := by
  cases mode with
  | flat base => simp only [Cpu.moveStack, BitVec.ofNat_add]
  | real =>
    change k + n < 2 ^ 16 at hk
    have hsum : ((BitVec.ofNat 32 k + BitVec.ofNat 32 n).setWidth 16).setWidth 32 =
        BitVec.ofNat 32 (k + n) := by
      apply BitVec.eq_of_toNat_eq
      simp only [BitVec.toNat_setWidth, BitVec.toNat_add, BitVec.toNat_ofNat]
      omega
    simp only [Cpu.moveStack]
    rw [high_half_or _ (by omega), hsum]

theorem moveStack_down (c : Cpu) (hk : k + n < mode.limit) :
    { c with esp := BitVec.ofNat 32 (k + n) }.moveStack (-BitVec.ofNat 32 n) mode =
      { c with esp := BitVec.ofNat 32 k } := by
  have hback : BitVec.ofNat 32 (k + n) + -BitVec.ofNat 32 n = BitVec.ofNat 32 k := by
    rw [BitVec.ofNat_add]
    ring
  cases mode with
  | flat base => simp only [Cpu.moveStack, hback]
  | real =>
    change k + n < 2 ^ 16 at hk
    have hlow : ((BitVec.ofNat 32 k).setWidth 16).setWidth 32 = BitVec.ofNat 32 k := by
      apply BitVec.eq_of_toNat_eq
      simp only [BitVec.toNat_setWidth, BitVec.toNat_ofNat]
      omega
    simp only [Cpu.moveStack, hback]
    rw [high_half_or _ hk, hlow]

end Offset

section Push

variable {mode : StackMode} {m : Board} {k n : Nat} {bs cs : List Byte}

/-- A push puts its bytes in front of the block. -/
theorem push_stacked (hk : k + (cs.length + bs.length) < mode.limit) :
    push mode cs (m.stacked mode (k + cs.length) bs) = .ok () (m.stacked mode k (cs ++ bs)) := by
  have hlimit := limit_le mode
  have hbase : { m.cpu with esp := BitVec.ofNat 32 k }.stackBase mode = m.cpu.stackBase mode := by
    cases mode <;> rfl
  have haddr : m.cpu.stackBase mode + BitVec.ofNat 32 (k + cs.length) =
      m.cpu.stackBase mode + BitVec.ofNat 32 k + BitVec.ofNat 32 cs.length := by
    rw [BitVec.ofNat_add, BitVec.add_assoc]
  have hjoin := store_before m.fw.mem (m.cpu.stackBase mode + BitVec.ofNat 32 k)
    (by omega : cs.length + bs.length ≤ 2 ^ 32)
  rw [push, StateRun.modify_apply]
  simp only [Board.stacked, moveStack_down mode m.cpu (by omega : k + cs.length < mode.limit),
    Cpu.stackAddress, stackOffset_ofNat mode m.cpu (by omega : k < mode.limit), hbase,
    Firmware.withBlock, haddr, hjoin]

/-- A pop reads at the stack pointer and moves it up. -/
theorem pop_apply (hesp : m.cpu.esp = BitVec.ofNat 32 k) (hk : k + n < mode.limit) :
    pop mode n m = .ok (load m.fw.mem (m.cpu.stackBase mode + BitVec.ofNat 32 k) n)
      { m with cpu := { m.cpu with esp := BitVec.ofNat 32 (k + n) } } := by
  have hcpu : m.cpu = { m.cpu with esp := BitVec.ofNat 32 k } := by rw [← hesp]
  have hoffset : m.cpu.stackOffset mode = BitVec.ofNat 32 k := by
    rw [hcpu]
    exact stackOffset_ofNat mode m.cpu (by omega)
  have hmove : m.cpu.moveStack (BitVec.ofNat 32 n) mode =
      { m.cpu with esp := BitVec.ofNat 32 (k + n) } := by
    conv_lhs => rw [hcpu]
    exact moveStack_up mode m.cpu hk
  rw [pop, StateRun.modifyGet_apply, Cpu.stackAddress, hoffset, hmove]

theorem eq_stacked_nil (hesp : m.cpu.esp = BitVec.ofNat 32 k) : m = m.stacked mode k [] := by
  have hcpu : { m.cpu with esp := BitVec.ofNat 32 k } = m.cpu := by rw [← hesp]
  rw [Board.stacked, hcpu, Firmware.withBlock, store_nil]

end Push

end Qboot
