import Qboot.Machine

/-!
Functions of string.c: byte comparison and the 8-bit checksum, which the table
builders call, and the length and the number that printf.c gets from a string.
-/

namespace Qboot

open Bytes ByteMemory

/-- `memcmp` on the `n` bytes of both arguments: the first difference. -/
def memcmp : List Byte → List Byte → Int
  | a :: as, b :: bs =>
    let ret := (a.toNat : Int) - (b.toNat : Int)
    if ret ≠ 0 then ret else memcmp as bs
  | _, _ => 0

/-- `csum8`: a 32-bit accumulator, of which the low byte is returned. -/
def csum8 (m : Mem) (buf len : BitVec 32) : Byte :=
  ((load m buf len.toNat).foldl (fun s b => s + b.setWidth 32) 0#32).setWidth 8

theorem foldl_setWidth_sum (bs : List Byte) (s : BitVec 32) :
    (bs.foldl (fun s b => s + b.setWidth 32) s).setWidth 8 = s.setWidth 8 + bs.sum := by
  induction bs generalizing s with
  | nil => simp
  | cons b bs ih =>
    have hstep : (s + b.setWidth 32).setWidth 8 = s.setWidth 8 + b := by
      apply BitVec.eq_of_toNat_eq
      have hb := b.isLt
      simp only [BitVec.toNat_setWidth, BitVec.toNat_add]
      omega
    rw [List.foldl_cons, ih, hstep, List.sum_cons, BitVec.add_assoc]

/-- The checksum is the byte sum modulo 256. -/
theorem csum8_eq_sum (m : Mem) (buf len : BitVec 32) :
    csum8 m buf len = (load m buf len.toNat).sum := by
  rw [csum8, foldl_setWidth_sum]
  simp

/-! ### Strings -/

/-- A NUL-terminated string of the program, by its characters before the NUL. No
object of the program has 2^31 bytes. -/
structure CString where
  chars : List Byte
  noNul : 0#8 ∉ chars
  fits : chars.length + 1 < 2 ^ 31

/-- The bytes of the string in memory. -/
def CString.bytes (s : CString) : List Byte := s.chars ++ [0#8]

/-- The loop of `strlen`, with the bytes from the pointer on. -/
def strlenLoop : List Byte → BitVec 32 → BitVec 32
  | [], len => len
  | c :: buf, len => if c = 0#8 then len else strlenLoop buf (len + 1#32)

def strlen (buf : List Byte) : BitVec 32 := strlenLoop buf 0#32

theorem strlenLoop_append {cs : List Byte} (hcs : 0#8 ∉ cs) (rest : List Byte) (len : BitVec 32) :
    strlenLoop (cs ++ 0#8 :: rest) len = len + BitVec.ofNat 32 cs.length := by
  induction cs generalizing len with
  | nil => simp [strlenLoop]
  | cons c cs ih =>
    simp only [List.mem_cons, not_or] at hcs
    obtain ⟨hc, hrest⟩ := hcs
    rw [List.cons_append, strlenLoop, if_neg (Ne.symm hc), ih hrest, List.length_cons, Nat.add_comm,
      BitVec.ofNat_add, BitVec.add_assoc]

/-- The length of what is in front of the first NUL. -/
theorem strlen_append {cs : List Byte} (hcs : 0#8 ∉ cs) (rest : List Byte) :
    strlen (cs ++ 0#8 :: rest) = BitVec.ofNat 32 cs.length := by
  rw [strlen, strlenLoop_append hcs, BitVec.zero_add]

/-! ### Numbers in strings -/

/-- `c >= '0' && c <= '9'` -/
def isDigit (c : Byte) : Prop := 0x30 ≤ c.toNat ∧ c.toNat ≤ 0x39

instance (c : Byte) : Decidable (isDigit c) := inferInstanceAs (Decidable (_ ∧ _))

/-- The first loop of `atol`, with the bytes from the pointer on. -/
def atolSpaces : List Byte → List Byte
  | [] => []
  | c :: s => if c = 0x20#8 ∨ c = 0x09#8 then atolSpaces s else c :: s

/-- The last loop of `atol`. -/
def atolDigits : BitVec 32 → List Byte → BitVec 32
  | acc, [] => acc
  | acc, c :: s =>
    if c = 0#8 then acc
    else if ¬ isDigit c then acc
    else atolDigits (acc * 10#32 + (c - 0x30#8).setWidth 32) s

def atol (ptr : List Byte) : BitVec 32 :=
  match atolSpaces ptr with
  | [] => 0#32
  | c :: s =>
    if c = 0x2d#8 then -atolDigits 0#32 s
    else if c = 0x2b#8 then atolDigits 0#32 s
    else atolDigits 0#32 (c :: s)

end Qboot
