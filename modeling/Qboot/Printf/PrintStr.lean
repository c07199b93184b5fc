import Qboot.Lib.Signed
import Qboot.Printf.Stream
import Qboot.StringOps

/-!
`print_str`: one signed counter serves both directions of padding. It is
lowered by the length of the string before the string is printed, and raised
again behind it.
-/

namespace Qboot

open Bytes ByteMemory Emission

/-- `strprops_t`. -/
structure StrProps where
  pad : Byte
  npad : BitVec 32
deriving DecidableEq

/-- The loop `while (npad > 0)`; returns the counter. -/
def padLeft (pad : Byte) (npad : BitVec 32) : Print (BitVec 32) :=
  if _h : 0 < npad.toInt then do
    addchar pad
    padLeft pad (npad - 1#32)
  else pure npad
termination_by npad.toInt.toNat
decreasing_by
  rw [Signed.toInt_sub_one _h]
  omega

/-- The loop `while (npad < 0)`. -/
def padRight (pad : Byte) (npad : BitVec 32) : Print Unit :=
  if _h : npad.toInt < 0 then do
    addchar pad
    padRight pad (npad + 1#32)
  else pure ()
termination_by (-npad.toInt).toNat
decreasing_by
  rw [Signed.toInt_add_one (by decide) _h]
  omega

/-- The loop `while (*s)`, with the bytes from the pointer on. -/
def printChars : List Byte → Print Unit
  | [] => throw .overrun
  | c :: s =>
    if c = 0#8 then pure ()
    else do
      addchar c
      printChars s

def printStr (s : List Byte) (props : StrProps) : Print Unit := do
  let npad ← if 0 < props.npad.toInt then padLeft props.pad (props.npad - strlen s)
    else pure props.npad
  printChars s
  if npad.toInt < 0 then padRight 0x20#8 (npad + strlen s) else pure ()

/-! ### The loops -/

theorem padLeft_sends (pad : Byte) (npad : BitVec 32) :
    Sends Printer.add (padLeft pad npad) (List.replicate npad.toInt.toNat pad)
      (if 0 < npad.toInt then 0#32 else npad) := by
  induction npad using padLeft.induct with
  | case1 npad hpos ih =>
    have hlower := Signed.toInt_sub_one hpos
    have hcount : npad.toInt.toNat = (npad - 1#32).toInt.toNat + 1 := by omega
    have hend : (if 0 < (npad - 1#32).toInt then 0#32 else npad - 1#32) = 0#32 := by
      split
      · rfl
      · apply BitVec.eq_of_toInt_eq
        rw [BitVec.toInt_zero]
        omega
    rw [padLeft, dif_pos hpos, if_pos hpos, hcount, List.replicate_succ]
    rw [hend] at ih
    exact (addchar_sends pad).bind ih
  | case2 npad hneg =>
    have hcount : npad.toInt.toNat = 0 := by omega
    rw [padLeft, dif_neg hneg, if_neg hneg, hcount]
    exact Sends.pure npad

theorem padRight_sends (pad : Byte) (npad : BitVec 32) :
    Sends Printer.add (padRight pad npad) (List.replicate (-npad.toInt).toNat pad) () := by
  induction npad using padRight.induct with
  | case1 npad hneg ih =>
    have hraise := Signed.toInt_add_one (by decide) hneg
    have hcount : (-npad.toInt).toNat = (-(npad + 1#32).toInt).toNat + 1 := by omega
    rw [padRight, dif_pos hneg, hcount, List.replicate_succ]
    exact (addchar_sends pad).bind ih
  | case2 npad hpos =>
    have hcount : (-npad.toInt).toNat = 0 := by omega
    rw [padRight, dif_neg hpos, hcount]
    exact Sends.pure ()

theorem printChars_sends {cs : List Byte} (hcs : 0#8 ∉ cs) (rest : List Byte) :
    Sends Printer.add (printChars (cs ++ 0#8 :: rest)) cs () := by
  induction cs with
  | nil =>
    rw [List.nil_append, printChars, if_pos rfl]
    exact Sends.pure ()
  | cons c cs ih =>
    simp only [List.mem_cons, not_or] at hcs
    rw [List.cons_append, printChars, if_neg (Ne.symm hcs.1)]
    exact (addchar_sends c).bind (ih hcs.2)

/-! ### The padded text -/

/-- A text with its padding: in front of it for a positive counter, blanks
behind it for a negative one. -/
def padded (cs : List Byte) (pad : Byte) (npad : Int) : List Byte :=
  List.replicate (npad - cs.length).toNat pad ++ cs ++
    List.replicate (-npad - cs.length).toNat 0x20#8

theorem length_padded (cs : List Byte) (pad : Byte) (npad : Int) :
    (padded cs pad npad).length = max cs.length npad.natAbs := by
  simp only [padded, List.length_append, List.length_replicate]
  omega

/-- On one side at least there is nothing. -/
theorem padded_of_nonneg {cs : List Byte} {pad : Byte} {npad : Int} (h : 0 ≤ npad) :
    padded cs pad npad = List.replicate (npad - cs.length).toNat pad ++ cs := by
  have hzero : (-npad - (cs.length : Int)).toNat = 0 := by omega
  rw [padded, hzero, List.replicate_zero, List.append_nil]

theorem padded_of_neg {cs : List Byte} {pad : Byte} {npad : Int} (h : npad < 0) :
    padded cs pad npad = cs ++ List.replicate (-npad - cs.length).toNat 0x20#8 := by
  have hzero : (npad - (cs.length : Int)).toNat = 0 := by omega
  rw [padded, hzero, List.replicate_zero, List.nil_append]

/-- What `print_str` sends. -/
theorem printStr_sends_padded {cs : List Byte} (hcs : 0#8 ∉ cs) (hlen : cs.length < 2 ^ 31)
    (rest : List Byte) (props : StrProps) :
    Sends Printer.add (printStr (cs ++ 0#8 :: rest) props)
      (padded cs props.pad props.npad.toInt) () := by
  have hlt := @BitVec.two_mul_toInt_lt 32 props.npad
  have hle := @BitVec.le_two_mul_toInt 32 props.npad
  have hstrlen := strlen_append hcs rest
  have hstrlenInt : (strlen (cs ++ 0#8 :: rest)).toInt = cs.length := by
    rw [hstrlen]
    exact Signed.toInt_ofNat_of_lt (by omega)
  have hchars := printChars_sends hcs rest
  unfold printStr
  by_cases hpos : 0 < props.npad.toInt
  · -- the counter is lowered; below zero it is raised back to a positive one
    have hlower : (props.npad - strlen (cs ++ 0#8 :: rest)).toInt =
        props.npad.toInt - cs.length := by
      rw [Signed.toInt_sub_of_range (by omega) (by omega), hstrlenInt]
    have hleft := padLeft_sends props.pad (props.npad - strlen (cs ++ 0#8 :: rest))
    rw [hlower] at hleft
    rw [if_pos hpos, padded_of_nonneg hpos.le, ← List.append_nil (_ ++ cs), List.append_assoc]
    refine hleft.bind (hchars.bind ?_)
    by_cases hmore : 0 < props.npad.toInt - (cs.length : Int)
    · rw [if_pos hmore, if_neg (by decide)]
      exact Sends.pure ()
    · rw [if_neg hmore, hlower]
      split
      · have hback : props.npad - strlen (cs ++ 0#8 :: rest) + strlen (cs ++ 0#8 :: rest) =
            props.npad := BitVec.sub_add_cancel _ _
        have hnone : (-props.npad.toInt).toNat = 0 := by omega
        have hright := padRight_sends 0x20#8 props.npad
        rw [hnone] at hright
        rw [hback]
        exact hright
      · exact Sends.pure ()
  · rw [if_neg hpos]
    rcases Int.lt_or_eq_of_le (not_lt.mp hpos) with hneg | hzero
    · have hraise : (props.npad + strlen (cs ++ 0#8 :: rest)).toInt =
          props.npad.toInt + cs.length := by
        rw [Signed.toInt_add_of_range (by omega) (by omega), hstrlenInt]
      have hright := padRight_sends 0x20#8 (props.npad + strlen (cs ++ 0#8 :: rest))
      rw [hraise] at hright
      have hcount : -(props.npad.toInt + (cs.length : Int)) = -props.npad.toInt - cs.length := by
        ring
      rw [hcount] at hright
      rw [padded_of_neg hneg, ← List.nil_append (cs ++ _)]
      refine (Sends.pure props.npad).bind (hchars.bind ?_)
      rw [if_pos hneg]
      exact hright
    · have hnone : padded cs props.pad props.npad.toInt = [] ++ (cs ++ []) := by
        rw [hzero, padded_of_nonneg le_rfl]
        simp
      rw [hnone]
      refine (Sends.pure props.npad).bind (hchars.bind ?_)
      rw [if_neg (by omega)]
      exact Sends.pure ()

/-- For every string shorter than 2^31 and every `int npad`: `print_str` ends
and sends the pad characters and the string, or the string and blanks, the
longer of the two lengths in all. -/
theorem printStr_padding {cs : List Byte} (hcs : 0#8 ∉ cs) (hlen : cs.length < 2 ^ 31)
    (rest : List Byte) (pad : Byte) (npad : BitVec 32) :
    (0 ≤ npad.toInt → Sends Printer.add (printStr (cs ++ 0#8 :: rest) ⟨pad, npad⟩)
      (List.replicate (max (npad.toInt - cs.length) 0).toNat pad ++ cs) ()) ∧
    (npad.toInt < 0 → Sends Printer.add (printStr (cs ++ 0#8 :: rest) ⟨pad, npad⟩)
      (cs ++ List.replicate (max (-npad.toInt - cs.length) 0).toNat 0x20#8) ()) ∧
    ∃ sent, Sends Printer.add (printStr (cs ++ 0#8 :: rest) ⟨pad, npad⟩) sent () ∧
      sent.length = max cs.length npad.toInt.natAbs := by
  have hsends := printStr_sends_padded hcs hlen rest ⟨pad, npad⟩
  have hmax (n : Int) : (max n 0).toNat = n.toNat := by omega
  refine ⟨fun hpos => ?_, fun hneg => ?_, _, hsends, length_padded cs pad npad.toInt⟩
  · rw [hmax, ← padded_of_nonneg hpos]
    exact hsends
  · rw [hmax, ← padded_of_neg hneg]
    exact hsends

theorem printStr_padding_short :
    0 ≤ (1#32).toInt ∧ Sends Printer.add (printStr [0x61#8, 0x62#8, 0#8] ⟨0x20#8, 1#32⟩)
      (List.replicate (max ((1#32).toInt - 2) 0).toNat 0x20#8 ++ [0x61#8, 0x62#8]) () :=
  ⟨by decide, (@printStr_padding [0x61#8, 0x62#8] (by decide) (by decide) [] 0x20#8 1#32).1
    (by decide)⟩

end Qboot
