import Qboot.Lib.Bytes

/-!
The entries of an MP configuration table, as a reader that follows the
specification sees them: it takes the size of an entry from its type byte
and steps over entries until the table is used up.
-/

namespace Qboot

open Bytes

def MP_PROCESSOR : Byte := 0#8
def MP_BUS : Byte := 1#8
def MP_IOAPIC : Byte := 2#8
def MP_INTSRC : Byte := 3#8
def MP_LINTSRC : Byte := 4#8

/-- The entry structures of mpspec_def.h. The reserved words of a processor
entry are not part of it. -/
inductive MpEntry where
  | cpu (apicid apicver cpuflag : Byte) (cpufeature featureflag : BitVec 32)
  | bus (busid : Byte) (bustype : List Byte)
  | ioapic (apicid apicver flags : Byte) (apicaddr : BitVec 32)
  | intsrc (irqtype : Byte) (irqflag : BitVec 16) (srcbus srcbusirq dstapic dstirq : Byte)
  | lintsrc (irqtype : Byte) (irqflag : BitVec 16)
      (srcbusid srcbusirq destapic destapiclint : Byte)
deriving DecidableEq

/-- Bytes an entry takes, by its type byte. -/
def entryBytesOf (type : Byte) : Nat := if type = MP_PROCESSOR then 20 else 8

/-- The entry in the bytes that its type byte claims. -/
def MpEntry.decode (bs : List Byte) : Option MpEntry :=
  let byte (k : Nat) : Byte := bs.getD k 0
  let half (k : Nat) : BitVec 16 := BitVec.ofNat 16 (ofLE (slice bs k 2))
  let word (k : Nat) : BitVec 32 := BitVec.ofNat 32 (ofLE (slice bs k 4))
  if byte 0 = MP_PROCESSOR then some (.cpu (byte 1) (byte 2) (byte 3) (word 4) (word 8))
  else if byte 0 = MP_BUS then some (.bus (byte 1) (slice bs 2 6))
  else if byte 0 = MP_IOAPIC then some (.ioapic (byte 1) (byte 2) (byte 3) (word 4))
  else if byte 0 = MP_INTSRC then
    some (.intsrc (byte 1) (half 2) (byte 4) (byte 5) (byte 6) (byte 7))
  else if byte 0 = MP_LINTSRC then
    some (.lintsrc (byte 1) (half 2) (byte 4) (byte 5) (byte 6) (byte 7))
  else none

/-- Step over entries until no byte is left; `none` if an entry is unknown or
runs over the end. Every entry has a byte, so the length bounds the steps. -/
def walkEntries : Nat → List Byte → Option (List MpEntry)
  | _, [] => some []
  | 0, _ :: _ => none
  | fuel + 1, b :: bs =>
    let n := entryBytesOf b
    if n ≤ (b :: bs).length then do
      let e ← MpEntry.decode ((b :: bs).take n)
      let es ← walkEntries fuel ((b :: bs).drop n)
      some (e :: es)
    else none

/-- The bytes of an entry with zero reserved words. -/
def MpEntry.encode : MpEntry → List Byte
  | .cpu apicid apicver cpuflag cpufeature featureflag =>
    [MP_PROCESSOR, apicid, apicver, cpuflag] ++ toLE 4 cpufeature.toNat ++
      toLE 4 featureflag.toNat ++ List.replicate 8 0
  | .bus busid bustype => [MP_BUS, busid] ++ bustype
  | .ioapic apicid apicver flags apicaddr =>
    [MP_IOAPIC, apicid, apicver, flags] ++ toLE 4 apicaddr.toNat
  | .intsrc irqtype irqflag srcbus srcbusirq dstapic dstirq =>
    [MP_INTSRC, irqtype] ++ toLE 2 irqflag.toNat ++ [srcbus, srcbusirq, dstapic, dstirq]
  | .lintsrc irqtype irqflag srcbusid srcbusirq destapic destapiclint =>
    [MP_LINTSRC, irqtype] ++ toLE 2 irqflag.toNat ++
      [srcbusid, srcbusirq, destapic, destapiclint]

/-- A bus type name fills its six bytes. -/
def MpEntry.WellFormed : MpEntry → Prop
  | .bus _ bustype => bustype.length = 6
  | _ => True

/-- The size of an entry. -/
def MpEntry.size : MpEntry → Nat
  | .cpu .. => 20
  | _ => 8

theorem MpEntry.length_encode {e : MpEntry} (h : e.WellFormed) : e.encode.length = e.size := by
  cases e with
  | bus busid bustype =>
    have hlen : bustype.length = 6 := h
    simp [MpEntry.encode, MpEntry.size, hlen]
  | _ => simp [MpEntry.encode, MpEntry.size]

/-- An encoded entry claims the bytes it has. -/
theorem MpEntry.encode_eq_cons {e : MpEntry} (h : e.WellFormed) :
    ∃ b bs, e.encode = b :: bs ∧ entryBytesOf b = e.encode.length := by
  rw [MpEntry.length_encode h]
  cases e with
  | _ => exact ⟨_, _, rfl, rfl⟩

theorem MpEntry.decode_encode {e : MpEntry} (h : e.WellFormed) :
    MpEntry.decode e.encode = some e := by
  have hhalf (v : BitVec 16) : BitVec.ofNat 16 (ofLE (toLE 2 v.toNat)) = v := ofNat_ofLE_toLE 2 v
  have hword (v : BitVec 32) : BitVec.ofNat 32 (ofLE (toLE 4 v.toNat)) = v := ofNat_ofLE_toLE 4 v
  cases e with
  | cpu apicid apicver cpuflag cpufeature featureflag =>
    change some (MpEntry.cpu apicid apicver cpuflag
      (BitVec.ofNat 32 (ofLE (toLE 4 cpufeature.toNat)))
      (BitVec.ofNat 32 (ofLE (toLE 4 featureflag.toNat)))) = _
    rw [hword, hword]
  | bus busid bustype =>
    have hname : slice ([MP_BUS, busid] ++ bustype) 2 6 = bustype := by
      have hlen : bustype.length = 6 := h
      rw [← hlen]
      exact slice_append_right [MP_BUS, busid] bustype
    change some (MpEntry.bus busid (slice ([MP_BUS, busid] ++ bustype) 2 6)) = _
    rw [hname]
  | ioapic apicid apicver flags apicaddr =>
    change some (MpEntry.ioapic apicid apicver flags
      (BitVec.ofNat 32 (ofLE (toLE 4 apicaddr.toNat)))) = _
    rw [hword]
  | intsrc irqtype irqflag srcbus srcbusirq dstapic dstirq =>
    change some (MpEntry.intsrc irqtype (BitVec.ofNat 16 (ofLE (toLE 2 irqflag.toNat)))
      srcbus srcbusirq dstapic dstirq) = _
    rw [hhalf]
  | lintsrc irqtype irqflag srcbusid srcbusirq destapic destapiclint =>
    change some (MpEntry.lintsrc irqtype (BitVec.ofNat 16 (ofLE (toLE 2 irqflag.toNat)))
      srcbusid srcbusirq destapic destapiclint) = _
    rw [hhalf]

/-- A reader of well-formed entries sees exactly them. -/
theorem walkEntries_encode {es : List MpEntry} (h : ∀ e ∈ es, e.WellFormed) {fuel : Nat}
    (hfuel : es.length ≤ fuel) : walkEntries fuel (es.flatMap MpEntry.encode) = some es := by
  induction es generalizing fuel with
  | nil => simp [walkEntries]
  | cons e es ih =>
    obtain ⟨b, bs, hcons, hbytes⟩ := MpEntry.encode_eq_cons (h e (by simp))
    cases fuel with
    | zero => simp at hfuel
    | succ fuel =>
      have hrest := ih (fun e he => h e (by simp [he])) (by simpa using hfuel)
      have happ : b :: (bs ++ es.flatMap MpEntry.encode) =
          e.encode ++ es.flatMap MpEntry.encode := by
        rw [hcons]
        rfl
      have hfits : entryBytesOf b ≤ (e.encode ++ es.flatMap MpEntry.encode).length := by
        rw [hbytes, List.length_append]
        omega
      rw [List.flatMap_cons, hcons, List.cons_append, walkEntries, happ, if_pos hfits, hbytes,
        List.take_left, List.drop_left, MpEntry.decode_encode (h e (by simp)), hrest]
      rfl

end Qboot
