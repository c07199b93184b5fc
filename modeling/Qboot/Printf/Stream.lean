import Qboot.Lib.ByteMemory
import Qboot.Lib.Emission
import Qboot.Lib.Rounding
import Qboot.Machine

/-!
The output stream of printf.c: `addchar` counts every character and stores it
while there is room. All other functions of the formatter write through
`addchar` and never look at the stream.
-/

namespace Qboot

open Bytes ByteMemory Emission

/-- `pstream_t`. -/
structure PStream where
  buffer : BitVec 32
  remain : BitVec 32
  added : BitVec 32

/-- The formatter's state: memory and the stream. -/
structure Printer where
  mem : Mem
  stream : PStream
  /-- Every character given to `addchar`. No variable of the program holds them. -/
  sent : List Byte

/-- How a call of the formatter ends early. -/
inductive PrintStop where
  /-- `panic()` -/
  | panic
  /-- A read behind the format's terminating NUL. -/
  | overrun
  /-- More steps than the model was given. -/
  | spent
deriving DecidableEq

abbrev Print (α : Type) := EStateM PrintStop Printer α

/-- The stream after one character. -/
def Printer.add (s : Printer) (c : Byte) : Printer :=
  let p := s.stream
  let sent := s.sent ++ [c]
  if p.remain ≠ 0#32 then
    { mem := store s.mem p.buffer [c]
      stream := { buffer := p.buffer + 1#32, remain := p.remain - 1#32, added := p.added + 1#32 }
      sent := sent }
  else { s with stream := { p with added := p.added + 1#32 }, sent := sent }

def addchar (c : Byte) : Print Unit := modify fun s => s.add c

theorem addchar_sends (c : Byte) : Sends Printer.add (addchar c) [c] () := Sends.one c

/-- The room counter is tested for zero only, so a negative one is read as an
unsigned number. -/
def PStream.room (p : PStream) : Nat := p.remain.toNat

/-- Without room the character is counted only. -/
theorem Printer.add_full {s : Printer} (h : s.stream.room = 0) (c : Byte) :
    s.add c = { s with
      stream := { s.stream with added := s.stream.added + 1#32 }, sent := s.sent ++ [c] } := by
  have hremain : s.stream.remain = 0#32 := BitVec.eq_of_toNat_eq h
  simp [Printer.add, hremain]

/-- With room the character is stored. -/
theorem Printer.add_stored {s : Printer} {room : Nat} (h : s.stream.room = room + 1) (c : Byte) :
    s.add c =
      { mem := store s.mem s.stream.buffer [c]
        stream :=
          { buffer := s.stream.buffer + 1#32
            remain := s.stream.remain - 1#32
            added := s.stream.added + 1#32 }
        sent := s.sent ++ [c] } := by
  have hremain : s.stream.remain ≠ 0#32 := by
    intro hzero
    rw [PStream.room, hzero] at h
    cases h
  simp [Printer.add, hremain]

theorem PStream.room_sub_one {p : PStream} {room : Nat} (h : p.room = room + 1) :
    (p.remain - 1#32).toNat = room := by
  unfold PStream.room at h
  rw [Rounding.toNat_sub_one (by omega), h, Nat.add_sub_cancel]

/-- What a stream does with a text: the part for which it has room is in the
buffer, and every character is counted. -/
theorem Printer.sendAll_eq (s : Printer) (out : List Byte) :
    sendAll Printer.add s out =
      { mem := store s.mem s.stream.buffer (out.take s.stream.room)
        stream :=
          { buffer := s.stream.buffer + BitVec.ofNat 32 (min out.length s.stream.room)
            remain := s.stream.remain - BitVec.ofNat 32 (min out.length s.stream.room)
            added := s.stream.added + BitVec.ofNat 32 out.length }
        sent := s.sent ++ out } := by
  induction out generalizing s with
  | nil => simp [sendAll]
  | cons c out ih =>
    have hstep : sendAll Printer.add s (c :: out) = sendAll Printer.add (s.add c) out := rfl
    have hone (v : BitVec 32) (n : Nat) : v + 1#32 + BitVec.ofNat 32 n =
        v + BitVec.ofNat 32 (n + 1) := by
      rw [Nat.add_comm n, BitVec.ofNat_add, BitVec.add_assoc]
    have hsent : s.sent ++ [c] ++ out = s.sent ++ c :: out := by simp
    rw [hstep, ih]
    cases hroom : s.stream.room with
    | zero =>
      have hroom' : (s.add c).stream.room = 0 := by
        rw [Printer.add_full hroom]
        exact hroom
      rw [hroom', Printer.add_full hroom]
      simp [hone]
    | succ room =>
      have hroom' : (s.add c).stream.room = room := by
        rw [Printer.add_stored hroom]
        exact PStream.room_sub_one hroom
      have hmin : min (c :: out).length (room + 1) = min out.length room + 1 := by
        rw [List.length_cons]
        omega
      have hstore : store (store s.mem s.stream.buffer [c]) (s.stream.buffer + 1#32)
          (out.take room) = store s.mem s.stream.buffer (c :: out.take room) := by
        have hlt : room + 1 < 2 ^ 32 := by
          rw [← hroom]
          exact s.stream.remain.isLt
        refine store_cons s.mem s.stream.buffer c ?_
        rw [List.length_take]
        omega
      rw [hroom', Printer.add_stored hroom, hmin, List.take_succ_cons, hstore]
      simp only [Printer.mk.injEq, PStream.mk.injEq]
      refine ⟨trivial, ⟨hone _ _, ?_, hone _ _⟩, hsent⟩
      rw [Nat.add_comm _ 1, BitVec.ofNat_add]
      ring

end Qboot
