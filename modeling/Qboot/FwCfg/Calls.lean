import Qboot.FwCfg.Transport

/-!
Sequences of fw_cfg accesses. A program that selects entries and reads bytes,
words, blocks and whole entries sees the same device with either transport:
the version word decides how a request is encoded, not what it does.
-/

namespace Qboot

open Bytes ByteMemory

def fwCfgReadwBe : Fw (BitVec 32) := do
  let b0 ← fwCfgReadb
  let b1 ← fwCfgReadb
  pure (BitVec.ofNat 32 (ofLE [b1, b0]))

def fwCfgReadwLe : Fw (BitVec 32) := do
  let b0 ← fwCfgReadb
  let b1 ← fwCfgReadb
  pure (BitVec.ofNat 32 (ofLE [b0, b1]))

/-- One access. Keys and lengths are the ints the callers pass;
`fw_cfg_select` takes 16 bits of its argument. -/
inductive FwCfgCall where
  | select (key : BitVec 32)
  | readb
  | readwBe
  | readwLe
  | readlBe
  | readlLe
  | read (buf len : BitVec 32)
  | readEntry (key buf len : BitVec 32)
deriving DecidableEq

/-- The values a call returns. -/
def FwCfgCall.run : FwCfgCall → Fw (List (BitVec 32))
  | .select key => do
    fwCfgSelect (key.setWidth 16)
    pure []
  | .readb => do
    let b ← fwCfgReadb
    pure [b.setWidth 32]
  | .readwBe => do
    let v ← fwCfgReadwBe
    pure [v]
  | .readwLe => do
    let v ← fwCfgReadwLe
    pure [v]
  | .readlBe => do
    let v ← fwCfgReadlBe
    pure [v]
  | .readlLe => do
    let v ← fwCfgReadlLe
    pure [v]
  | .read buf len => do
    fwCfgRead buf len
    pure []
  | .readEntry key buf len => do
    fwCfgReadEntry key buf len
    pure []

def runCalls : List FwCfgCall → Fw (List (BitVec 32))
  | [] => pure []
  | call :: calls => do
    let vs ← call.run
    let ws ← runCalls calls
    pure (vs ++ ws)

/-- The machine with another fw_cfg version word. -/
def Firmware.withVersion (s : Firmware) (version : BitVec 32) : Firmware :=
  { s with version := version }

/-- A call returns the same values and leaves the same machine for any two
version words. -/
theorem run_transport (call : FwCfgCall) (s : Firmware) :
    ∃ (vs : List (BitVec 32)) (t : Firmware), ∀ version,
      call.run (s.withVersion version) = .ok vs (t.withVersion version) := by
  cases call with
  | select key => exact ⟨[], { s with dev := s.dev.select (key.setWidth 16) }, fun _ => rfl⟩
  | readb =>
    exact ⟨[((s.dev.next 1).headD 0).setWidth 32], { s with dev := s.dev.skip 1 }, fun _ => rfl⟩
  | readwBe =>
    exact ⟨[BitVec.ofNat 32 (ofLE [((s.dev.skip 1).next 1).headD 0, (s.dev.next 1).headD 0])],
      { s with dev := s.dev.skip 2 }, fun _ => rfl⟩
  | readwLe =>
    exact ⟨[BitVec.ofNat 32 (ofLE [(s.dev.next 1).headD 0, ((s.dev.skip 1).next 1).headD 0])],
      { s with dev := s.dev.skip 2 }, fun _ => rfl⟩
  | readlBe =>
    refine ⟨[BitVec.ofNat 32 (ofLE (s.dev.next 4).reverse)], { s with dev := s.dev.skip 4 },
      fun version => ?_⟩
    rw [FwCfgCall.run, StateRun.bind_of_ok (fwCfgReadlBe_apply _)]
    rfl
  | readlLe =>
    refine ⟨[BitVec.ofNat 32 (ofLE (s.dev.next 4))], { s with dev := s.dev.skip 4 },
      fun version => ?_⟩
    rw [FwCfgCall.run, StateRun.bind_of_ok (fwCfgReadlLe_apply _)]
    rfl
  | read buf len =>
    refine ⟨[], { s with mem := store s.mem buf (s.dev.next len.toNat)
                         dev := s.dev.skip len.toNat }, fun version => ?_⟩
    rw [FwCfgCall.run, StateRun.bind_of_ok (fwCfgRead_apply _ _ _)]
    rfl
  | readEntry key buf len =>
    refine ⟨[], { s with
      mem := store s.mem buf (entryBytes (s.dev.entry (key.setWidth 16)) 0 len.toNat)
      dev := (s.dev.select (key.setWidth 16)).skip len.toNat }, fun version => ?_⟩
    rw [FwCfgCall.run, StateRun.bind_of_ok (fwCfgReadEntry_apply _ _ _ _)]
    rfl

/-- Any sequence of calls returns the same values and leaves the same memory,
selected key and read position with DMA and with port reads. -/
theorem runCalls_transport (calls : List FwCfgCall) (s : Firmware) :
    ∃ (vs : List (BitVec 32)) (t : Firmware), ∀ version,
      runCalls calls (s.withVersion version) = .ok vs (t.withVersion version) := by
  induction calls generalizing s with
  | nil => exact ⟨[], s, fun _ => rfl⟩
  | cons call calls ih =>
    obtain ⟨vs, t, hcall⟩ := run_transport call s
    obtain ⟨ws, u, hcalls⟩ := ih t
    refine ⟨vs ++ ws, u, fun version => ?_⟩
    rw [runCalls, StateRun.bind_of_ok (hcall version), StateRun.bind_of_ok (hcalls version)]
    rfl

end Qboot
