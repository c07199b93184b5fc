import Qboot.Mptable.Published

/-!
The header of the table has a length and, in the MP specification, a number of
entries at offset 34. `setup_mptable` fills in the length only: the reader that
goes by the length sees the whole table, and the one that goes by the number
sees an empty one.
-/

namespace Qboot

open Bytes ByteMemory

/-- `oemcount` of the header: the number of entries. -/
def mpEntryCount (m : Mem) : Nat := loadLE m (mpTableAddr m + 34#32) 2

/-- The reader that steps over entries until `length` bytes are used up. -/
def entriesByLength (m : Mem) : Option (List MpEntry) :=
  walkEntries (mpTableLength m - 44) (load m (mpTableAddr m + 44#32) (mpTableLength m - 44))

/-- Step over `count` entries, whatever length they take together. -/
def stepEntries (m : Mem) : Nat → BitVec 32 → Option (List MpEntry)
  | 0, _ => some []
  | count + 1, p =>
    let n := entryBytesOf (m p)
    do
      let e ← MpEntry.decode (load m p n)
      let es ← stepEntries m count (p + BitVec.ofNat 32 n)
      some (e :: es)

/-- The reader that steps over as many entries as the header says. -/
def entriesByCount (m : Mem) : Option (List MpEntry) :=
  stepEntries m (mpEntryCount m) (mpTableAddr m + 44#32)

/-- Entries that use up a block are found by their number as well. -/
theorem stepEntries_of_walkEntries (m : Mem) {fuel : Nat} {p : BitVec 32} {n : Nat}
    {es : List MpEntry} (h : walkEntries fuel (load m p n) = some es) :
    stepEntries m es.length p = some es := by
  induction fuel generalizing p n es with
  | zero =>
    cases n with
    | zero =>
      cases Option.some.inj h
      rfl
    | succ n =>
      have hnone : walkEntries 0 (load m p (n + 1)) = none := by
        rw [Nat.add_comm, load_append]
        rfl
      rw [hnone] at h
      cases h
  | succ fuel ih =>
    cases n with
    | zero =>
      cases Option.some.inj h
      rfl
    | succ n =>
      have hcons : load m p (n + 1) = m p :: load m (p + 1#32) n := by
        rw [Nat.add_comm, load_append]
        simp [load]
      rw [hcons, walkEntries, ← hcons, length_load] at h
      split at h
      · rename_i hfits
        obtain ⟨k, hk⟩ : ∃ k, n + 1 = entryBytesOf (m p) + k :=
          ⟨n + 1 - entryBytesOf (m p), by omega⟩
        have hlen : (load m p (entryBytesOf (m p))).length = entryBytesOf (m p) := length_load m p _
        have htake : (load m p (n + 1)).take (entryBytesOf (m p)) =
            load m p (entryBytesOf (m p)) := by
          rw [hk, load_append, List.take_left' hlen]
        have hdrop : (load m p (n + 1)).drop (entryBytesOf (m p)) =
            load m (p + BitVec.ofNat 32 (entryBytesOf (m p))) k := by
          rw [hk, load_append, List.drop_left' hlen]
        rw [htake, hdrop] at h
        obtain ⟨e, he, hrest⟩ := Option.bind_eq_some_iff.mp h
        obtain ⟨es', hes', heq⟩ := Option.bind_eq_some_iff.mp hrest
        obtain rfl : e :: es' = es := Option.some.inj heq
        rw [List.length_cons, stepEntries, he, ih hes']
        rfl
      · cases h

/-- The header is cleared and only its length and checksum are filled in. -/
theorem mpEntryCount_mpWritten (s : Firmware) {es : List MpEntry}
    (hlen : 60 + (encodeAll es).length ≤ 2 ^ 32) :
    mpEntryCount (s.mpWritten (mpBytes es)).mem = 0 := by
  have hcount : load (s.mpWritten (mpBytes es)).mem (mpAddr 50) 2 = [0#8, 0#8] :=
    load_mpWritten s (by rw [length_mpBytes]; omega) (by rw [length_mpBytes]; exact hlen)
  rw [mpEntryCount, mpTableAddr_mpWritten s hlen]
  change ofLE (load _ (mpAddr 50) 2) = _
  rw [hcount]
  rfl

/-- The number of entries `setup_mptable` writes. -/
theorem length_mpEntries (stepping features : BitVec 32) (d : FwCfg) :
    (mpEntries stepping features d).length =
      d.numCpus.toNat + (if d.irq0Override then 19 else 20) := by
  rw [mpEntries, List.length_append, cpuEntries, List.length_map, List.length_range']
  cases d.irq0Override <;> rfl

/-- What the run leaves for both readers. -/
theorem setupMptable_readers (stepping features : BitVec 32) (s : Firmware)
    (hlen : s.dev.mpTableBytes < 2 ^ 16) :
    ∃ s', setupMptable stepping features s = .ok () s' ∧
      entriesByLength s'.mem = some (mpEntries stepping features s.dev) ∧
      mpEntryCount s'.mem = 0 := by
  have hbytes := length_encodeAll_mpEntries stepping features s.dev
  obtain ⟨dev, hrun⟩ := setupMptable_apply stepping features s (by
    unfold FwCfg.mpTableBytes at hlen
    omega)
  have hreads := readsMpTable_mpWritten { s with dev := dev }
    (mpEntries_wellFormed stepping features s.dev) (by omega)
  exact ⟨_, hrun, hreads.entries, mpEntryCount_mpWritten _ (by omega)⟩

/-- The reader by length sees every entry that was written. The number in the
header is zero, so the reader by number sees none; told the number of entries
that were written, it would see the same. -/
theorem mpTable_readers (stepping features : BitVec 32) (s : Firmware)
    (hlen : s.dev.mpTableBytes < 2 ^ 16) :
    ∃ s', setupMptable stepping features s = .ok () s' ∧
      entriesByLength s'.mem = some (mpEntries stepping features s.dev) ∧
      mpEntryCount s'.mem = 0 ∧ entriesByCount s'.mem = some [] ∧
      stepEntries s'.mem (s.dev.numCpus.toNat + (if s.dev.irq0Override then 19 else 20))
        (mpTableAddr s'.mem + 44#32) = some (mpEntries stepping features s.dev) := by
  obtain ⟨s', hrun, hentries, hcount⟩ := setupMptable_readers stepping features s hlen
  refine ⟨s', hrun, hentries, hcount, ?_, ?_⟩
  · rw [entriesByCount, hcount]
    rfl
  · rw [← length_mpEntries stepping features]
    exact stepEntries_of_walkEntries _ hentries

theorem mpTable_readers_two :
    ∃ s', setupMptable 0x663#32 0x78bfbff#32 (mpMachine 2) = .ok () s' ∧
      entriesByCount s'.mem = some [] := by
  obtain ⟨s', hrun, -, -, hcount, -⟩ :=
    mpTable_readers 0x663#32 0x78bfbff#32 (mpMachine 2) (by decide)
  exact ⟨s', hrun, hcount⟩

/-- With one processor the two readers already disagree. -/
theorem mpTable_readers_differ : ¬ ∀ (stepping features : BitVec 32) (s : Firmware),
    s.dev.mpTableBytes < 2 ^ 16 → ∃ s', setupMptable stepping features s = .ok () s' ∧
      entriesByLength s'.mem = entriesByCount s'.mem := by
  intro hall
  have hfits : (mpMachine 1).dev.mpTableBytes < 2 ^ 16 := by decide
  obtain ⟨s', hrun, hsame⟩ := hall 0x663#32 0x78bfbff#32 (mpMachine 1) hfits
  obtain ⟨t, hrun', hentries, hcount⟩ := setupMptable_readers 0x663#32 0x78bfbff#32 _ hfits
  cases hrun.symm.trans hrun'
  rw [hentries, entriesByCount, hcount] at hsame
  have hlen := length_mpEntries 0x663#32 0x78bfbff#32 (mpMachine 1).dev
  rw [Option.some.inj hsame, List.length_nil] at hlen
  split at hlen <;> omega

end Qboot
