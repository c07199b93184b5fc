import Qboot.E820

/-!
The INT 15h handler of code16.c. It runs in real mode: the code reads the
memory map through a segment register and gives it to the caller one entry at
a time. The caller keeps the index of the next entry in EBX.
-/

namespace Qboot

open Bytes ByteMemory

/-- `struct biosregs`, as far as the handler reads or writes it. -/
structure BiosRegs where
  eax : BitVec 32
  ebx : BitVec 32
  ecx : BitVec 32
  edi : BitVec 32
  ds : BitVec 32
  eflags : BitVec 16
deriving DecidableEq

def SMAP : BitVec 32 := 0x534d4150#32

def X86_EFLAGS_CF : BitVec 16 := 1#16

/-- The address of an offset in a real-mode segment. -/
def segmentAddress (seg : BitVec 16) (offset : BitVec 32) : BitVec 32 :=
  (seg.setWidth 32 <<< 4) + offset

/-- `rdfs8` and `rdfs32`, with `fs` as an argument. -/
def rdfs8 (fs : BitVec 16) (addr : BitVec 32) : Fw Byte := do
  let bs ← peek (segmentAddress fs addr) 1
  pure (BitVec.ofNat 8 (ofLE bs))

def rdfs32 (fs : BitVec 16) (addr : BitVec 32) : Fw (BitVec 32) := do
  let bs ← peek (segmentAddress fs addr) 4
  pure (BitVec.ofNat 32 (ofLE bs))

/-- The loop `*p++ = rdfs8(start + i)`; `p` is an offset in the caller's data
segment, which the entry code leaves in place. -/
def copyEntry (fs ds : BitVec 16) (start p : BitVec 32) : Nat → Fw Unit
  | 0 => pure ()
  | n + 1 => do
    let b ← rdfs8 fs start
    poke (segmentAddress ds p) [b]
    copyEntry fs ds (start + 1#32) (p + 1#32) n

def e820QueryMap (regs : BiosRegs) : Fw BiosRegs := do
  let s ← get
  let fs := s.e820Seg
  let ndx := regs.ebx
  let mapSize ← rdfs32 fs 0#32
  if ndx < mapSize then
    copyEntry fs (regs.ds.setWidth 16) (4#32 + BitVec.ofNat 32 e820EntryBytes * ndx) regs.edi
      e820EntryBytes
  let next := ndx + 1#32
  pure { regs with
    eax := SMAP
    ecx := BitVec.ofNat 32 e820EntryBytes
    ebx := if next ≥ mapSize then 0#32 else next }

def int15Handler (regs : BiosRegs) : Fw BiosRegs :=
  if regs.eax = 0xe820#32 then e820QueryMap regs
  else pure { regs with eflags := regs.eflags ||| X86_EFLAGS_CF }

/-! ### One call -/

/-- Where a caller with these registers finds its entry. -/
def BiosRegs.buffer (regs : BiosRegs) : BitVec 32 := segmentAddress (regs.ds.setWidth 16) regs.edi

/-- The table lies in the segment that `e820_seg` names. -/
structure Firmware.TableInSegment (s : Firmware) (entries : Nat) : Prop where
  aligned : s.e820.toNat % 16 = 0
  below : s.e820.toNat < 0x100000
  fits : 4 + e820EntryBytes * entries ≤ 0x10000
  seg : s.e820Seg = (s.e820 >>> 4).setWidth 16

/-- Offsets in the segment are offsets in the table. -/
theorem segmentAddress_e820Seg {s : Firmware} {n : Nat} (h : s.TableInSegment n)
    (offset : BitVec 32) : segmentAddress s.e820Seg offset = s.e820 + offset := by
  have hbase : s.e820Seg.setWidth 32 <<< 4 = s.e820 := by
    have haligned := h.aligned
    have hbelow := h.below
    apply BitVec.eq_of_toNat_eq
    rw [h.seg, BitVec.toNat_shiftLeft, BitVec.toNat_setWidth, BitVec.toNat_setWidth,
      BitVec.toNat_ushiftRight, Nat.shiftLeft_eq, Nat.shiftRight_eq_div_pow]
    omega
  rw [segmentAddress, hbase]

/-- Copying bytes one by one to a block that does not meet the source. -/
theorem copyEntry_apply {fs ds : BitVec 16} {start p : BitVec 32} {n : Nat} (hn : n ≤ 2 ^ 32)
    (happ : Apart (segmentAddress fs start) n (segmentAddress ds p) n) (s : Firmware) :
    copyEntry fs ds start p n s = .ok () { s with
      mem := store s.mem (segmentAddress ds p) (load s.mem (segmentAddress fs start) n) } := by
  induction n generalizing start p s with
  | zero => simp [copyEntry]
  | succ n ih =>
    have hstart : segmentAddress fs (start + 1#32) =
        segmentAddress fs start + BitVec.ofNat 32 1 := by
      simp only [segmentAddress]
      ring
    have hp : segmentAddress ds (p + 1#32) = segmentAddress ds p + BitVec.ofNat 32 1 := by
      simp only [segmentAddress]
      ring
    have hread : rdfs8 fs start s = .ok (s.mem (segmentAddress fs start)) s := by
      rw [rdfs8, StateRun.bind_of_ok (peek_apply _ _ s)]
      simp [load, ofLE]
    have hbehind : 1 + n ≤ n + 1 := (Nat.add_comm 1 n).le
    have hrest : Apart (segmentAddress fs start + BitVec.ofNat 32 1) n
        (segmentAddress ds p + BitVec.ofNat 32 1) n :=
      ((happ.part hbehind hn).symm.part hbehind hn).symm
    have hone : Apart (segmentAddress fs start + BitVec.ofNat 32 1) n (segmentAddress ds p) 1 := by
      have h := (happ.part hbehind hn).symm.part (show 0 + 1 ≤ n + 1 by omega) hn
      rw [BitVec.add_zero] at h
      exact h.symm
    have hsource : load (store s.mem (segmentAddress ds p) [s.mem (segmentAddress fs start)])
        (segmentAddress fs start + BitVec.ofNat 32 1) n =
        load s.mem (segmentAddress fs start + BitVec.ofNat 32 1) n :=
      load_store_outside s.mem (by omega) hone
    have hjoin := @store_append _ s.mem (segmentAddress ds p) [s.mem (segmentAddress fs start)]
      (load s.mem (segmentAddress fs start + BitVec.ofNat 32 1) n)
      (by rw [List.length_singleton, length_load]; omega)
    have hload : load s.mem (segmentAddress fs start) (n + 1) =
        [s.mem (segmentAddress fs start)] ++
          load s.mem (segmentAddress fs start + BitVec.ofNat 32 1) n := by
      rw [Nat.add_comm n 1, load_append]
      simp [load]
    rw [copyEntry, StateRun.bind_of_ok hread, StateRun.bind_of_ok (poke_apply _ _ s),
      ih (by omega) (by rw [hstart, hp]; exact hrest), hload, ← hjoin, hstart, hp]
    simp only [hsource, List.length_singleton]

/-- The registers that the handler returns for entry `i` of `count`. -/
def BiosRegs.answer (regs : BiosRegs) (i count : Nat) : BiosRegs :=
  { regs with
    eax := SMAP
    ecx := BitVec.ofNat 32 e820EntryBytes
    ebx := if i + 1 < count then BitVec.ofNat 32 (i + 1) else 0#32 }

/-- A call with an index in the map delivers that entry. -/
theorem int15Handler_entry {s : Firmware} {es : List E820Entry} {regs : BiosRegs} {i : Nat}
    (hheld : MapHeld s.mem s.e820 es) (hseg : s.TableInSegment es.length) (hi : i < es.length)
    (heax : regs.eax = 0xe820#32) (hebx : regs.ebx = BitVec.ofNat 32 i)
    (hbuffer : Apart s.e820 (4 + e820EntryBytes * es.length) regs.buffer e820EntryBytes) :
    int15Handler regs s = .ok (regs.answer i es.length)
      (s.withBlock regs.buffer es[i].encode) := by
  have hbytes : e820EntryBytes = 20 := rfl
  have hfits : 4 + 20 * es.length ≤ 0x10000 := hseg.fits
  have hlen : es.length < 2 ^ 32 := by omega
  have hsize : rdfs32 s.e820Seg 0#32 s = .ok (BitVec.ofNat 32 es.length) s := by
    rw [rdfs32, StateRun.bind_of_ok (peek_apply _ _ s), segmentAddress_e820Seg hseg,
      BitVec.add_zero, hheld.count hlen]
    rfl
  have hin : BitVec.ofNat 32 i < BitVec.ofNat 32 es.length := by
    rw [BitVec.lt_def, BitVec.toNat_ofNat, BitVec.toNat_ofNat, Nat.mod_eq_of_lt (by omega),
      Nat.mod_eq_of_lt hlen]
    exact hi
  have hsource : segmentAddress s.e820Seg
      (4#32 + BitVec.ofNat 32 e820EntryBytes * BitVec.ofNat 32 i) = mapEntry s.e820 i := by
    rw [segmentAddress_e820Seg hseg, mapEntry, BitVec.ofNat_add, BitVec.ofNat_mul]
  have hcopy : copyEntry s.e820Seg (regs.ds.setWidth 16)
      (4#32 + BitVec.ofNat 32 e820EntryBytes * BitVec.ofNat 32 i) regs.edi e820EntryBytes s =
      .ok () (s.withBlock regs.buffer es[i].encode) := by
    have happ : Apart (mapEntry s.e820 i) e820EntryBytes regs.buffer e820EntryBytes :=
      hbuffer.part (by rw [hbytes]; omega) (by rw [hbytes]; omega)
    rw [copyEntry_apply (by decide) (by rw [hsource]; exact happ), hsource, hheld.entry hi]
    rfl
  have hnext : (if BitVec.ofNat 32 i + 1#32 ≥ BitVec.ofNat 32 es.length then 0#32
      else BitVec.ofNat 32 i + 1#32) =
      if i + 1 < es.length then BitVec.ofNat 32 (i + 1) else 0#32 := by
    have hsucc : BitVec.ofNat 32 i + 1#32 = BitVec.ofNat 32 (i + 1) := by
      rw [BitVec.ofNat_add]
    have hge : BitVec.ofNat 32 (i + 1) ≥ BitVec.ofNat 32 es.length ↔ ¬ i + 1 < es.length := by
      rw [ge_iff_le, BitVec.le_def, BitVec.toNat_ofNat, BitVec.toNat_ofNat,
        Nat.mod_eq_of_lt hlen, Nat.mod_eq_of_lt (by omega)]
      omega
    rw [hsucc]
    by_cases hlast : i + 1 < es.length
    · rw [if_neg (by rw [hge]; exact not_not_intro hlast), if_pos hlast]
    · rw [if_pos (hge.mpr hlast), if_neg hlast]
  rw [int15Handler, if_pos heax, e820QueryMap, StateRun.bind_of_ok (StateRun.get_apply s)]
  refine (StateRun.bind_of_ok hsize).trans ?_
  rw [hebx, if_pos hin]
  refine (StateRun.bind_of_ok hcopy).trans ?_
  exact congrArg (fun next => EStateM.Result.ok
    { regs with eax := SMAP, ecx := BitVec.ofNat 32 e820EntryBytes, ebx := next }
    (s.withBlock regs.buffer es[i].encode)) hnext

/-! ### The caller -/

/-- The registers of a call for the entry with index `ebx`. -/
def BiosRegs.ask (regs : BiosRegs) (ebx : BitVec 32) : BiosRegs :=
  { regs with eax := 0xe820#32, ebx := ebx }

/-- A caller that asks for the map: call after call with the EBX that the
call before returned, until it is zero. `calls k` are its other registers in
call `k`. It returns the entry of each call, or `none` if `n` calls were not
enough. -/
def queryAll (calls : Nat → BiosRegs) : Nat → Nat → BitVec 32 → Fw (Option (List E820Entry))
  | 0, _, _ => pure none
  | n + 1, k, ebx => do
    let regs ← int15Handler ((calls k).ask ebx)
    let bs ← peek (calls k).buffer e820EntryBytes
    if regs.ebx = 0#32 then pure (some [E820Entry.decode bs])
    else do
      let rest ← queryAll calls n (k + 1) regs.ebx
      pure (rest.map (E820Entry.decode bs :: ·))

/-- From entry `i` on the caller gets the rest of the map, one entry for each
call. -/
theorem queryAll_apply {calls : Nat → BiosRegs} {es : List E820Entry} {s : Firmware} {i : Nat}
    (n : Nat) (hheld : MapHeld s.mem s.e820 es) (hseg : s.TableInSegment es.length)
    (hbuffers : ∀ k, Apart s.e820 (4 + e820EntryBytes * es.length) (calls k).buffer e820EntryBytes)
    (hi : i < es.length) :
    ∃ s', queryAll calls n i (BitVec.ofNat 32 i) s =
      .ok (if es.length ≤ i + n then some (es.drop i) else none) s' := by
  have hfits := hseg.fits
  induction n generalizing i s with
  | zero => exact ⟨s, by rw [if_neg (by omega)]; rfl⟩
  | succ n ih =>
    have hfits' : 4 + 20 * es.length ≤ 0x10000 := hfits
    have hcall : int15Handler ((calls i).ask (BitVec.ofNat 32 i)) s =
        .ok (((calls i).ask (BitVec.ofNat 32 i)).answer i es.length)
          (s.withBlock (calls i).buffer es[i].encode) :=
      int15Handler_entry hheld hseg hi rfl rfl (hbuffers i)
    have hread : load (s.withBlock (calls i).buffer es[i].encode).mem (calls i).buffer
        e820EntryBytes = es[i].encode := by
      have hlen : es[i].encode.length ≤ 2 ^ 32 := by
        rw [length_encode]
        decide
      have h := load_store s.mem (calls i).buffer hlen
      rwa [length_encode] at h
    have hpeek : peek (calls i).buffer e820EntryBytes (s.withBlock (calls i).buffer es[i].encode) =
        .ok es[i].encode (s.withBlock (calls i).buffer es[i].encode) := by
      rw [peek_apply, hread]
    have hdecode : E820Entry.decode es[i].encode = es[i] := decode_encode _
    have hdrop : es.drop i = es[i] :: es.drop (i + 1) := List.drop_eq_getElem_cons hi
    by_cases hlast : i + 1 < es.length
    · have hnext : (((calls i).ask (BitVec.ofNat 32 i)).answer i es.length).ebx =
          BitVec.ofNat 32 (i + 1) := if_pos hlast
      have hmore : BitVec.ofNat 32 (i + 1) ≠ 0#32 := by
        intro h
        have hnat := congrArg BitVec.toNat h
        rw [BitVec.toNat_ofNat, Nat.mod_eq_of_lt (by omega)] at hnat
        exact absurd hnat (Nat.succ_ne_zero i)
      have hheld' : MapHeld (s.withBlock (calls i).buffer es[i].encode).mem s.e820 es :=
        hheld.store (by omega) (by rw [length_encode]; exact hbuffers i)
      obtain ⟨s', hrest⟩ := ih (s := s.withBlock (calls i).buffer es[i].encode) hheld'
        ⟨hseg.aligned, hseg.below, hseg.fits, hseg.seg⟩ hbuffers hlast
      have hstep : queryAll calls (n + 1) i (BitVec.ofNat 32 i) s =
          .ok ((if es.length ≤ i + 1 + n then some (es.drop (i + 1)) else none).map
            (E820Entry.decode es[i].encode :: ·)) s' := by
        refine (StateRun.bind_of_ok hcall).trans ((StateRun.bind_of_ok hpeek).trans ?_)
        rw [if_neg (by rw [hnext]; exact hmore), hnext]
        exact StateRun.bind_of_ok hrest
      refine ⟨s', hstep.trans ?_⟩
      rw [hdecode, hdrop]
      by_cases henough : es.length ≤ i + 1 + n
      · rw [if_pos henough, if_pos (by omega)]
        rfl
      · rw [if_neg henough, if_neg (by omega)]
        rfl
    · have hnext : (((calls i).ask (BitVec.ofNat 32 i)).answer i es.length).ebx = 0#32 := if_neg hlast
      have hstep : queryAll calls (n + 1) i (BitVec.ofNat 32 i) s =
          .ok (some [E820Entry.decode es[i].encode]) (s.withBlock (calls i).buffer es[i].encode) := by
        refine (StateRun.bind_of_ok hcall).trans ((StateRun.bind_of_ok hpeek).trans ?_)
        rw [if_pos hnext]
        rfl
      have hnil : es.drop (i + 1) = [] := List.drop_eq_nil_of_le (by omega)
      exact ⟨_, by rw [hstep, hdecode, if_pos (by omega), hdrop, hnil]⟩

end Qboot
