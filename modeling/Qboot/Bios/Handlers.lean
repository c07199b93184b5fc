import Qboot.Bios.Returns
import Qboot.Handover

/-!
The C handlers of code16.c work on the saved registers in memory. They do what
the handler does that takes the registers as values, as long as the saved
registers are no part of the memory map or of the caller's buffer.
-/

namespace Qboot

open Bytes ByteMemory

/-! ### Fields of the saved registers -/

section Fields

variable {f : SavedRegs} {ip cs flags : BitVec 16} (s : Firmware) (p : BitVec 32)

theorem ldlP_biosregs {i : Nat} {v : BitVec 32} (hv : f.words[i]? = some v.toNat) :
    ldlP (p + BitVec.ofNat 32 (4 * i)) (s.withBlock p (f.biosregs ip cs flags)) =
      .ok v (s.withBlock p (f.biosregs ip cs flags)) := by
  obtain ⟨hi, hget⟩ := List.getElem?_eq_some_iff.mp hv
  have hload := @load_word _ 4 i f.words s.mem p (returnFrame ip cs flags) hi (by
    change 4 * 11 + 6 ≤ 2 ^ 32
    decide)
  rw [hget] at hload
  rw [ldlP, StateRun.bind_of_ok (peek_apply _ _ _)]
  exact congrArg (fun bs => EStateM.Result.ok (BitVec.ofNat 32 (ofLE bs))
    (s.withBlock p (f.biosregs ip cs flags))) hload |>.trans (by rw [ofNat_ofLE_toLE 4 v])

theorem stlP_biosregs {i : Nat} (v : BitVec 32) {f' : SavedRegs} (hi : i < 11)
    (hf : f.words.set i v.toNat = f'.words) :
    stlP (p + BitVec.ofNat 32 (4 * i)) v (s.withBlock p (f.biosregs ip cs flags)) =
      .ok () (s.withBlock p (f'.biosregs ip cs flags)) := by
  have hstore := @store_word _ 4 i f.words s.mem p (returnFrame ip cs flags) hi (by
    change 4 * 11 + 6 ≤ 2 ^ 32
    decide) v.toNat
  rw [hf] at hstore
  rw [stlP, poke_apply]
  exact congrArg (fun m => EStateM.Result.ok () { s with mem := m }) hstore

theorem lduwP_eflags :
    lduwP (p + 48#32) (s.withBlock p (f.biosregs ip cs flags)) =
      .ok flags (s.withBlock p (f.biosregs ip cs flags)) := by
  have hlen : (f.biosregs ip cs flags).length = 50 := length_biosregs f ip cs flags
  have hload := @load_withBlock s p (f.biosregs ip cs flags) 48 2 (by omega) (by omega)
  have hsplit : f.biosregs ip cs flags =
      (wordBytes 4 f.words ++ (toLE 2 ip.toNat ++ toLE 2 cs.toNat)) ++ toLE 2 flags.toNat := by
    rw [SavedRegs.biosregs, returnFrame_eq]
    simp only [List.append_assoc]
  have hslice : slice (f.biosregs ip cs flags) 48 2 = toLE 2 flags.toNat := by
    rw [hsplit]
    exact slice_append_right _ (toLE 2 flags.toNat)
  rw [lduwP, StateRun.bind_of_ok (peek_apply _ _ _)]
  rw [hslice] at hload
  exact congrArg (fun bs => EStateM.Result.ok (BitVec.ofNat 16 (ofLE bs))
    (s.withBlock p (f.biosregs ip cs flags))) hload |>.trans (by rw [ofNat_ofLE_half])

theorem stwP_eflags (flags' : BitVec 16) :
    stwP (p + 48#32) (flags'.setWidth 32) (s.withBlock p (f.biosregs ip cs flags)) =
      .ok () (s.withBlock p (f.biosregs ip cs flags')) := by
  have hlen : (f.biosregs ip cs flags).length = 50 := length_biosregs f ip cs flags
  have hval : (flags'.setWidth 32).toNat = flags'.toNat := by
    rw [BitVec.toNat_setWidth]
    omega
  have hpatch : patch (f.biosregs ip cs flags) 48 (toLE 2 flags'.toNat) =
      f.biosregs ip cs flags' := by
    have hright := patch_append_right (wordBytes 4 f.words ++ (toLE 2 ip.toNat ++ toLE 2 cs.toNat))
      (toLE 2 flags.toNat) (toLE 2 flags'.toNat) 0
    simp only [SavedRegs.biosregs, returnFrame_eq, List.append_assoc] at hright ⊢
    exact hright
  have hstore := @poke_withBlock s p (f.biosregs ip cs flags) 48 (toLE 2 flags'.toNat)
    (by rw [length_toLE]; omega) (by omega)
  rw [hpatch] at hstore
  rw [stwP, hval]
  exact hstore

end Fields

/-! ### INT 15h -/

/-- The saved registers as the handler sees them. -/
def SavedRegs.args (f : SavedRegs) (ds flags : BitVec 16) : BiosRegs where
  eax := f.eax
  ebx := f.ebx
  ecx := f.ecx
  edi := f.edi
  ds := ds.setWidth 32
  eflags := flags

/-- The saved registers after the handler has changed them. -/
def SavedRegs.withArgs (f : SavedRegs) (regs : BiosRegs) : SavedRegs :=
  { f with eax := regs.eax, ebx := regs.ebx, ecx := regs.ecx }

/-- The handler neither reads nor writes the block at `q`. -/
structure HandlerApart (s : Firmware) (regs : BiosRegs) (q : BitVec 32) (n : Nat) : Prop where
  count : Apart q n (segmentAddress s.e820Seg 0#32) 4
  entry : Apart q n (segmentAddress s.e820Seg
    (4#32 + BitVec.ofNat 32 e820EntryBytes * regs.ebx)) e820EntryBytes
  buffer : Apart q n regs.buffer e820EntryBytes

/-- Copying an entry does not see a block that it does not meet. -/
theorem copyEntry_withBlock {fs ds : BitVec 16} {start p q : BitVec 32} {bs : List Byte} {n : Nat}
    (hn : n ≤ 2 ^ 32) (hsource : Apart q bs.length (segmentAddress fs start) n)
    (hdest : Apart q bs.length (segmentAddress ds p) n) (s : Firmware) :
    copyEntry fs ds start p n (s.withBlock q bs) =
      StateRun.mapState (fun t => t.withBlock q bs) (copyEntry fs ds start p n s) := by
  induction n generalizing start p s with
  | zero => rfl
  | succ n ih =>
    have hnext (seg : BitVec 16) (a : BitVec 32) :
        segmentAddress seg (a + 1#32) = segmentAddress seg a + BitVec.ofNat 32 1 := by
      simp only [segmentAddress]
      ring
    have hrest {a : BitVec 32} (h : Apart q bs.length a (n + 1)) :
        Apart q bs.length (a + BitVec.ofNat 32 1) n :=
      (h.symm.part (Nat.add_comm 1 n).le hn).symm
    have hfirst {a : BitVec 32} (h : Apart q bs.length a (n + 1)) : Apart q bs.length a 1 := by
      have hpart := h.symm.part (show 0 + 1 ≤ n + 1 by omega) hn
      rw [BitVec.add_zero] at hpart
      exact hpart.symm
    have hread (t : Firmware) :
        rdfs8 fs start t = .ok (t.mem (segmentAddress fs start)) t := by
      rw [rdfs8, StateRun.bind_of_ok (peek_apply _ _ t)]
      simp [load, ofLE]
    have hsame : (s.withBlock q bs).mem (segmentAddress fs start) =
        s.mem (segmentAddress fs start) := by
      have h := load_store_outside s.mem (by decide : 1 ≤ 2 ^ 32) (hfirst hsource).symm
      simpa [load, Firmware.withBlock] using h
    have hpoke (b : Byte) : poke (segmentAddress ds p) [b] (s.withBlock q bs) =
        .ok () ((s.withBlock (segmentAddress ds p) [b]).withBlock q bs) := by
      have hcomm := @store_comm _ s.mem (segmentAddress ds p) q [b] bs (hfirst hdest).symm
      rw [poke_apply]
      exact congrArg (fun m => EStateM.Result.ok () { s with mem := m }) hcomm.symm
    rw [copyEntry, StateRun.bind_of_ok (hread _), hsame, StateRun.bind_of_ok (hpoke _),
      ih (by omega) (by rw [hnext]; exact hrest hsource) (by rw [hnext]; exact hrest hdest),
      StateRun.bind_of_ok (hread s), StateRun.bind_of_ok (poke_apply _ _ s)]
    rfl

section Int15

variable {f : SavedRegs} {ds ip cs flags : BitVec 16} {args : BitVec 32} {s s' : Firmware}
  {regs : BiosRegs}

/-- Copying an entry always comes to an end. -/
theorem copyEntry_returns (fs ds : BitVec 16) (start p : BitVec 32) (n : Nat) (s : Firmware) :
    ∃ t, copyEntry fs ds start p n s = .ok () t := by
  induction n generalizing start p s with
  | zero => exact ⟨s, rfl⟩
  | succ n ih => exact ih (start + 1#32) (p + 1#32) _

/-- The registers with the answer, if the map has `mapSize` entries. -/
def BiosRegs.answered (regs : BiosRegs) (mapSize : BitVec 32) : BiosRegs :=
  { regs with
    eax := SMAP
    ecx := BitVec.ofNat 32 e820EntryBytes
    ebx := if regs.ebx + 1#32 ≥ mapSize then 0#32 else regs.ebx + 1#32 }

theorem e820QueryMap_apply {regs : BiosRegs} {t : Firmware} {mapSize : BitVec 32}
    (hsize : rdfs32 s.e820Seg 0#32 s = .ok mapSize s)
    (hcopy : regs.ebx < mapSize → copyEntry s.e820Seg (regs.ds.setWidth 16)
      (4#32 + BitVec.ofNat 32 e820EntryBytes * regs.ebx) regs.edi e820EntryBytes s = .ok () t)
    (hend : ¬ regs.ebx < mapSize → s = t) :
    e820QueryMap regs s = .ok (regs.answered mapSize) t := by
  rw [e820QueryMap, StateRun.bind_of_ok (StateRun.get_apply s)]
  refine (StateRun.bind_of_ok hsize).trans ?_
  by_cases hlt : regs.ebx < mapSize
  · rw [if_pos hlt]
    exact StateRun.bind_of_ok (hcopy hlt)
  · rw [if_neg hlt, ← hend hlt]
    rfl

/-- The end of `e820_query_map`, which tells the caller where to go on. -/
theorem storeAnswer_biosregs (p ndx mapSize : BitVec 32) :
    (do
      stlP p SMAP
      stlP (p + 8#32) (BitVec.ofNat 32 e820EntryBytes)
      stlP (p + 4#32) (ndx + 1#32)
      if ndx + 1#32 ≥ mapSize then
        stlP (p + 4#32) 0#32 : Fw Unit) (s.withBlock p (f.biosregs ip cs flags)) =
      .ok () (s.withBlock p ({ f with
        eax := SMAP
        ecx := BitVec.ofNat 32 e820EntryBytes
        ebx := if ndx + 1#32 ≥ mapSize then 0#32 else ndx + 1#32 }.biosregs ip cs flags)) := by
  let f1 : SavedRegs := { f with eax := SMAP }
  let f2 : SavedRegs := { f1 with ecx := BitVec.ofNat 32 e820EntryBytes }
  let f3 : SavedRegs := { f2 with ebx := ndx + 1#32 }
  have heax := @stlP_biosregs f ip cs flags s p 0 SMAP f1 (by decide) rfl
  rw [Nat.mul_zero, BitVec.add_zero] at heax
  have hecx := @stlP_biosregs f1 ip cs flags s p 2 (BitVec.ofNat 32 e820EntryBytes) f2
    (by decide) rfl
  have hebx := @stlP_biosregs f2 ip cs flags s p 1 (ndx + 1#32) f3 (by decide) rfl
  have hend := @stlP_biosregs f3 ip cs flags s p 1 0#32 { f3 with ebx := 0#32 } (by decide) rfl
  rw [StateRun.bind_of_ok heax]
  refine (StateRun.bind_of_ok hecx).trans ((StateRun.bind_of_ok hebx).trans ?_)
  split
  · exact hend
  · rfl

theorem segmentAddress_add (ds : BitVec 16) (args k : BitVec 32) :
    segmentAddress ds (args + k) = segmentAddress ds args + k := by
  simp only [segmentAddress]
  ring

theorem e820QueryMapAt_refines (hrun : e820QueryMap (f.args ds flags) s = .ok regs s')
    (happ : HandlerApart s (f.args ds flags) (segmentAddress ds args) 50) :
    e820QueryMapAt ds args (s.withBlock (segmentAddress ds args) (f.biosregs ip cs flags)) =
      .ok () (s'.withBlock (segmentAddress ds args)
        ((f.withArgs regs).biosregs ip cs regs.eflags)) := by
  generalize hp : segmentAddress ds args = p at happ ⊢
  let bs : List Byte := f.biosregs ip cs flags
  have hlen : bs.length = 50 := length_biosregs f ip cs flags
  have hebx := @ldlP_biosregs f ip cs flags s p 1 f.ebx rfl
  have hedi := @ldlP_biosregs f ip cs flags s p 7 f.edi rfl
  obtain ⟨mapSize, hsize, hsizeAt⟩ : ∃ mapSize, rdfs32 s.e820Seg 0#32 s = .ok mapSize s ∧
      rdfs32 s.e820Seg 0#32 (s.withBlock p bs) = .ok mapSize (s.withBlock p bs) := by
    have hcount : load (store s.mem p bs) (segmentAddress s.e820Seg 0#32) 4 =
        load s.mem (segmentAddress s.e820Seg 0#32) 4 :=
      load_store_outside s.mem (by decide) (by rw [hlen]; exact happ.count.symm)
    exact ⟨_, rfl, congrArg (fun b =>
      EStateM.Result.ok (BitVec.ofNat 32 (ofLE b)) (s.withBlock p bs)) hcount⟩
  have hds : (f.args ds flags).ds.setWidth 16 = ds := by
    simp [SavedRegs.args]
  obtain ⟨t, hcopy⟩ := copyEntry_returns s.e820Seg ds
    (4#32 + BitVec.ofNat 32 e820EntryBytes * f.ebx) f.edi e820EntryBytes s
  have hcopyAt : copyEntry s.e820Seg ds (4#32 + BitVec.ofNat 32 e820EntryBytes * f.ebx) f.edi
      e820EntryBytes (s.withBlock p bs) = .ok () (t.withBlock p bs) := by
    have hbuffer := happ.buffer
    rw [BiosRegs.buffer, hds] at hbuffer
    rw [copyEntry_withBlock (by decide) (by rw [hlen]; exact happ.entry)
      (by rw [hlen]; exact hbuffer) s, hcopy]
    rfl
  have hseg : (s.withBlock p bs).e820Seg = s.e820Seg := rfl
  rw [e820QueryMapAt, StateRun.bind_of_ok (StateRun.get_apply _)]
  simp only [segmentAddress_add, hp]
  rw [StateRun.bind_of_ok hebx, hseg, StateRun.bind_of_ok hsizeAt]
  by_cases hlt : f.ebx < mapSize
  · have hvalue : e820QueryMap (f.args ds flags) s = .ok ((f.args ds flags).answered mapSize) t :=
      e820QueryMap_apply hsize (fun _ => by rw [hds]; exact hcopy) (fun h => absurd hlt h)
    rw [if_pos hlt, StateRun.bind_of_ok hedi, StateRun.bind_of_ok hcopyAt]
    obtain ⟨rfl, rfl⟩ := EStateM.Result.ok.inj (hvalue.symm.trans hrun)
    exact storeAnswer_biosregs p f.ebx mapSize
  · have hvalue : e820QueryMap (f.args ds flags) s = .ok ((f.args ds flags).answered mapSize) s :=
      e820QueryMap_apply hsize (fun h => absurd h hlt) (fun _ => rfl)
    rw [if_neg hlt]
    obtain ⟨rfl, rfl⟩ := EStateM.Result.ok.inj (hvalue.symm.trans hrun)
    exact storeAnswer_biosregs p f.ebx mapSize

/-- On saved registers in memory the handler does what it does on values. -/
theorem int15HandlerAt_refines
    (hrun : int15Handler (f.args ds flags) s = .ok regs s')
    (happ : f.eax = 0xe820#32 → HandlerApart s (f.args ds flags) (segmentAddress ds args) 50) :
    int15HandlerAt ds args (s.withBlock (segmentAddress ds args) (f.biosregs ip cs flags)) =
      .ok () (s'.withBlock (segmentAddress ds args)
        ((f.withArgs regs).biosregs ip cs regs.eflags)) := by
  let p : BitVec 32 := segmentAddress ds args
  have heax := @ldlP_biosregs f ip cs flags s p 0 f.eax rfl
  rw [Nat.mul_zero, BitVec.add_zero] at heax
  rw [int15HandlerAt, StateRun.bind_of_ok heax]
  rw [int15Handler] at hrun
  by_cases hservice : f.eax = 0xe820#32
  · rw [if_pos hservice]
    rw [if_pos (show (f.args ds flags).eax = 0xe820#32 from hservice)] at hrun
    exact e820QueryMapAt_refines hrun (happ hservice)
  · have hflags := @lduwP_eflags f ip cs flags s p
    have hstore := @stwP_eflags f ip cs flags s p (flags ||| X86_EFLAGS_CF)
    rw [if_neg hservice, segmentAddress_add, StateRun.bind_of_ok hflags]
    rw [if_neg (show ¬ (f.args ds flags).eax = 0xe820#32 from hservice)] at hrun
    obtain ⟨rfl, rfl⟩ :
        { f.args ds flags with eflags := flags ||| X86_EFLAGS_CF } = regs ∧ s = s' := by
      injection hrun with hregs hs
      exact ⟨hregs, hs⟩
    exact hstore

end Int15

/-! ### INT 10h -/

/-- `ah` of the handler. -/
def int10Service (eax : BitVec 32) : BitVec 32 := (eax &&& 0xff00#32) >>> 8

/-- EAX after INT 10h: VESA calls fail. -/
def int10Eax (eax : BitVec 32) : BitVec 32 :=
  if int10Service eax = 0x4f#32 then VBE_STATUS_FAIL else eax

/-- What INT 10h sends: characters go to the serial line. -/
def int10Sent (eax : BitVec 32) : List (BitVec 16 × Byte) :=
  if int10Service eax = 0x0e#32 then [(0x3f8#16, eax.setWidth 8)] else []

theorem int10HandlerAt_apply {m : Board} {k : Nat} {scratch : List Byte} {s : Firmware}
    {f : SavedRegs} {ip cs flags : BitVec 16} (hds : m.cpu.ds = m.cpu.ss) :
    int10HandlerAt m.cpu.ds (BitVec.ofNat 32 k)
        (m.inHandler k scratch s (f.biosregs ip cs flags)) =
      .ok () { m.inHandler k scratch s ({ f with eax := int10Eax f.eax }.biosregs ip cs flags) with
        ports := m.ports ++ int10Sent f.eax } := by
  let p : BitVec 32 := m.cpu.stackBase .real + BitVec.ofNat 32 k
  let t : Firmware :=
    s.withBlock (m.cpu.stackBase .real + BitVec.ofNat 32 (k - scratch.length)) scratch
  have hp : segmentAddress m.cpu.ds (BitVec.ofNat 32 k) = p := by
    simp only [p, hds, Cpu.stackBase, segmentAddress, BitVec.add_zero]
  have hload := @ldlP_biosregs f ip cs flags t p 0 f.eax rfl
  have hstore := @stlP_biosregs f ip cs flags t p 0 VBE_STATUS_FAIL
    { f with eax := VBE_STATUS_FAIL } (by decide) rfl
  rw [Nat.mul_zero, BitVec.add_zero] at hload hstore
  rw [int10HandlerAt, hp,
    StateRun.bind_of_ok (callFw_ok (m := m.inHandler k scratch s (f.biosregs ip cs flags)) hload)]
  by_cases hchar : int10Service f.eax = 0x0e#32
  · have hvesa : int10Service f.eax ≠ 0x4f#32 := by
      rw [hchar]
      decide
    rw [int10Eax, int10Sent, if_neg hvesa, if_pos hchar]
    exact congrFun (if_pos hchar) _
  · rw [int10Sent, if_neg hchar, List.append_nil, int10Eax]
    refine (congrFun (if_neg hchar) _).trans ?_
    by_cases hvesa : int10Service f.eax = 0x4f#32
    · rw [if_pos hvesa]
      refine (congrFun (if_pos hvesa) _).trans ?_
      exact callFw_ok (m := m.inHandler k scratch s (f.biosregs ip cs flags)) hstore
    · rw [if_neg hvesa]
      exact congrFun (if_neg hvesa) _

end Qboot
