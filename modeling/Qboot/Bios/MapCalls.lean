import Qboot.Bios.Services

/-!
A real-mode kernel that asks for the memory map with INT 15h, one entry with
each call. Every call goes through the vector table, saves the caller's
registers on its stack, lets the C handler change them, and returns.
-/

namespace Qboot

open Bytes ByteMemory

/-- Where a caller finds its entry. -/
def Cpu.buffer (c : Cpu) : BitVec 32 := segmentAddress c.ds c.edi

/-- A caller of INT 15h: its stack and its buffer are no part of the vector
table or of the map. -/
structure MapCaller (e820 : BitVec 32) (count : Nat) (scratch : List Byte) (c : Cpu) : Prop where
  room : scratch.length + 50 ≤ c.esp.toNat
  stack : c.esp.toNat < 2 ^ 16
  code : c.eip.toNat < 2 ^ 16
  segment : c.ds = c.ss
  stackVectors : Apart 0#32 0x400 (c.freeStack (scratch.length + 50)) (scratch.length + 50)
  stackMap : Apart e820 (4 + e820EntryBytes * count) (c.freeStack (scratch.length + 50))
    (scratch.length + 50)
  bufferVectors : Apart 0#32 0x400 c.buffer e820EntryBytes
  bufferMap : Apart e820 (4 + e820EntryBytes * count) c.buffer e820EntryBytes
  bufferStack : Apart (c.freeStack (scratch.length + 50)) (scratch.length + 50) c.buffer
    e820EntryBytes

/-- The registers with which a call asks. -/
def Cpu.ask (c : Cpu) (ebx : BitVec 32) : Cpu := { c with eax := 0xe820#32, ebx := ebx }

/-- The registers after the call for entry `i` of `count`. -/
def Cpu.told (c : Cpu) (i count : Nat) : Cpu :=
  { c with
    eax := SMAP
    ebx := if i + 1 < count then BitVec.ofNat 32 (i + 1) else 0#32
    ecx := BitVec.ofNat 32 e820EntryBytes
    eflags := c.eflags &&& 0xfffffffe#32 }

section Call

variable {labels : Labels} {scratch : List Byte} {m : Board} {es : List E820Entry} {i : Nat}

/-- One call delivers one entry, and changes no register but the answer's. -/
theorem interrupt_map (hplaced : labels.Placed)
    (htable : load m.fw.mem 0#32 0x400 = vectorTable labels)
    (hheld : MapHeld m.fw.mem m.fw.e820 es) (hseg : m.fw.TableInSegment es.length)
    (hcaller : MapCaller m.fw.e820 es.length scratch m.cpu) (hi : i < es.length)
    (heax : m.cpu.eax = 0xe820#32) (hebx : m.cpu.ebx = BitVec.ofNat 32 i) :
    ∃ block : List Byte, block.length = 50 ∧ interrupt labels scratch 0x15#8 m = .ok () { m with
      cpu := m.cpu.told i es.length
      fw := (m.fw.withBlock m.cpu.buffer es[i].encode).withBlock
        (m.cpu.freeStack (scratch.length + 50)) (scratch ++ block) } := by
  let n : Nat := scratch.length + 50
  let p : BitVec 32 := m.cpu.freeStack n
  have hfits : 4 + e820EntryBytes * es.length ≤ 0x10000 := hseg.fits
  have hbytes : e820EntryBytes = 20 := rfl
  have hroom := hcaller.room
  have hstack := hcaller.stack
  have hcall : m.MayCall n := ⟨hcaller.room, hcaller.stack, hcaller.code, hcaller.stackVectors⟩
  -- The frames of the C functions are one part of the stack, the saved registers the other.
  have hscratch : Apart m.fw.e820 (4 + e820EntryBytes * es.length) p scratch.length := by
    have hpart := hcaller.stackMap.symm.part (show 0 + scratch.length ≤ n by omega) (by omega)
    rw [BitVec.add_zero] at hpart
    exact hpart.symm
  have hregs {q : BitVec 32} {k : Nat} (h : Apart q k p n) : Apart q k (m.cpu.freeStack 50) 50 := by
    have hpart := h.symm.part (show n - 50 + 50 ≤ n by omega) (by omega)
    rw [freeStack_add m.cpu hroom (show 50 ≤ n by omega)] at hpart
    exact hpart.symm
  have hheld' : MapHeld (m.int15Fw scratch).mem m.fw.e820 es :=
    hheld.store (by omega) hscratch
  have hseg' : (m.int15Fw scratch).TableInSegment es.length :=
    ⟨hseg.aligned, hseg.below, hseg.fits, hseg.seg⟩
  have hbuffer : m.cpu.int15Args.buffer = m.cpu.buffer := by
    simp [Cpu.int15Args, SavedRegs.args, BiosRegs.buffer, Cpu.saved, Cpu.buffer]
  have hentry := @int15Handler_entry (m.int15Fw scratch) es m.cpu.int15Args i hheld' hseg' hi heax
    hebx (by rw [hbuffer]; exact hcaller.bufferMap)
  have hcomm : (m.int15Fw scratch).withBlock m.cpu.buffer es[i].encode =
      (m.fw.withBlock m.cpu.buffer es[i].encode).withBlock p scratch := by
    have happ : Apart p scratch.length m.cpu.buffer es[i].encode.length := by
      have hpart := hcaller.bufferStack.part (show 0 + scratch.length ≤ n by omega) (by omega)
      rw [BitVec.add_zero] at hpart
      rw [length_encode]
      exact hpart
    exact congrArg (fun mem => { m.fw with mem := mem }) (store_comm m.fw.mem happ)
  rw [hbuffer, hcomm] at hentry
  have happ : HandlerApart (m.int15Fw scratch) m.cpu.int15Args (m.cpu.freeStack 50) 50 := by
    have haddr (offset : BitVec 32) :
        segmentAddress (m.int15Fw scratch).e820Seg offset = m.fw.e820 + offset :=
      segmentAddress_e820Seg hseg' offset
    have hmap := hregs hcaller.stackMap
    refine ⟨?_, ?_, ?_⟩
    · have hpart := hmap.part (show 0 + 4 ≤ 4 + e820EntryBytes * es.length by omega) (by omega)
      rw [haddr]
      exact hpart.symm
    · have hpart := hmap.part
        (show 4 + e820EntryBytes * i + e820EntryBytes ≤ 4 + e820EntryBytes * es.length by
          rw [hbytes]
          omega) (by omega)
      have hebx' : m.cpu.int15Args.ebx = BitVec.ofNat 32 i := hebx
      rw [haddr, hebx']
      rw [BitVec.ofNat_add, BitVec.ofNat_mul] at hpart
      exact hpart.symm
    · rw [hbuffer]
      exact (hregs hcaller.bufferStack.symm).symm
  have hvec : labels.handler (0x15#8).toNat = labels.biosInt15 := rfl
  obtain ⟨block, hblock, hrun⟩ := @interrupt_int15 _ _ 0x15#8 _ _ _ hplaced htable hcall
    hcaller.segment hvec hentry (fun _ => happ)
  refine ⟨block, hblock, hrun.trans ?_⟩
  have hflags : withLowHalf m.cpu.eflags (m.cpu.eflags.setWidth 16 &&& 0xfffe#16) =
      m.cpu.eflags &&& 0xfffffffe#32 := flags_clear m.cpu.eflags
  rw [Cpu.told, ← hflags]
  rfl

end Call

/-! ### The whole map -/

/-- The loop of a kernel: call after call with the EBX that the call before
returned, until it is zero or a call fails. `calls k` are its other registers
in call `k`. With each entry it has the registers after the call. -/
def queryBios (labels : Labels) (scratch : List Byte) (calls : Nat → Cpu) :
    Nat → Nat → BitVec 32 → Asm (Option (List (E820Entry × Cpu)))
  | 0, _, _ => pure none
  | n + 1, k, ebx => do
    modify fun m => { m with cpu := (calls k).ask ebx }
    interrupt labels scratch 0x15#8
    let m ← get
    if m.cpu.eflags.getLsbD 0 = true ∨ m.cpu.eax ≠ SMAP then pure none
    else do
      let entry := E820Entry.decode (load m.fw.mem (calls k).buffer e820EntryBytes)
      if m.cpu.ebx = 0#32 then pure (some [(entry, m.cpu)])
      else do
        let rest ← queryBios labels scratch calls n (k + 1) m.cpu.ebx
        pure (rest.map ((entry, m.cpu) :: ·))

/-- The entries one by one, each with the registers of the call that gets it. -/
def mapAnswers (calls : Nat → Cpu) (es : List E820Entry) : List (E820Entry × Cpu) :=
  es.mapIdx fun i e => (e, (calls i).told i es.length)

/-- Memory that no call has to do with. -/
def OutsideCalls (scratch : List Byte) (calls : Nat → Cpu) (a : BitVec 32) : Prop :=
  ∀ k, ¬ Within (calls k).buffer e820EntryBytes a ∧
    ¬ Within ((calls k).freeStack (scratch.length + 50)) (scratch.length + 50) a

/-- What a kernel relies on from call to call. -/
structure MapServed (labels : Labels) (m : Board) (es : List E820Entry) : Prop where
  vectors : load m.fw.mem 0#32 0x400 = vectorTable labels
  map : MapHeld m.fw.mem m.fw.e820 es
  segment : m.fw.TableInSegment es.length

section Query

variable {labels : Labels} {scratch : List Byte} {m : Board} {es : List E820Entry} {i : Nat}

/-- A call leaves the vectors and the map where they are. -/
theorem MapServed.called (h : MapServed labels m es)
    (hcaller : MapCaller m.fw.e820 es.length scratch m.cpu) {bs : List Byte}
    (hbs : bs.length = scratch.length + 50) {entry : List Byte}
    (hentry : entry.length = e820EntryBytes) (cpu : Cpu) :
    MapServed labels { m with
      cpu := cpu
      fw := (m.fw.withBlock m.cpu.buffer entry).withBlock
        (m.cpu.freeStack (scratch.length + 50)) bs } es where
  vectors := by
    have hstack := load_store_outside (store m.fw.mem m.cpu.buffer entry)
      (show 0x400 ≤ 2 ^ 32 by decide) (by rw [hbs]; exact hcaller.stackVectors)
    have hbuffer := load_store_outside m.fw.mem (show 0x400 ≤ 2 ^ 32 by decide)
      (by rw [hentry]; exact hcaller.bufferVectors)
    exact hstack.trans (hbuffer.trans h.vectors)
  map := by
    have hfits : 4 + e820EntryBytes * es.length ≤ 0x10000 := h.segment.fits
    have hbuffer := h.map.store (by omega) (by rw [hentry]; exact hcaller.bufferMap)
    exact hbuffer.store (by omega) (by rw [hbs]; exact hcaller.stackMap)
  segment := ⟨h.segment.aligned, h.segment.below, h.segment.fits, h.segment.seg⟩

theorem load_buffer (hcaller : MapCaller m.fw.e820 es.length scratch m.cpu) {bs entry : List Byte}
    (hbs : bs.length = scratch.length + 50) (hentry : entry.length = e820EntryBytes) :
    load ((m.fw.withBlock m.cpu.buffer entry).withBlock
      (m.cpu.freeStack (scratch.length + 50)) bs).mem m.cpu.buffer e820EntryBytes = entry := by
  have hstack := load_store_outside (store m.fw.mem m.cpu.buffer entry)
    (show e820EntryBytes ≤ 2 ^ 32 by decide) (by rw [hbs]; exact hcaller.bufferStack.symm)
  have hown := @load_store 32 m.fw.mem m.cpu.buffer entry (by rw [hentry]; decide)
  rw [hentry] at hown
  exact hstack.trans hown

/-- One call of a kernel that asks for entry `i`. -/
theorem MapServed.call (h : MapServed labels m es) (hplaced : labels.Placed) {c : Cpu}
    (hcaller : MapCaller m.fw.e820 es.length scratch c) (hi : i < es.length) :
    ∃ told : Board, interrupt labels scratch 0x15#8 { m with cpu := c.ask (BitVec.ofNat 32 i) } =
        .ok () told ∧
      told.cpu = c.told i es.length ∧ told.ports = m.ports ∧ told.fw.e820 = m.fw.e820 ∧
      MapServed labels told es ∧
      E820Entry.decode (load told.fw.mem c.buffer e820EntryBytes) = es[i] ∧
      ∀ a, ¬ Within c.buffer e820EntryBytes a →
        ¬ Within (c.freeStack (scratch.length + 50)) (scratch.length + 50) a →
        told.fw.mem a = m.fw.mem a := by
  let asking : Board := { m with cpu := c.ask (BitVec.ofNat 32 i) }
  have hserved : MapServed labels asking es := ⟨h.vectors, h.map, h.segment⟩
  have hasking : MapCaller asking.fw.e820 es.length scratch asking.cpu :=
    ⟨hcaller.room, hcaller.stack, hcaller.code, hcaller.segment, hcaller.stackVectors,
      hcaller.stackMap, hcaller.bufferVectors, hcaller.bufferMap, hcaller.bufferStack⟩
  obtain ⟨block, hblock, hcall⟩ :=
    interrupt_map hplaced hserved.vectors hserved.map hserved.segment hasking hi rfl rfl
  have hbs : (scratch ++ block).length = scratch.length + 50 := by
    rw [List.length_append, hblock]
  refine ⟨_, hcall, rfl, rfl, rfl, hserved.called hasking hbs (length_encode _) _, ?_, ?_⟩
  · have hload := load_buffer hasking hbs (length_encode es[i])
    exact (congrArg E820Entry.decode hload).trans (decode_encode _)
  · intro a hbuffer hstack
    have hstack' : ¬ Within (asking.cpu.freeStack (scratch.length + 50))
        (scratch ++ block).length a := by
      rw [hbs]
      exact hstack
    have hbuffer' : ¬ Within asking.cpu.buffer es[i].encode.length a := by
      rw [length_encode]
      exact hbuffer
    exact (store_of_not_within _ hstack').trans (store_of_not_within _ hbuffer')

theorem told_carry (c : Cpu) (i count : Nat) : (c.told i count).eflags.getLsbD 0 = false := by
  change (c.eflags &&& 0xfffffffe#32).getLsbD 0 = false
  rw [BitVec.getLsbD_and]
  exact Bool.and_false _

/-- Before the last entry the caller is told to go on. -/
theorem told_more (c : Cpu) {i count : Nat} (hi : i + 1 < count) (hcount : count < 2 ^ 32) :
    (c.told i count).ebx = BitVec.ofNat 32 (i + 1) ∧ (c.told i count).ebx ≠ 0#32 := by
  have hebx : (c.told i count).ebx = BitVec.ofNat 32 (i + 1) := if_pos hi
  refine ⟨hebx, ?_⟩
  rw [hebx]
  intro h
  have hnat := congrArg BitVec.toNat h
  rw [BitVec.toNat_ofNat, Nat.mod_eq_of_lt (by omega)] at hnat
  exact absurd hnat (Nat.succ_ne_zero i)

theorem mapAnswers_drop (calls : Nat → Cpu) (hi : i < es.length) :
    (mapAnswers calls es).drop i =
      (es[i], (calls i).told i es.length) :: (mapAnswers calls es).drop (i + 1) := by
  have hlt : i < (mapAnswers calls es).length := by rwa [mapAnswers, List.length_mapIdx]
  rw [List.drop_eq_getElem_cons hlt]
  simp only [mapAnswers, List.getElem_mapIdx]

/-- From entry `i` on a kernel gets the rest of the map, and the vectors and the
map are still there. -/
theorem queryBios_apply {calls : Nat → Cpu} (hplaced : labels.Placed) {e820 : BitVec 32}
    (hcalls : ∀ k, MapCaller e820 es.length scratch (calls k)) (n : Nat)
    (hserved : MapServed labels m es) (he820 : m.fw.e820 = e820) (hi : i < es.length) :
    ∃ m', queryBios labels scratch calls n i (BitVec.ofNat 32 i) m =
        .ok (if es.length ≤ i + n then some ((mapAnswers calls es).drop i) else none) m' ∧
      MapServed labels m' es ∧ m'.ports = m.ports ∧
      ∀ a, OutsideCalls scratch calls a → m'.fw.mem a = m.fw.mem a := by
  have hfits : 4 + 20 * es.length ≤ 0x10000 := hserved.segment.fits
  induction n generalizing i m with
  | zero =>
    refine ⟨m, ?_, hserved, rfl, fun _ _ => rfl⟩
    rw [if_neg (by omega)]
    rfl
  | succ n ih =>
    obtain ⟨told, hcall, hcpu, hports, htold, hafter, hread, hframe⟩ :=
      hserved.call hplaced (he820 ▸ hcalls i) hi
    have hcarry : ¬ (told.cpu.eflags.getLsbD 0 = true ∨ told.cpu.eax ≠ SMAP) := by
      rw [hcpu, told_carry]
      exact not_or.mpr ⟨Bool.false_ne_true, not_not_intro rfl⟩
    have hsame : ∀ a, OutsideCalls scratch calls a → told.fw.mem a = m.fw.mem a :=
      fun a ha => hframe a (ha i).1 (ha i).2
    rw [queryBios, StateRun.bind_of_ok (StateRun.modify_apply _ m)]
    by_cases hlast : i + 1 < es.length
    · obtain ⟨hebx, hmore⟩ := told_more (calls i) hlast (by omega)
      rw [← hcpu] at hebx hmore
      obtain ⟨m', hrest, hserved', hports', hkept⟩ := ih hafter (htold.trans he820) hlast
      refine ⟨m', ?_, hserved', hports'.trans hports, fun a ha => (hkept a ha).trans (hsame a ha)⟩
      refine (StateRun.bind_of_ok hcall).trans
        ((StateRun.bind_of_ok (StateRun.get_apply _)).trans ?_)
      rw [if_neg hcarry, if_neg hmore, hread, hebx]
      refine (StateRun.bind_of_ok hrest).trans ?_
      rw [mapAnswers_drop calls hi, hcpu]
      by_cases henough : es.length ≤ i + 1 + n
      · rw [if_pos henough, if_pos (by omega)]
        rfl
      · rw [if_neg henough, if_neg (by omega)]
        rfl
    · have hebx : told.cpu.ebx = 0#32 := by
        rw [hcpu]
        exact if_neg hlast
      have hnone : (mapAnswers calls es).drop (i + 1) = [] := by
        apply List.drop_eq_nil_of_le
        rw [mapAnswers, List.length_mapIdx]
        omega
      refine ⟨told, ?_, hafter, hports, hsame⟩
      refine (StateRun.bind_of_ok hcall).trans
        ((StateRun.bind_of_ok (StateRun.get_apply _)).trans ?_)
      rw [if_neg hcarry, if_pos hebx, hread, if_pos (by omega), mapAnswers_drop calls hi, hnone,
        hcpu]
      rfl

end Query

/-- A real-mode kernel that finds its stack and its buffer gets the entries in
order, is told to stop after the last one, and has its registers as they were
but for the answers. Nothing outside its buffers and the free part of its stack
changes. -/
theorem int15_delivers {labels : Labels} {scratch : List Byte} {m : Board} {es : List E820Entry}
    {calls : Nat → Cpu} (hplaced : labels.Placed) (hserved : MapServed labels m es)
    (hmap : 1 ≤ es.length) (hcalls : ∀ k, MapCaller m.fw.e820 es.length scratch (calls k))
    (n : Nat) :
    ∃ m', queryBios labels scratch calls n 0 0#32 m =
        .ok (if es.length ≤ n then some (mapAnswers calls es) else none) m' ∧
      MapServed labels m' es ∧ m'.ports = m.ports ∧
      ∀ a, OutsideCalls scratch calls a → m'.fw.mem a = m.fw.mem a := by
  obtain ⟨m', hrun, hserved', hports, hkept⟩ :=
    queryBios_apply hplaced hcalls n hserved rfl hmap
  rw [Nat.zero_add, List.drop_zero] at hrun
  exact ⟨m', hrun, hserved', hports, hkept⟩

/-- The machine with three entries in its map, after `setup_idt`. -/
def mapBoard : Board where
  cpu := realModeCpu 0#32
  fw := (handoverMachine handoverMap 0xdff80#32).withBlock 0#32 (vectorTable entryLabels)
  ports := []

theorem mapBoard_served : MapServed entryLabels mapBoard handoverMap where
  vectors := load_vectorTable entryLabels (handoverMachine handoverMap 0xdff80#32).mem
  map := by
    have hheld := @handoverMachine_held handoverMap (by decide) 0xdff80#32
    apply hheld.store (by decide)
    rw [length_vectorTable]
    exact (apart_of_le (by decide) (by decide)).symm
  segment := by
    have h := @handoverMachine_segment handoverMap (by decide) 0xdff80#32
    exact ⟨h.aligned, h.below, h.fits, h.seg⟩

/-- A kernel with two buffers that it uses in turn. -/
def mapCaller (k : Nat) : Cpu :=
  { realModeCpu 0#32 with edi := if k % 2 = 0 then 0x9000#32 else 0x9014#32 }

theorem mapCaller_apart (k : Nat) :
    MapCaller mapBoard.fw.e820 handoverMap.length [] (mapCaller k) := by
  rw [mapCaller]
  split
  all_goals
    refine ⟨by decide, by decide, by decide, rfl, ?_, ?_, ?_, ?_, ?_⟩
    · exact apart_of_le (by decide) (by decide)
    · exact (apart_of_le (by decide) (by decide)).symm
    · exact apart_of_le (by decide) (by decide)
    · exact (apart_of_le (by decide) (by decide)).symm
    · exact apart_of_le (by decide) (by decide)

/-- The kernel calls three times, with the EBX of the call before, and may call
once more. -/
theorem int15_delivers_three : ∃ m', queryBios entryLabels [] mapCaller 4 0 0#32 mapBoard =
    .ok (some (mapAnswers mapCaller handoverMap)) m' := by
  obtain ⟨m', hrun, -⟩ := @int15_delivers entryLabels [] mapBoard handoverMap mapCaller
    entryLabels_placed mapBoard_served (by decide) mapCaller_apart 4
  exact ⟨m', hrun⟩

end Qboot
