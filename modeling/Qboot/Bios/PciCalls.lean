import Qboot.Bios.Bios32
import Qboot.Bios.Services

/-!
How an operating system gets to the PCI BIOS: it finds the directory that
`setup_bios32` leaves, asks the entry point there for the service, and makes any
calls of it.
-/

namespace Qboot

open Bytes ByteMemory

/-! ### The directory -/

/-- The first ten bytes. -/
def directoryHead (entry : BitVec 32) : List Byte :=
  [0x5f#8, 0x33#8, 0x32#8, 0x5f#8] ++ toLE 4 entry.toNat ++ [0#8, 1#8]

/-- The directory in memory; its bytes add up to zero. -/
def bios32Directory (entry : BitVec 32) : List Byte :=
  directoryHead entry ++ (0#8 - (directoryHead entry).sum) :: List.replicate 5 0#8

section Directory

variable {s : Firmware} {p entry : BitVec 32}

/-- Bytes right behind a block make it longer. -/
theorem poke_append {bs cs : List Byte} (hlen : bs.length + cs.length ≤ 2 ^ 32) :
    poke (p + BitVec.ofNat 32 bs.length) cs (s.withBlock p bs) =
      .ok () (s.withBlock p (bs ++ cs)) := by
  rw [poke_apply]
  exact congrArg (fun mem => EStateM.Result.ok () { s with mem := mem })
    (store_append s.mem p hlen)

theorem withBlock_byte {bs : List Byte} {i : Nat} (hi : i < bs.length)
    (hlen : bs.length ≤ 2 ^ 32) : (s.withBlock p bs).mem (p + BitVec.ofNat 32 i) = bs[i] := by
  have hoff : offset p (p + BitVec.ofNat 32 i) = i := offset_add p (by omega)
  have hin : offset p (p + BitVec.ofNat 32 i) < bs.length := by
    rw [hoff]
    exact hi
  refine (store_of_within s.mem hin).trans ?_
  simp only [hoff]

/-- Every round lowers byte 10 by one of the ten bytes in front of it. -/
theorem lowerChecksum_apply (l : List Nat) {head tail : List Byte} {sum : Byte}
    (hhead : head.length = 10) (htail : tail.length = 5) (hl : ∀ i ∈ l, i < 10) :
    lowerChecksum p l (s.withBlock p (head ++ sum :: tail)) =
      .ok () (s.withBlock p (head ++ (sum - (l.map fun i => head.getD i 0).sum) :: tail)) := by
  induction l generalizing sum with
  | nil =>
    rw [List.map_nil, List.sum_nil, sub_zero]
    rfl
  | cons i l ih =>
    have hi : i < 10 := hl i List.mem_cons_self
    have hlen : (head ++ sum :: tail).length = 16 := by
      rw [List.length_append, List.length_cons, hhead, htail]
    have hsum := @withBlock_byte s p (head ++ sum :: tail) 10 (by omega) (by omega)
    have hbyte := @withBlock_byte s p (head ++ sum :: tail) i (by omega) (by omega)
    rw [List.getElem_append_right (by omega)] at hsum
    rw [List.getElem_append_left (by omega)] at hbyte
    have hget : head.getD i 0 = head[i] := by
      rw [List.getD_eq_getElem?_getD, List.getElem?_eq_getElem (by omega), Option.getD_some]
    have hpatch : patch (head ++ sum :: tail) 10 [sum - head.getD i 0] =
        head ++ (sum - head.getD i 0) :: tail := by
      have h := patch_append_right head (sum :: tail) [sum - head.getD i 0] 0
      rw [hhead, Nat.add_zero] at h
      exact h
    have hpoke := @poke_withBlock s p (head ++ sum :: tail) 10 [sum - head.getD i 0]
      (by rw [hlen, List.length_singleton]; omega) (by rw [hlen]; decide)
    rw [hpatch] at hpoke
    have hfirst : sum - head.getD i 0 - (l.map fun i => head.getD i 0).sum =
        sum - ((i :: l).map fun i => head.getD i 0).sum := by
      rw [List.map_cons, List.sum_cons, sub_sub]
    have hstep : sum - head.getD i 0 = (s.withBlock p (head ++ sum :: tail)).mem (p + 10#32) -
        (s.withBlock p (head ++ sum :: tail)).mem (p + BitVec.ofNat 32 i) := by
      rw [hget, hbyte, show p + 10#32 = p + BitVec.ofNat 32 10 from rfl, hsum]
      simp [hhead]
    rw [hstep] at hpoke
    rw [lowerChecksum, StateRun.bind_of_ok (StateRun.get_apply _)]
    refine (StateRun.bind_of_ok hpoke).trans ?_
    rw [← hstep, ih fun j hj => hl j (List.mem_cons_of_mem _ hj), hfirst]

/-- `setup_bios32` puts the directory into its block of the F-segment. -/
theorem setupBios32_apply (entry : BitVec 32) (s : Firmware) :
    let a := s.request .fseg 16#32 16#32
    setupBios32 entry s = .ok () ((s.allocate a).withBlock a.base (bios32Directory entry)) := by
  intro a
  let t : Firmware := s.allocate a
  let p : BitVec 32 := a.base
  let signature : List Byte := [0x5f#8, 0x33#8, 0x32#8, 0x5f#8]
  have hsignature : poke p signature t = .ok () (t.withBlock p signature) := rfl
  have hentry : poke (p + 4#32) (toLE 4 entry.toNat) (t.withBlock p signature) =
      .ok () (t.withBlock p (signature ++ toLE 4 entry.toNat)) :=
    @poke_append t p signature (toLE 4 entry.toNat) (show 4 + 4 ≤ 2 ^ 32 by decide)
  have hrevision : poke (p + 8#32) [0#8] (t.withBlock p (signature ++ toLE 4 entry.toNat)) =
      .ok () (t.withBlock p (signature ++ toLE 4 entry.toNat ++ [0#8])) :=
    @poke_append t p (signature ++ toLE 4 entry.toNat) [0#8] (show 8 + 1 ≤ 2 ^ 32 by decide)
  have hlength : poke (p + 9#32) [1#8]
      (t.withBlock p (signature ++ toLE 4 entry.toNat ++ [0#8])) =
      .ok () (t.withBlock p (signature ++ toLE 4 entry.toNat ++ [0#8] ++ [1#8])) :=
    @poke_append t p (signature ++ toLE 4 entry.toNat ++ [0#8]) [1#8]
      (show 9 + 1 ≤ 2 ^ 32 by decide)
  have hhead : signature ++ toLE 4 entry.toNat ++ [0#8] ++ [1#8] = directoryHead entry := by
    rw [List.append_assoc]
    rfl
  rw [hhead] at hlength
  have hzeros : poke (p + 10#32) (List.replicate 6 0) (t.withBlock p (directoryHead entry)) =
      .ok () (t.withBlock p (directoryHead entry ++ List.replicate 6 0)) :=
    @poke_append t p (directoryHead entry) (List.replicate 6 0) (show 10 + 6 ≤ 2 ^ 32 by decide)
  have hsum := @lowerChecksum_apply t p (List.range 10) (directoryHead entry)
    (List.replicate 5 0#8) 0#8 rfl rfl fun i hi => List.mem_range.mp hi
  have hall : (List.range 10).map (fun i => (directoryHead entry).getD i 0) =
      directoryHead entry := rfl
  rw [hall] at hsum
  rw [setupBios32, StateRun.bind_of_ok (mallocFsegAlign_apply 16#32 16#32 s)]
  refine (StateRun.bind_of_ok hsignature).trans ((StateRun.bind_of_ok hentry).trans
    ((StateRun.bind_of_ok hrevision).trans ((StateRun.bind_of_ok hlength).trans
      ((StateRun.bind_of_ok hzeros).trans hsum))))

/-- The paragraphs in which an operating system looks for the directory. -/
structure InBiosScan (p : BitVec 32) : Prop where
  paragraph : p.toNat % 16 = 0
  low : 0xe0000 ≤ p.toNat
  high : p.toNat < 0x100000

/-- `"_32_"` -/
def bios32Signature : List Byte := [0x5f#8, 0x33#8, 0x32#8, 0x5f#8]

/-- What an operating system looks for there. -/
structure IsBios32Directory (mem : Mem) (p entry : BitVec 32) : Prop extends InBiosScan p where
  signature : load mem p 4 = bios32Signature
  entry : BitVec.ofNat 32 (loadLE mem (p + 4#32) 4) = entry
  revision : mem (p + 8#32) = 0#8
  length : mem (p + 9#32) = 1#8
  checksum : (load mem p 16).sum = 0#8

theorem length_bios32Directory : (bios32Directory entry).length = 16 := rfl

theorem sum_bios32Directory : (bios32Directory entry).sum = 0#8 := by
  have hzeros : (List.replicate 5 0#8).sum = 0 := rfl
  rw [bios32Directory, sum_append, List.sum_cons, hzeros, add_zero]
  exact add_sub_cancel _ _

/-- A block with the bytes of the directory is one. -/
theorem isBios32Directory_of_load {mem : Mem} (hp : InBiosScan p)
    (hload : load mem p 16 = bios32Directory entry) : IsBios32Directory mem p entry := by
  have hpart (k n : Nat) (hk : k + n ≤ 16) :
      load mem (p + BitVec.ofNat 32 k) n = slice (bios32Directory entry) k n := by
    rw [← hload, slice_load mem p hk]
  have hbyte (k : Nat) (hk : k + 1 ≤ 16) :
      [mem (p + BitVec.ofNat 32 k)] = slice (bios32Directory entry) k 1 := by
    rw [← hpart k 1 hk]
    simp [load]
  have hsignature := hpart 0 4 (by decide)
  rw [BitVec.add_zero] at hsignature
  refine ⟨hp, hsignature, ?_, List.singleton_inj.mp (hbyte 8 (by decide)),
    List.singleton_inj.mp (hbyte 9 (by decide)), ?_⟩
  · rw [loadLE, show p + 4#32 = p + BitVec.ofNat 32 4 from rfl, hpart 4 4 (by decide)]
    exact ofNat_ofLE_toLE 4 entry
  · rw [hload, sum_bios32Directory]

end Directory

/-! ### One far call -/

/-- The last `n` bytes below the stack pointer of 32-bit code. -/
def Cpu.freeFlatStack (c : Cpu) (base : BitVec 32) (n : Nat) : BitVec 32 :=
  base + BitVec.ofNat 32 (c.esp.toNat - n)

/-- The entry points are different code. -/
def Bios32Code.Placed (code : Bios32Code) : Prop := code.pcibiosEntry ≠ code.bios32Entry

section Call

variable {code : Bios32Code} {base : BitVec 32} {scratch : List Byte}

theorem flatCode_bios32Entry :
    flatCode code base scratch code.bios32Entry = besideConfig (bios32Entry code base) := if_pos rfl

theorem flatCode_pcibiosEntry (hplaced : code.Placed) :
    flatCode code base scratch code.pcibiosEntry = pcibiosEntry code base scratch :=
  (if_neg hplaced).trans (if_pos rfl)

theorem esp_split {c : Cpu} {n : Nat} (h : n ≤ c.esp.toNat) :
    c.esp = BitVec.ofNat 32 (c.esp.toNat - n + n) := by
  rw [Nat.sub_add_cancel h, BitVec.ofNat_toNat, BitVec.setWidth_eq]

/-- A call of the service directory. -/
theorem lcall_bios32Entry {x : PciBoard} (hroom : 12 ≤ x.board.cpu.esp.toNat) :
    ∃ bs : List Byte, bs.length = 12 ∧
      lcall code base scratch (code.bios32Entry - base) x = .ok () { x with board := { x.board with
        cpu := x.board.cpu.serviceAnswer code
        fw := x.board.fw.withBlock (x.board.cpu.freeFlatStack base 12) bs } } := by
  have hesp := esp_split hroom
  have hlt := x.board.cpu.esp.isLt
  have haddr : base + (code.bios32Entry - base) = code.bios32Entry := by
    ring
  have hlcall := @lcall_apply base (x.board.cpu.esp.toNat - 12 + 4) code scratch
    (code.bios32Entry - base) x hesp (by omega)
  rw [haddr, flatCode_bios32Entry] at hlcall
  have hentry := @bios32Entry_apply code base (code.bios32Entry - base) x.board
    (x.board.cpu.esp.toNat - 12) (by omega) hesp
  exact ⟨_, rfl, hlcall.trans (besideConfig_ok hentry x.config)⟩

/-- 32-bit code that may call the PCI BIOS if the firmware takes `n` bytes of
its stack: `max_bus` is not among them. -/
structure Board.MayFarCall (m : Board) (code : Bios32Code) (base : BitVec 32) (n : Nat) : Prop where
  room : n ≤ m.cpu.esp.toNat
  apart : ¬ Within (m.cpu.freeFlatStack base n) n code.maxBus

/-- The caller got `cpu` back, and the firmware wrote `n` bytes of free stack. -/
def Board.FarReturned (m m' : Board) (base : BitVec 32) (n : Nat) (cpu : Cpu) : Prop :=
  ∃ bs : List Byte, bs.length = n ∧ m' = { m with
    cpu := cpu, fw := m.fw.withBlock (m.cpu.freeFlatStack base n) bs }

/-- A call of the PCI BIOS. -/
theorem lcall_pcibiosEntry (hplaced : code.Placed) {m : Board} (config : ConfigPorts)
    (hcall : m.MayFarCall code base (scratch.length + 56)) :
    let after := pcibiosHandler (m.fw.mem code.maxBus) m.cpu.bios32Args config
    ∃ m', lcall code base scratch (code.pcibiosEntry - base) ⟨m, config⟩ = .ok () ⟨m', after.2⟩ ∧
      m.FarReturned m' base (scratch.length + 56) (m.cpu.pcibiosAnswer after.1) := by
  intro after
  have hroom := hcall.room
  have hlt := m.cpu.esp.isLt
  have hesp := @esp_split m.cpu 56 (by omega)
  have haddr : base + (code.pcibiosEntry - base) = code.pcibiosEntry := by
    ring
  have hlcall := @lcall_apply base (m.cpu.esp.toNat - 56 + 48) code scratch
    (code.pcibiosEntry - base) ⟨m, config⟩ hesp (by omega)
  rw [haddr, flatCode_pcibiosEntry hplaced] at hlcall
  have hfree : base + BitVec.ofNat 32 (m.cpu.esp.toNat - 56 - scratch.length) =
      m.cpu.freeFlatStack base (scratch.length + 56) := by
    rw [Cpu.freeFlatStack, Nat.sub_sub, Nat.add_comm 56]
  have hentry := @pcibiosEntry_apply code base (code.pcibiosEntry - base) scratch
    (m.cpu.esp.toNat - 56) m config _ (by omega) (by omega) hesp rfl (by
      rw [hfree]
      exact hcall.apart)
  rw [hfree] at hentry
  refine ⟨_, hlcall.trans hentry, _, ?_, rfl⟩
  rw [List.length_append, List.length_append, Bios32Regs.length_encode, length_wordBytes]
  rfl

end Call

/-! ### Runs of calls -/

/-- Calls of the PCI BIOS at the linear address `target`. Before each of them the
operating system brings the processor and its memory into the given state. -/
def runPciCalls (code : Bios32Code) (base : BitVec 32) (scratch : List Byte) (target : BitVec 32) :
    List Board → Asm32 (List Board)
  | [] => pure []
  | m :: ms => do
    modify fun x => { x with board := m }
    lcall code base scratch target
    let x ← get
    let later ← runPciCalls code base scratch target ms
    pure (x.board :: later)

/-- The registers that the calls return, on values. -/
def pciAnswers (maxBus : BitVec 8) : List Board → ConfigPorts → List Cpu
  | [], _ => []
  | m :: ms, h =>
    let after := pcibiosHandler maxBus m.cpu.bios32Args h
    m.cpu.pcibiosAnswer after.1 :: pciAnswers maxBus ms after.2

/-- Every call returns what the handler computes from the calls before it. -/
theorem runPciCalls_apply {code : Bios32Code} (hplaced : code.Placed) {base : BitVec 32}
    {scratch : List Byte} {maxBus : BitVec 8} {ms : List Board}
    (hcalls : ∀ m ∈ ms, m.MayFarCall code base (scratch.length + 56) ∧
      m.fw.mem code.maxBus = maxBus) (x : PciBoard) : ∃ answers x',
    runPciCalls code base scratch (code.pcibiosEntry - base) ms x = .ok answers x' ∧
      x'.config = runPcibios maxBus (ms.map fun m => m.cpu.bios32Args) x.config ∧
      answers.map Board.cpu = pciAnswers maxBus ms x.config ∧
      List.Forall₂ (fun m m' => m.FarReturned m' base (scratch.length + 56) m'.cpu) ms answers := by
  induction ms generalizing x with
  | nil => exact ⟨[], x, rfl, rfl, rfl, .nil⟩
  | cons m ms ih =>
    obtain ⟨hcall, hbus⟩ := hcalls m List.mem_cons_self
    obtain ⟨m', hlcall, hreturned⟩ := lcall_pcibiosEntry hplaced x.config hcall
    rw [hbus] at hlcall hreturned
    obtain ⟨answers, x', hrun, hconfig, hanswers, hall⟩ :=
      ih (fun m hm => hcalls m (List.mem_cons_of_mem _ hm))
        ⟨m', (pcibiosHandler maxBus m.cpu.bios32Args x.config).2⟩
    have hcpu : m'.cpu = m.cpu.pcibiosAnswer
        (pcibiosHandler maxBus m.cpu.bios32Args x.config).1 := by
      obtain ⟨bs, -, rfl⟩ := hreturned
      rfl
    refine ⟨m' :: answers, x', ?_, hconfig, ?_, ?_⟩
    · refine (StateRun.bind_of_ok (StateRun.modify_apply _ _)).trans
        ((StateRun.bind_of_ok hlcall).trans ?_)
      exact (StateRun.bind_of_ok (StateRun.get_apply _)).trans (StateRun.bind_of_ok hrun)
    · rw [List.map_cons, hanswers, hcpu]
      rfl
    · rw [← hcpu] at hreturned
      exact .cons hreturned hall

/-! ### From the directory to the calls -/

/-- The block is in the last megabyte of real mode if the heap is. -/
theorem setupBios32_scanned {s : Firmware}
    (hbase : 0xe0000 ≤ s.fsegBase.toNat ∧ s.fsegBase.toNat ≤ 0xffff0) :
    InBiosScan (s.request .fseg 16#32 16#32).base where
  paragraph := by
    have hdvd := @Rounding.dvd_and_neg 32 (s.fsegBase + 16#32 - 1#32) 16#32 4 rfl
    exact Nat.mod_eq_zero_of_dvd hdvd
  low := hbase.1.trans (fsegAlignedBase_ge (by decide) (by
    have hsixteen : (16#32).toNat = 16 := rfl
    omega))
  high := by
    have hsixteen : (16#32).toNat = 16 := rfl
    have hsum := @Rounding.toNat_add_sub_one 32 s.fsegBase 16#32 (by decide) (by omega)
    have hle := Rounding.and_neg_le (s.fsegBase + 16#32 - 1#32) 16#32
    change ((s.fsegBase + 16#32 - 1#32) &&& -16#32).toNat < 0x100000
    omega

/-- Two paragraphs do not share bytes. -/
theorem InBiosScan.apart {p q : BitVec 32} (hp : InBiosScan p) (hq : InBiosScan q) (hne : q ≠ p) :
    Apart q 4 p 16 := by
  have hnat : q.toNat ≠ p.toNat := fun h => hne (BitVec.eq_of_toNat_eq h)
  have hpmod := hp.paragraph
  have hqmod := hq.paragraph
  have hphigh := hp.high
  have hqhigh := hq.high
  rcases Nat.lt_or_ge q.toNat p.toNat with hlt | hge
  · exact apart_of_le (by omega) (by omega)
  · exact (apart_of_le (by omega) (by omega)).symm

/-- After `setup_bios32` with the heap in the scanned area a kernel finds the
directory, and no other if there was none before. It gets answers from the
entry point there; for the PCI service it gets the entry point of the PCI BIOS.
Any calls of that return what the handler computes from the calls before, config
space holds the latest bytes written, and the kernel's memory is as it was, apart
from free stack. It does not matter where the kernel has physical memory. -/
theorem bios32_calls {code : Bios32Code} (hplaced : code.Placed) {s : Firmware}
    (hbase : 0xe0000 ≤ s.fsegBase.toNat ∧ s.fsegBase.toNat ≤ 0xffff0) : ∃ s' p,
    setupBios32 code.bios32Entry s = .ok () s' ∧
      IsBios32Directory s'.mem p code.bios32Entry ∧
      ((∀ q, InBiosScan q → load s.mem q 4 ≠ bios32Signature) →
        ∀ q, InBiosScan q → load s'.mem q 4 = bios32Signature → q = p) ∧
      (∀ a, ¬ Within p 16 a → s'.mem a = s.mem a) ∧
      ∀ (base : BitVec 32) (scratch : List Byte) (x : PciBoard),
        load x.board.fw.mem p 16 = load s'.mem p 16 → 12 ≤ x.board.cpu.esp.toNat →
        ∃ m', lcall code base scratch
            (BitVec.ofNat 32 (loadLE x.board.fw.mem (p + 4#32) 4) - base) x =
              .ok () ⟨m', x.config⟩ ∧
          x.board.FarReturned m' base 12 (x.board.cpu.serviceAnswer code) ∧
          (x.board.cpu.eax = PCI_SERVICE → x.board.cpu.ebx = 0#32 →
            ∀ (maxBus : BitVec 8) (ms : List Board),
              (∀ m ∈ ms, m.MayFarCall code base (scratch.length + 56) ∧
                m.fw.mem code.maxBus = maxBus) →
              ∃ answers x',
                runPciCalls code base scratch (m'.cpu.ebx + m'.cpu.edx - base) ms
                    ⟨m', x.config⟩ = .ok answers x' ∧
                  x'.config.space =
                    latestSpace (ms.map fun m => m.cpu.bios32Args) x.config.space ∧
                  answers.map Board.cpu = pciAnswers maxBus ms x.config ∧
                  List.Forall₂ (fun m m' => m.FarReturned m' base (scratch.length + 56) m'.cpu)
                    ms answers) := by
  let a : Alloc := s.request .fseg 16#32 16#32
  have hscan : InBiosScan a.base := setupBios32_scanned hbase
  have hload : load ((s.allocate a).withBlock a.base (bios32Directory code.bios32Entry)).mem
      a.base 16 = bios32Directory code.bios32Entry :=
    load_store (s.allocate a).mem a.base (show 16 ≤ 2 ^ 32 by decide)
  refine ⟨_, a.base, setupBios32_apply code.bios32Entry s,
    isBios32Directory_of_load hscan hload, ?_, ?_, ?_⟩
  · intro hclean q hq hsignature
    by_contra hne
    apply hclean q hq
    rw [← hsignature]
    have hframe : load (store (s.allocate a).mem a.base (bios32Directory code.bios32Entry)) q 4 =
        load (s.allocate a).mem q 4 :=
      load_store_outside _ (by decide) (hscan.apart hq hne)
    exact (hframe.trans (by rw [allocate_mem])).symm
  · intro b hb
    refine (store_of_not_within (s.allocate a).mem hb).trans ?_
    rw [allocate_mem]
  · intro base scratch x hdirectory hroom
    rw [hload] at hdirectory
    have hentry := (isBios32Directory_of_load hscan hdirectory).entry
    obtain ⟨bs, hlen, hlcall⟩ := @lcall_bios32Entry code base scratch x hroom
    rw [hentry]
    refine ⟨_, hlcall, ⟨bs, hlen, rfl⟩, fun heax hebx maxBus ms hcalls => ?_⟩
    have hservice : ¬ x.board.cpu.ebx ≠ 0#32 := fun h => h hebx
    have hanswer : (x.board.cpu.serviceAnswer code).ebx + (x.board.cpu.serviceAnswer code).edx =
        code.pcibiosEntry := by
      rw [Cpu.serviceAnswer, if_neg hservice, if_pos heax]
      exact BitVec.zero_add _
    obtain ⟨answers, x', hrun, hconfig, hanswers, hall⟩ := runPciCalls_apply hplaced hcalls
      { x with board := { x.board with
        cpu := x.board.cpu.serviceAnswer code
        fw := x.board.fw.withBlock (x.board.cpu.freeFlatStack base 12) bs } }
    refine ⟨answers, x', ?_, ?_, hanswers, hall⟩
    · rw [hanswer]
      exact hrun
    · rw [hconfig, runPcibios_space]

/-- Entry points and a variable in the F-segment. -/
def flatLabels : Bios32Code where
  bios32Entry := 0xf0080#32
  pcibiosEntry := 0xf0060#32
  picLabel := 0xf00a5#32
  maxBus := 0xf3000#32

/-- A kernel that has physical memory at 0xc0000000. -/
def kernelCpu (eax ebx ecx edi : BitVec 32) : Cpu :=
  { realModeCpu eax with
    ebx := ebx
    ecx := ecx
    edi := edi
    esp := 0xc0008000#32
    eip := 0xc0100000#32
    cs := 0x10#16 }

theorem kernelCpu_mayFarCall (eax ebx ecx edi : BitVec 32) (fw : Firmware) :
    Board.MayFarCall ⟨kernelCpu eax ebx ecx edi, fw, []⟩ flatLabels 0x40000000#32 56 where
  room := by
    change 56 ≤ (0xc0008000#32).toNat
    decide
  apart := by
    change ¬ Within (0x40000000#32 + BitVec.ofNat 32 ((0xc0008000#32).toNat - 56)) 56 0xf3000#32
    decide

/-- Calls that set the command register of the function at devfn 8, read it back,
and read the dword it is the low half of. -/
def commandCalls (fw : Firmware) : List Board :=
  [⟨kernelCpu 0xb10c#32 8#32 0x107#32 4#32, fw, []⟩, ⟨kernelCpu 0xb109#32 8#32 0#32 4#32, fw, []⟩,
    ⟨kernelCpu 0xb10a#32 8#32 0#32 4#32, fw, []⟩]

/-- The kernel asks for the service and then makes the calls. -/
theorem bios32_calls_command : ∃ s' m answers x',
    setupBios32 flatLabels.bios32Entry blankMachine = .ok () s' ∧
      runPciCalls flatLabels 0x40000000#32 [] (m.cpu.ebx + m.cpu.edx - 0x40000000#32)
          (commandCalls s') ⟨m, { latch := 0#32, space := fun _ => 0x22#8, accesses := [] }⟩ =
        .ok answers x' ∧
      answers.map (fun m => m.cpu.ecx) = [0x107#32, 0x107#32, 0x22220107#32] := by
  obtain ⟨s', p, hsetup, -, -, -, hcalls⟩ :=
    @bios32_calls flatLabels (show 0xf0060#32 ≠ 0xf0080#32 by decide) blankMachine
      ⟨by decide, by decide⟩
  obtain ⟨m, -, -, hserved⟩ := hcalls 0x40000000#32 []
    ⟨⟨kernelCpu PCI_SERVICE 0#32 0#32 0#32, s', []⟩,
      { latch := 0#32, space := fun _ => 0x22#8, accesses := [] }⟩ rfl (by
        change 12 ≤ (0xc0008000#32).toNat
        decide)
  obtain ⟨answers, x', hrun, -, hanswers, -⟩ := hserved rfl rfl (s'.mem flatLabels.maxBus)
    (commandCalls s') (by
      intro m hm
      simp only [commandCalls, List.mem_cons, List.not_mem_nil, or_false] at hm
      rcases hm with rfl | rfl | rfl
      all_goals exact ⟨kernelCpu_mayFarCall _ _ _ _ s', rfl⟩)
  refine ⟨s', m, answers, x', hsetup, hrun, ?_⟩
  have hecx : answers.map (fun m => m.cpu.ecx) = (answers.map Board.cpu).map Cpu.ecx := by
    rw [List.map_map]
    rfl
  rw [hecx, hanswers]
  simp only [commandCalls, pciAnswers]
  generalize s'.mem flatLabels.maxBus = maxBus
  revert maxBus
  decide +kernel

end Qboot
