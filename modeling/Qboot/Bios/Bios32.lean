import Qboot.Bios.Entry
import Qboot.Main
import Qboot.Pci.Bios

/-!
The 32-bit entry points of entry.S, which the kernel of an operating system
reaches by far calls. It runs with any linear address for physical address 0;
`base` is what it adds to a linear address to get the physical one. The far call
leaves a return frame, `pcibios_entry` puts the flags and the registers below
it, and `pcibios_handler` changes them there.
-/

namespace Qboot

open Bytes ByteMemory

/-! ### Code -/

/-- The processor with its memory, and config space. -/
structure PciBoard where
  board : Board
  config : ConfigPorts

abbrev Asm32 (α : Type) := EStateM BoardStop PciBoard α

/-- Assembler code that leaves config space alone. -/
def besideConfig {α : Type} (code : Asm α) : Asm32 α := fun x =>
  match code x.board with
  | .ok a m => .ok a { x with board := m }
  | .error stop m => .error stop { x with board := m }

theorem besideConfig_ok {α : Type} {code : Asm α} {m m' : Board} {a : α} (h : code m = .ok a m')
    (config : ConfigPorts) : besideConfig code ⟨m, config⟩ = .ok a ⟨m', config⟩ := by
  rw [besideConfig, h]

theorem besideConfig_seq {code rest : Asm Unit} {m m' : Board}
    (h : (do code; rest : Asm Unit) m = .ok () m') (config : ConfigPorts) :
    (do besideConfig code; besideConfig rest : Asm32 Unit) ⟨m, config⟩ = .ok () ⟨m', config⟩ := by
  obtain ⟨_, t, hcode, hrest⟩ := StateRun.bind_ok.mp h
  exact (StateRun.bind_of_ok (besideConfig_ok hcode config)).trans (besideConfig_ok hrest config)

/-- Linked addresses of the entry points, of the label `2` in `pic_base` and of
the variable `max_bus`. -/
structure Bios32Code where
  bios32Entry : BitVec 32
  pcibiosEntry : BitVec 32
  picLabel : BitVec 32
  maxBus : BitVec 32

def pushfl (base : BitVec 32) : Asm Unit := do
  let m ← get
  push (.flat base) (toLE 4 m.cpu.eflags.toNat)

def popfl (base : BitVec 32) : Asm Unit := do
  let eflags ← pop (.flat base) 4
  modify fun m => { m with cpu := { m.cpu with eflags := BitVec.ofNat 32 (ofLE eflags) } }

def lretl (base : BitVec 32) : Asm Unit := do
  let eip ← pop (.flat base) 4
  let cs ← pop (.flat base) 4
  modify fun m => { m with cpu := { m.cpu with
    eip := BitVec.ofNat 32 (ofLE eip)
    cs := BitVec.ofNat 16 (ofLE cs) } }

def clc : Asm Unit := modify fun m =>
  { m with cpu := { m.cpu with eflags := m.cpu.eflags &&& 0xfffffffe#32 } }

/-- `movb $v, %al` -/
def movbAl (v : BitVec 8) : Asm Unit := modify fun m =>
  { m with cpu := { m.cpu with eax := m.cpu.eax &&& 0xffffff00#32 ||| v.setWidth 32 } }

/-- `pic_base`: the call pushes the linear address of the label, and the code
subtracts the linked one. -/
def picBase (code : Bios32Code) (base : BitVec 32) : BitVec 32 :=
  (code.picLabel - base) - code.picLabel

/-- `from_flat_ptr` -/
def fromFlatPtr (code : Bios32Code) (base p : BitVec 32) : BitVec 32 := p + picBase code base

/-- `struct bios32regs` in memory. -/
def Bios32Regs.words (args : Bios32Regs) : List Nat :=
  [args.eax.toNat, args.ebx.toNat, args.ecx.toNat, args.edx.toNat, args.esp.toNat, args.ebp.toNat,
    args.esi.toNat, args.edi.toNat, args.ds.toNat, args.es.toNat, args.fs.toNat,
    args.eflags.toNat]

def Bios32Regs.encode (args : Bios32Regs) : List Byte := wordBytes 4 args.words

def Bios32Regs.decode (bs : List Byte) : Bios32Regs :=
  let word (i : Nat) : BitVec 32 := BitVec.ofNat 32 (ofLE (slice bs (4 * i) 4))
  { eax := word 0, ebx := word 1, ecx := word 2, edx := word 3, esp := word 4, ebp := word 5,
    esi := word 6, edi := word 7, ds := word 8, es := word 9, fs := word 10, eflags := word 11 }

/-- `pcibios_handler` on the registers in memory. -/
def pcibiosHandlerAt (code : Bios32Code) (base args : BitVec 32) : Asm32 Unit := modify fun x =>
  let m := x.board
  let maxBus := m.fw.mem (base + fromFlatPtr code base code.maxBus)
  let (regs, config) :=
    pcibiosHandler maxBus (.decode (load m.fw.mem (base + args) 48)) x.config
  { board := { m with fw := m.fw.withBlock (base + args) regs.encode }
    config := config }

/-- `call pcibios_handler` with the stack pointer as its argument. The C
functions leave any bytes below. -/
def callPcibios (code : Bios32Code) (base : BitVec 32) (scratch : List Byte) : Asm32 Unit := do
  modify fun x => { x with board := { x.board with
    cpu := { x.board.cpu with eax := x.board.cpu.esp }
    fw := x.board.fw.withBlock (base + x.board.cpu.esp - BitVec.ofNat 32 scratch.length)
      scratch } }
  let x ← get
  pcibiosHandlerAt code base x.board.cpu.eax

def pcibiosEntry (code : Bios32Code) (base : BitVec 32) (scratch : List Byte) : Asm32 Unit := do
  besideConfig clc
  besideConfig (pushfl base)
  besideConfig (saveBiosregs (.flat base))
  callPcibios code base scratch
  besideConfig (restoreBiosregs (.flat base))
  besideConfig (popfl base)
  besideConfig (lretl base)

/-- `"$PCI"` -/
def PCI_SERVICE : BitVec 32 := 0x49435024#32

def bios32Entry (code : Bios32Code) (base : BitVec 32) : Asm Unit := do
  pushfl base
  let m ← get
  -- BIOS32 service directory?
  if m.cpu.ebx ≠ 0#32 then
    -- unimplemented function
    movbAl 0x81#8
    popfl base
    lretl base
  else do
    -- service not present
    movbAl 0x80#8
    if m.cpu.eax = PCI_SERVICE then do
      -- fill in base/length/entry
      modify fun m => { m with cpu := { m.cpu with
        ebx := 0#32, ecx := 1#32 <<< 20, edx := code.pcibiosEntry } }
      movbAl 0x00#8
    popfl base
    lretl base

/-- The code at a physical address. -/
def flatCode (code : Bios32Code) (base : BitVec 32) (scratch : List Byte) (address : BitVec 32) :
    Asm32 Unit :=
  if address = code.bios32Entry then besideConfig (bios32Entry code base)
  else if address = code.pcibiosEntry then pcibiosEntry code base scratch
  else throw (.foreign address)

/-- `lcall` to a linear address in the same segment, up to the return to the
instruction behind it. -/
def lcall (code : Bios32Code) (base : BitVec 32) (scratch : List Byte) (target : BitVec 32) :
    Asm32 Unit := do
  let x ← get
  besideConfig (push (.flat base) (toLE 4 x.board.cpu.cs.toNat))
  besideConfig (push (.flat base) (toLE 4 x.board.cpu.eip.toNat))
  modify fun x => { x with board := { x.board with cpu := { x.board.cpu with eip := target } } }
  flatCode code base scratch (base + target)

/-! ### Frames of far calls -/

/-- What a far call pushes, in the order of the addresses. -/
def farFrame (eip : BitVec 32) (cs : BitVec 16) : List Nat := [eip.toNat, cs.toNat]

section Frames

variable {base : BitVec 32} {m : Board} {k : Nat}

theorem load_longs {M : Mem} {p : BitVec 32} {words : List Nat} {rest : List Byte} {n i : Nat}
    (hmem : load M p n = wordBytes 4 words ++ rest) (hi : i < words.length) :
    load M (p + BitVec.ofNat 32 (4 * i)) 4 = toLE 4 words[i] := by
  have hn : n = 4 * words.length + rest.length := by
    have hlen := congrArg List.length hmem
    rwa [length_load, List.length_append, length_wordBytes] at hlen
  have hslice := slice_load M p (by omega : 4 * i + 4 ≤ n)
  rw [hmem, slice_wordBytes hi] at hslice
  exact hslice.symm

theorem ofNat_ofLE_long (v : BitVec 32) : BitVec.ofNat 32 (ofLE (toLE 4 v.toNat)) = v :=
  ofNat_ofLE_toLE 4 v

/-- A segment register that was pushed as a dword. -/
theorem ofNat_ofLE_segment (v : BitVec 16) : BitVec.ofNat 16 (ofLE (toLE 4 v.toNat)) = v := by
  rw [ofLE_toLE_of_lt (v.isLt.trans (by decide)), BitVec.ofNat_toNat, BitVec.setWidth_eq]

/-- Flags and frame are taken off the stack. -/
theorem farReturn_apply {eflags eip : BitVec 32} {cs : BitVec 16}
    (hesp : m.cpu.esp = BitVec.ofNat 32 k) (hk : k + 12 < 2 ^ 32)
    (hmem : load m.fw.mem (base + BitVec.ofNat 32 k) 12 =
      wordBytes 4 (eflags.toNat :: farFrame eip cs)) :
    (do popfl base; lretl base : Asm Unit) m = .ok () { m with cpu := { m.cpu with
      esp := BitVec.ofNat 32 (k + 12)
      eip := eip
      cs := cs
      eflags := eflags } } := by
  have hwords := hmem.trans (List.append_nil _).symm
  have hflags := load_longs hwords (show 0 < 3 by omega)
  have heip := load_longs hwords (show 1 < 3 by omega)
  have hcs := load_longs hwords (show 2 < 3 by omega)
  rw [BitVec.add_assoc, ← BitVec.ofNat_add] at hflags heip hcs
  have hpop := @pop_apply (.flat base) m k 4 hesp (show k + 4 < 2 ^ 32 by omega)
  rw [show load m.fw.mem (m.cpu.stackBase (.flat base) + BitVec.ofNat 32 k) 4 =
    toLE 4 eflags.toNat from hflags] at hpop
  let m₁ : Board :=
    { m with cpu := { m.cpu with esp := BitVec.ofNat 32 (k + 4), eflags := eflags } }
  have hpopfl : popfl base m = .ok () m₁ := by
    rw [popfl, StateRun.bind_of_ok hpop, ofNat_ofLE_long]
    rfl
  have hpop₁ := @pop_apply (.flat base) m₁ (k + 4) 4 rfl (show k + 4 + 4 < 2 ^ 32 by omega)
  rw [show load m₁.fw.mem (m₁.cpu.stackBase (.flat base) + BitVec.ofNat 32 (k + 4)) 4 =
    toLE 4 eip.toNat from heip] at hpop₁
  let m₂ : Board := { m₁ with cpu := { m₁.cpu with esp := BitVec.ofNat 32 (k + 8) } }
  have hpop₂ := @pop_apply (.flat base) m₂ (k + 8) 4 rfl (show k + 8 + 4 < 2 ^ 32 by omega)
  rw [show load m₂.fw.mem (m₂.cpu.stackBase (.flat base) + BitVec.ofNat 32 (k + 8)) 4 =
    toLE 4 cs.toNat from hcs] at hpop₂
  rw [StateRun.bind_of_ok hpopfl, lretl, StateRun.bind_of_ok hpop₁]
  refine (StateRun.bind_of_ok hpop₂).trans ?_
  rw [ofNat_ofLE_long, ofNat_ofLE_segment]
  rfl

/-- The machine at the first instruction of the called code. -/
def Board.farCalled (m : Board) (base target : BitVec 32) (k : Nat) : Board :=
  { m with cpu := { m.cpu with eip := target } }.stacked (.flat base) k
    (wordBytes 4 (farFrame m.cpu.eip m.cpu.cs))

theorem lcall_apply {code : Bios32Code} {scratch : List Byte} {target : BitVec 32} {x : PciBoard}
    (hesp : x.board.cpu.esp = BitVec.ofNat 32 (k + 8)) (hk : k + 8 < 2 ^ 32) :
    lcall code base scratch target x =
      flatCode code base scratch (base + target)
        { x with board := x.board.farCalled base target k } := by
  let cs : List Byte := toLE 4 x.board.cpu.cs.toNat
  let eip : List Byte := toLE 4 x.board.cpu.eip.toNat
  have hpush : push (.flat base) cs x.board = .ok () (x.board.stacked (.flat base) (k + 4) cs) := by
    have h := @push_stacked (.flat base) x.board (k + 4) [] cs
      (show k + 4 + (4 + 0) < 2 ^ 32 by omega)
    rw [show k + 4 + cs.length = k + 8 from rfl, ← eq_stacked_nil hesp, List.append_nil] at h
    exact h
  have hpush' : push (.flat base) eip (x.board.stacked (.flat base) (k + 4) cs) =
      .ok () (x.board.stacked (.flat base) k (eip ++ cs)) :=
    @push_stacked (.flat base) x.board k cs eip (show k + (4 + 4) < 2 ^ 32 by omega)
  have hframe : eip ++ cs = wordBytes 4 (farFrame x.board.cpu.eip x.board.cpu.cs) := by
    rw [farFrame, wordBytes_cons, wordBytes_cons, wordBytes_nil, List.append_nil]
  rw [hframe] at hpush'
  rw [lcall, StateRun.bind_of_ok (StateRun.get_apply x)]
  refine (StateRun.bind_of_ok (besideConfig_ok hpush x.config)).trans ?_
  refine (StateRun.bind_of_ok (besideConfig_ok hpush' x.config)).trans ?_
  exact StateRun.bind_of_ok (StateRun.modify_apply _ _)

/-- The flags are pushed in front of the frame. -/
theorem pushfl_stacked {words : List Nat} (hk : k + (4 + 4 * words.length) < 2 ^ 32) :
    pushfl base (m.stacked (.flat base) (k + 4) (wordBytes 4 words)) =
      .ok () (m.stacked (.flat base) k (wordBytes 4 (m.cpu.eflags.toNat :: words))) := by
  have hpush := @push_stacked (.flat base) m k (wordBytes 4 words) (toLE 4 m.cpu.eflags.toNat) (by
    rw [length_toLE, length_wordBytes]
    exact hk)
  rw [wordBytes_cons]
  exact hpush

end Frames

/-! ### The service directory -/

def Cpu.withAl (c : Cpu) (v : BitVec 8) : Cpu :=
  { c with eax := c.eax &&& 0xffffff00#32 ||| v.setWidth 32 }

/-- The registers after a call of the service directory. -/
def Cpu.serviceAnswer (c : Cpu) (code : Bios32Code) : Cpu :=
  if c.ebx ≠ 0#32 then c.withAl 0x81#8
  else if c.eax = PCI_SERVICE then
    { c with
      eax := PCI_SERVICE &&& 0xffffff00#32
      ebx := 0#32
      ecx := 0x100000#32
      edx := code.pcibiosEntry }
  else c.withAl 0x80#8

theorem bios32Entry_apply {code : Bios32Code} {base target : BitVec 32} {m : Board} {k : Nat}
    (hk : k + 12 < 2 ^ 32) (hesp : m.cpu.esp = BitVec.ofNat 32 (k + 12)) :
    bios32Entry code base (m.farCalled base target (k + 4)) = .ok ()
      { m with
        cpu := m.cpu.serviceAnswer code
        fw := m.fw.withBlock (base + BitVec.ofNat 32 k)
          (wordBytes 4 (m.cpu.eflags.toNat :: farFrame m.cpu.eip m.cpu.cs)) } := by
  let words : List Nat := m.cpu.eflags.toNat :: farFrame m.cpu.eip m.cpu.cs
  let inside : Board := { m with cpu := { m.cpu with eip := target } }.stacked (.flat base) k
    (wordBytes 4 words)
  have hpush : pushfl base (m.farCalled base target (k + 4)) = .ok () inside :=
    pushfl_stacked (show k + (4 + 4 * 2) < 2 ^ 32 by omega)
  have hload : load inside.fw.mem (base + BitVec.ofNat 32 k) 12 = wordBytes 4 words :=
    load_store m.fw.mem (base + BitVec.ofNat 32 k) (show 12 ≤ 2 ^ 32 by decide)
  -- Whatever the code does to the other registers, flags and frame come back.
  have hback (c : Cpu) (hc : c.esp = BitVec.ofNat 32 k) :
      (do popfl base; lretl base : Asm Unit) { inside with cpu := c } = .ok ()
        { inside with cpu := { c with
          esp := BitVec.ofNat 32 (k + 12)
          eip := m.cpu.eip
          cs := m.cpu.cs
          eflags := m.cpu.eflags } } := farReturn_apply hc hk hload
  rw [bios32Entry, StateRun.bind_of_ok hpush, StateRun.bind_of_ok (StateRun.get_apply inside)]
  by_cases hdirectory : m.cpu.ebx ≠ 0#32
  · refine (congrFun (if_pos hdirectory) _).trans ?_
    refine (StateRun.bind_of_ok (StateRun.modify_apply _ _)).trans ((hback _ rfl).trans ?_)
    rw [Cpu.serviceAnswer, if_pos hdirectory, ← hesp]
    rfl
  · refine (congrFun (if_neg hdirectory) _).trans ?_
    refine (StateRun.bind_of_ok (StateRun.modify_apply _ _)).trans ?_
    by_cases hpci : m.cpu.eax = PCI_SERVICE
    · have heax : (m.cpu.eax &&& 0xffffff00#32 ||| 0x80#32) &&& 0xffffff00#32 ||| 0x00#32 =
          PCI_SERVICE &&& 0xffffff00#32 := by
        rw [hpci]
        decide
      refine (congrFun (if_pos hpci) _).trans ?_
      refine (StateRun.bind_of_ok (StateRun.modify_apply _ _)).trans
        ((StateRun.bind_of_ok (StateRun.modify_apply _ _)).trans ((hback _ rfl).trans ?_))
      rw [Cpu.serviceAnswer, if_neg hdirectory, if_pos hpci, ← hesp, ← heax]
      rfl
    · refine (congrFun (if_neg hpci) _).trans ?_
      refine (hback _ rfl).trans ?_
      rw [Cpu.serviceAnswer, if_neg hdirectory, if_neg hpci, ← hesp]
      rfl

/-! ### The PCI BIOS -/

/-- The registers that `pcibios_handler` gets from a caller. ESP is the one in
front of its own push. -/
def Cpu.bios32Args (c : Cpu) : Bios32Regs where
  eax := c.eax
  ebx := c.ebx
  ecx := c.ecx
  edx := c.edx
  esp := c.esp - 36#32
  ebp := c.ebp
  esi := c.esi
  edi := c.edi
  ds := c.ds.setWidth 32
  es := c.es.setWidth 32
  fs := c.fs.setWidth 32
  eflags := c.eflags &&& 0xfffffffe#32

/-- The caller's registers with what the handler put into the saved ones. -/
def Cpu.pcibiosAnswer (c : Cpu) (regs : Bios32Regs) : Cpu :=
  { c with
    eax := regs.eax
    ebx := regs.ebx
    ecx := regs.ecx
    edx := regs.edx
    eflags := regs.eflags }

def Bios32Regs.saved (regs : Bios32Regs) : SavedRegs where
  eax := regs.eax
  ebx := regs.ebx
  ecx := regs.ecx
  edx := regs.edx
  esp := regs.esp
  ebp := regs.ebp
  esi := regs.esi
  edi := regs.edi
  ds := regs.ds
  es := regs.es
  fs := regs.fs

/-- Registers that the handler does not change. -/
theorem pcibiosHandler_kept (maxBus : BitVec 8) (args : Bios32Regs) (h : ConfigPorts) :
    let regs := (pcibiosHandler maxBus args h).1
    regs.esp = args.esp ∧ regs.ebp = args.ebp ∧ regs.esi = args.esi ∧ regs.edi = args.edi ∧
      regs.ds = args.ds ∧ regs.es = args.es ∧ regs.fs = args.fs := by
  unfold pcibiosHandler
  split_ifs <;> exact ⟨rfl, rfl, rfl, rfl, rfl, rfl, rfl⟩

theorem Bios32Regs.encode_eq (regs : Bios32Regs) :
    regs.encode = wordBytes 4 regs.saved.words ++ wordBytes 4 [regs.eflags.toNat] := by
  rw [← wordBytes_append]
  rfl

theorem Bios32Regs.length_encode (regs : Bios32Regs) : regs.encode.length = 48 := by
  rw [Bios32Regs.encode, length_wordBytes]
  rfl

theorem Bios32Regs.decode_encode (regs : Bios32Regs) : Bios32Regs.decode regs.encode = regs := by
  have hword : ∀ i, (hi : i < regs.words.length) →
      BitVec.ofNat 32 (ofLE (slice regs.encode (4 * i) 4)) =
        BitVec.ofNat 32 (ofLE (toLE 4 regs.words[i])) := by
    intro i hi
    have hslice := slice_wordBytes (n := 4) hi []
    rw [List.append_nil] at hslice
    rw [Bios32Regs.encode, hslice]
  have hlen : regs.words.length = 12 := rfl
  simp only [Bios32Regs.decode, hword 0 (by omega), hword 1 (by omega), hword 2 (by omega),
    hword 3 (by omega), hword 4 (by omega), hword 5 (by omega), hword 6 (by omega),
    hword 7 (by omega), hword 8 (by omega), hword 9 (by omega), hword 10 (by omega),
    hword 11 (by omega)]
  simp only [Bios32Regs.words, List.getElem_cons_zero, List.getElem_cons_succ, ofNat_ofLE_long]

/-- `pic_base` undoes the kernel's shift of addresses. -/
theorem base_fromFlatPtr (code : Bios32Code) (base p : BitVec 32) :
    base + fromFlatPtr code base p = p := by
  rw [fromFlatPtr, picBase]
  ring

section PcibiosEntry

variable {code : Bios32Code} {base target : BitVec 32} {scratch : List Byte} {k : Nat}

/-- The handler with its argument at offset `k`, where `rest` is behind the
registers. -/
theorem callPcibios_apply {m : Board} {args : Bios32Regs} {rest : List Byte} {config : ConfigPorts}
    {maxBus : BitVec 8} (hscratch : scratch.length ≤ k) (hk : k + 48 + rest.length < 2 ^ 32)
    (hmaxBus : m.fw.mem code.maxBus = maxBus)
    (hout : ¬ Within (base + BitVec.ofNat 32 (k - scratch.length))
      (scratch.length + 48 + rest.length) code.maxBus) :
    let after := pcibiosHandler maxBus args config
    callPcibios code base scratch ⟨m.stacked (.flat base) k (args.encode ++ rest), config⟩ =
      .ok ()
        { board := { m with
            cpu := { m.cpu with eax := BitVec.ofNat 32 k, esp := BitVec.ofNat 32 k }
            fw := m.fw.withBlock (base + BitVec.ofNat 32 (k - scratch.length))
              (scratch ++ (after.1.encode ++ rest)) }
          config := after.2 } := by
  intro after
  let p : BitVec 32 := base + BitVec.ofNat 32 (k - scratch.length)
  have hplace : base + BitVec.ofNat 32 k - BitVec.ofNat 32 scratch.length = p := by
    have hsplit : BitVec.ofNat 32 k =
        BitVec.ofNat 32 (k - scratch.length) + BitVec.ofNat 32 scratch.length := by
      rw [← BitVec.ofNat_add, Nat.sub_add_cancel hscratch]
    rw [hsplit]
    ring
  have hargs : p + BitVec.ofNat 32 scratch.length = base + BitVec.ofNat 32 k := by
    rw [BitVec.add_assoc, ← BitVec.ofNat_add, Nat.sub_add_cancel hscratch]
  have hlen : (args.encode ++ rest).length = 48 + rest.length := by
    rw [List.length_append, Bios32Regs.length_encode]
  have hjoin : (m.stacked (.flat base) k (args.encode ++ rest)).fw.withBlock
      (base + BitVec.ofNat 32 k - BitVec.ofNat 32 scratch.length) scratch =
      m.fw.withBlock p (scratch ++ (args.encode ++ rest)) := by
    have h := @store_before 32 m.fw.mem p (args.encode ++ rest) scratch (by omega)
    rw [hargs] at h
    rw [hplace]
    exact congrArg (fun mem => { m.fw with mem := mem }) h
  let inside : Board := { m with
    cpu := { m.cpu with eax := BitVec.ofNat 32 k, esp := BitVec.ofNat 32 k }
    fw := m.fw.withBlock p (scratch ++ (args.encode ++ rest)) }
  have hread : load inside.fw.mem (base + BitVec.ofNat 32 k) 48 = args.encode := by
    have h := @load_withBlock m.fw p (scratch ++ (args.encode ++ rest)) scratch.length 48
      (by rw [List.length_append, hlen]; omega) (by rw [List.length_append, hlen]; omega)
    have hmiddle := slice_append_middle scratch args.encode rest
    rw [Bios32Regs.length_encode, List.append_assoc] at hmiddle
    rwa [hargs, hmiddle] at h
  have hbus : inside.fw.mem (base + fromFlatPtr code base code.maxBus) = maxBus := by
    rw [base_fromFlatPtr, ← hmaxBus]
    apply store_of_not_within
    rwa [List.length_append, hlen, ← Nat.add_assoc]
  have hwrite : inside.fw.withBlock (base + BitVec.ofNat 32 k) after.1.encode =
      m.fw.withBlock p (scratch ++ (after.1.encode ++ rest)) := by
    have h := @store_store_inside 32 m.fw.mem p (scratch ++ (args.encode ++ rest)) after.1.encode
      scratch.length (by rw [List.length_append, hlen, Bios32Regs.length_encode]; omega)
      (by rw [List.length_append, hlen]; omega)
    have hpatch : patch (scratch ++ (args.encode ++ rest)) scratch.length after.1.encode =
        scratch ++ (after.1.encode ++ rest) := by
      have hsame : after.1.encode.length = args.encode.length := by
        rw [Bios32Regs.length_encode, Bios32Regs.length_encode]
      have h := patch_append_right scratch (args.encode ++ rest) after.1.encode 0
      rw [Nat.add_zero] at h
      rw [h, patch, List.take_zero, List.nil_append, Nat.zero_add, hsame, List.drop_left]
    rw [hargs, hpatch] at h
    exact congrArg (fun mem => { m.fw with mem := mem }) h
  have hhandler : pcibiosHandlerAt code base (BitVec.ofNat 32 k) ⟨inside, config⟩ = .ok ()
      { board := { inside with
          fw := inside.fw.withBlock (base + BitVec.ofNat 32 k) after.1.encode }
        config := after.2 } := by
    rw [pcibiosHandlerAt, StateRun.modify_apply]
    simp only [hbus, hread, Bios32Regs.decode_encode]
    rfl
  rw [hwrite] at hhandler
  rw [callPcibios, StateRun.bind_of_ok (StateRun.modify_apply _ _)]
  refine Eq.trans ?_ hhandler
  exact congrArg (fun fw => pcibiosHandlerAt code base (BitVec.ofNat 32 k)
    ⟨{ inside with fw := fw }, config⟩) hjoin

/-- What is on the stack when the handler starts. -/
theorem saved_encode (c : Cpu) (hesp : c.esp = BitVec.ofNat 32 (k + 56)) :
    wordBytes 4 (c.saved k).words ++ wordBytes 4 ((c.eflags &&& 0xfffffffe#32).toNat ::
      farFrame c.eip c.cs) = c.bios32Args.encode ++ wordBytes 4 (farFrame c.eip c.cs) := by
  have hback : c.esp - 36#32 = BitVec.ofNat 32 (k + 20) := by
    rw [hesp, show k + 56 = k + 20 + 36 from rfl, BitVec.ofNat_add (k + 20)]
    exact BitVec.add_sub_cancel _ _
  have hsaved : c.saved k = c.bios32Args.saved := by
    simp only [Cpu.saved, Bios32Regs.saved, Cpu.bios32Args, hback]
  rw [hsaved, Bios32Regs.encode_eq, wordBytes_cons, List.append_assoc, wordBytes_cons,
    wordBytes_nil, List.append_nil]
  rfl

/-- A far call of the PCI BIOS. -/
theorem pcibiosEntry_apply {m : Board} {config : ConfigPorts} {maxBus : BitVec 8}
    (hscratch : scratch.length ≤ k) (hk : k + 56 < 2 ^ 32)
    (hesp : m.cpu.esp = BitVec.ofNat 32 (k + 56)) (hmaxBus : m.fw.mem code.maxBus = maxBus)
    (hout : ¬ Within (base + BitVec.ofNat 32 (k - scratch.length)) (scratch.length + 56)
      code.maxBus) :
    let after := pcibiosHandler maxBus m.cpu.bios32Args config
    pcibiosEntry code base scratch ⟨m.farCalled base target (k + 48), config⟩ = .ok ()
      { board := { m with
          cpu := m.cpu.pcibiosAnswer after.1
          fw := m.fw.withBlock (base + BitVec.ofNat 32 (k - scratch.length))
            (scratch ++ (after.1.encode ++ wordBytes 4 (farFrame m.cpu.eip m.cpu.cs))) }
        config := after.2 } := by
  intro after
  let frame : List Nat := farFrame m.cpu.eip m.cpu.cs
  let inside : Board := { m with cpu := { m.cpu with
    eip := target, eflags := m.cpu.eflags &&& 0xfffffffe#32 } }
  have hclc : clc (m.farCalled base target (k + 48)) =
      .ok () (inside.stacked (.flat base) (k + 48) (wordBytes 4 frame)) := rfl
  have hpush : pushfl base (inside.stacked (.flat base) (k + 48) (wordBytes 4 frame)) =
      .ok () (inside.stacked (.flat base) (k + 44)
        (wordBytes 4 ((m.cpu.eflags &&& 0xfffffffe#32).toNat :: frame))) :=
    pushfl_stacked (show k + 44 + (4 + 4 * 2) < 2 ^ 32 by omega)
  have hsave := @saveBiosregs_stacked (.flat base) inside k
    (wordBytes 4 ((m.cpu.eflags &&& 0xfffffffe#32).toNat :: frame))
    (show k + 44 + 4 * 3 < 2 ^ 32 by omega)
  rw [show inside.cpu.saved k = m.cpu.saved k from rfl, saved_encode m.cpu hesp] at hsave
  have hrest : (wordBytes 4 frame).length = 8 := rfl
  have hcall := @callPcibios_apply code base scratch k inside m.cpu.bios32Args (wordBytes 4 frame)
    config maxBus hscratch (by rw [hrest]; omega) hmaxBus (by rw [hrest]; exact hout)
  let p : BitVec 32 := base + BitVec.ofNat 32 (k - scratch.length)
  let called : Board := { inside with
    cpu := { inside.cpu with eax := BitVec.ofNat 32 k, esp := BitVec.ofNat 32 k }
    fw := m.fw.withBlock p (scratch ++ (after.1.encode ++ wordBytes 4 frame)) }
  obtain ⟨hkesp, hkebp, hkesi, hkedi, hkds, hkes, hkfs⟩ :=
    pcibiosHandler_kept maxBus m.cpu.bios32Args config
  have hargs : p + BitVec.ofNat 32 scratch.length = base + BitVec.ofNat 32 k := by
    rw [BitVec.add_assoc, ← BitVec.ofNat_add, Nat.sub_add_cancel hscratch]
  have hload : load called.fw.mem (base + BitVec.ofNat 32 k) 56 =
      wordBytes 4 after.1.saved.words ++ wordBytes 4 (after.1.eflags.toNat :: frame) := by
    have hlen : (after.1.encode ++ wordBytes 4 frame).length = 56 := by
      rw [List.length_append, Bios32Regs.length_encode, hrest]
    have h := @load_withBlock m.fw p (scratch ++ (after.1.encode ++ wordBytes 4 frame))
      scratch.length 56 (by rw [List.length_append, hlen]) (by rw [List.length_append, hlen]; omega)
    have hright := slice_append_right scratch (after.1.encode ++ wordBytes 4 frame)
    rw [hlen] at hright
    rw [hargs, hright, Bios32Regs.encode_eq, List.append_assoc, ← wordBytes_append] at h
    exact h
  have hback : after.1.saved.esp = BitVec.ofNat 32 (k + 20) := by
    refine hkesp.trans ?_
    change m.cpu.esp - 36#32 = BitVec.ofNat 32 (k + 20)
    rw [hesp, show k + 56 = k + 20 + 36 from rfl, BitVec.ofNat_add (k + 20)]
    exact BitVec.add_sub_cancel _ _
  have hrestore := @restoreBiosregs_apply (.flat base) called k 56 after.1.saved _ rfl hload hback
    (show k + 44 < 2 ^ 32 by omega)
  have hframe : load called.fw.mem (base + BitVec.ofNat 32 (k + 44)) 12 =
      wordBytes 4 (after.1.eflags.toNat :: frame) := by
    have h := slice_load called.fw.mem (base + BitVec.ofNat 32 k) (show 44 + 12 ≤ 56 by omega)
    rw [hload, BitVec.add_assoc, ← BitVec.ofNat_add] at h
    rw [← h]
    exact slice_append_right (wordBytes 4 after.1.saved.words)
      (wordBytes 4 (after.1.eflags.toNat :: frame))
  let restored : Board := { called with
    cpu := { called.cpu.restored after.1.saved with esp := BitVec.ofNat 32 (k + 44) } }
  have hreturn := @farReturn_apply base restored (k + 44) after.1.eflags m.cpu.eip m.cpu.cs rfl
    (by omega) hframe
  have hsegment (v : BitVec 16) : (v.setWidth 32).setWidth 16 = v := by
    simp
  have hcpu : { restored.cpu with
      esp := BitVec.ofNat 32 (k + 44 + 12)
      eip := m.cpu.eip
      cs := m.cpu.cs
      eflags := after.1.eflags } = m.cpu.pcibiosAnswer after.1 := by
    have hds : after.1.ds.setWidth 16 = m.cpu.ds := by
      rw [hkds]
      exact hsegment _
    have hes : after.1.es.setWidth 16 = m.cpu.es := by
      rw [hkes]
      exact hsegment _
    have hfs : after.1.fs.setWidth 16 = m.cpu.fs := by
      rw [hkfs]
      exact hsegment _
    have hebp : after.1.ebp = m.cpu.ebp := hkebp
    have hesi : after.1.esi = m.cpu.esi := hkesi
    have hedi : after.1.edi = m.cpu.edi := hkedi
    simp only [restored, called, inside, Cpu.restored, Bios32Regs.saved, Cpu.pcibiosAnswer, hds,
      hes, hfs, hebp, hesi, hedi, Nat.add_assoc, Nat.reduceAdd, ← hesp]
  rw [pcibiosEntry, StateRun.bind_of_ok (besideConfig_ok hclc config)]
  refine (StateRun.bind_of_ok (besideConfig_ok hpush config)).trans ?_
  refine (StateRun.bind_of_ok (besideConfig_ok hsave config)).trans ?_
  refine (StateRun.bind_of_ok hcall).trans ?_
  refine (StateRun.bind_of_ok (besideConfig_ok hrestore after.2)).trans ?_
  refine (besideConfig_seq hreturn after.2).trans ?_
  rw [hcpu]

end PcibiosEntry

end Qboot
