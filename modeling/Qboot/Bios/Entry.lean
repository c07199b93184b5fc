import Qboot.Bios.Stack

/-!
The macros of entry.S that save the registers below a return address and load
them back. Between them C code gets a pointer to the saved registers, as
`struct biosregs`, and changes what the caller will find in its registers.
-/

namespace Qboot

open Bytes ByteMemory

/-- `SAVE_BIOSREGS`: the registers in the order in which they are pushed. -/
def savedRegs : List (Cpu → BitVec 32) :=
  [fun c => c.fs.setWidth 32, fun c => c.es.setWidth 32, fun c => c.ds.setWidth 32,
    Cpu.edi, Cpu.esi, Cpu.ebp, Cpu.esp, Cpu.edx, Cpu.ecx, Cpu.ebx, Cpu.eax]

def pushRegs (mode : StackMode) (regs : List (Cpu → BitVec 32)) : Asm Unit :=
  forM regs fun reg => do
    let m ← get
    push mode (toLE 4 (reg m.cpu).toNat)

def saveBiosregs (mode : StackMode) : Asm Unit := pushRegs mode savedRegs

/-- `RESTORE_BIOSREGS`: the registers in the order in which they are popped. -/
def restoredRegs : List (Cpu → BitVec 32 → Cpu) :=
  [fun c v => { c with eax := v }, fun c v => { c with ebx := v }, fun c v => { c with ecx := v },
    fun c v => { c with edx := v }, fun c v => { c with esp := v }, fun c v => { c with ebp := v },
    fun c v => { c with esi := v }, fun c v => { c with edi := v },
    fun c v => { c with ds := v.setWidth 16 }, fun c v => { c with es := v.setWidth 16 },
    fun c v => { c with fs := v.setWidth 16 }]

def popRegs (mode : StackMode) (regs : List (Cpu → BitVec 32 → Cpu)) : Asm Unit :=
  forM regs fun reg => do
    let bs ← pop mode 4
    modify fun m => { m with cpu := reg m.cpu (BitVec.ofNat 32 (ofLE bs)) }

def restoreBiosregs (mode : StackMode) : Asm Unit := popRegs mode restoredRegs

/-! ### Saving -/

/-- The words that the pushes leave, in the order of their addresses, if the
last one is at offset `k`. -/
def pushedWords (c : Cpu) (k : Nat) : List (Cpu → BitVec 32) → List Nat
  | [] => []
  | reg :: regs =>
    pushedWords c k regs ++
      [(reg { c with esp := BitVec.ofNat 32 (k + 4 * regs.length + 4) }).toNat]

theorem pushRegs_stacked {mode : StackMode} {m : Board} (regs : List (Cpu → BitVec 32)) {k : Nat}
    {bs : List Byte} (hk : k + (4 * regs.length + bs.length) < mode.limit) :
    pushRegs mode regs (m.stacked mode (k + 4 * regs.length) bs) =
      .ok () (m.stacked mode k (wordBytes 4 (pushedWords m.cpu k regs) ++ bs)) := by
  induction regs generalizing bs with
  | nil => rfl
  | cons reg regs ih =>
    have hesp : k + 4 * (reg :: regs).length = k + 4 * regs.length + 4 := by
      rw [List.length_cons]
      ring
    rw [List.length_cons] at hk
    have hcpu : (m.stacked mode (k + 4 * regs.length + 4) bs).cpu =
        { m.cpu with esp := BitVec.ofNat 32 (k + 4 * regs.length + 4) } := rfl
    have hpush := @push_stacked mode m (k + 4 * regs.length) bs
      (toLE 4 (reg { m.cpu with esp := BitVec.ofNat 32 (k + 4 * regs.length + 4) }).toNat)
      (by rw [length_toLE]; omega)
    rw [length_toLE] at hpush
    have hrest := @ih (toLE 4 (reg { m.cpu with
        esp := BitVec.ofNat 32 (k + 4 * regs.length + 4) }).toNat ++ bs)
      (by rw [List.length_append, length_toLE]; omega)
    have hfirst : (do
        let m ← get
        push mode (toLE 4 (reg m.cpu).toNat) : Asm Unit)
          (m.stacked mode (k + 4 * regs.length + 4) bs) = .ok () _ := hpush
    rw [pushRegs, List.forM_cons, hesp, StateRun.bind_of_ok hfirst]
    refine hrest.trans ?_
    rw [pushedWords, wordBytes_append, List.append_assoc]
    rfl

/-! ### Loading back -/

/-- The registers after the pops, with the values `vs`. -/
def poppedCpu : List (Cpu → BitVec 32 → Cpu) → List Nat → Cpu → Cpu
  | reg :: regs, v :: vs, c =>
    poppedCpu regs vs (reg { c with esp := c.esp + 4#32 } (BitVec.ofNat 32 v))
  | _, _, c => c

/-- A register of the list leaves the stack in place: it is none that addresses
the stack, or it gets the value that the stack pointer has after the pop. -/
def KeepsStack (k : Nat) (reg : Cpu → BitVec 32 → Cpu) (v : Nat) : Prop :=
  ∀ c : Cpu, c.esp = BitVec.ofNat 32 (k + 4) →
    (reg c (BitVec.ofNat 32 v)).esp = c.esp ∧ (reg c (BitVec.ofNat 32 v)).ss = c.ss

/-- Every register of the list does, the first one being popped at offset `k`. -/
def KeepStack : Nat → List (Cpu → BitVec 32 → Cpu) → List Nat → Prop
  | k, reg :: regs, v :: vs => KeepsStack k reg v ∧ KeepStack (k + 4) regs vs
  | _, [], [] => True
  | _, _, _ => False

theorem stackBase_congr {c c' : Cpu} (mode : StackMode) (h : c'.ss = c.ss) :
    c'.stackBase mode = c.stackBase mode := by
  cases mode with
  | flat base => rfl
  | real => simp only [Cpu.stackBase, h]

theorem popRegs_apply {mode : StackMode} (regs : List (Cpu → BitVec 32 → Cpu)) (vs : List Nat)
    {m : Board} {k : Nat} (hesp : m.cpu.esp = BitVec.ofNat 32 k) (hkeep : KeepStack k regs vs)
    (hk : k + 4 * vs.length < mode.limit) (hvs : ∀ v ∈ vs, v < 2 ^ 32)
    (hmem : ∀ i, (hi : i < vs.length) →
      load m.fw.mem (m.cpu.stackBase mode + BitVec.ofNat 32 (k + 4 * i)) 4 = toLE 4 vs[i]) :
    popRegs mode regs m = .ok () { m with cpu := poppedCpu regs vs m.cpu } := by
  induction regs generalizing vs m k with
  | nil =>
    cases vs with
    | nil => rfl
    | cons v vs => exact hkeep.elim
  | cons reg regs ih =>
    cases vs with
    | nil => exact hkeep.elim
    | cons v vs =>
      obtain ⟨hfirst, hrest⟩ := hkeep
      rw [List.length_cons] at hk
      have hpop := @pop_apply mode m k 4 hesp (by omega)
      have hload := hmem 0 (by simp)
      rw [Nat.mul_zero, Nat.add_zero, List.getElem_cons_zero] at hload
      have hword : ofLE (toLE 4 v) = v := ofLE_toLE_of_lt (hvs v (by simp))
      have hmoved : m.cpu.esp + 4#32 = BitVec.ofNat 32 (k + 4) := by
        rw [hesp, BitVec.ofNat_add]
      obtain ⟨hesp', hss'⟩ := hfirst { m.cpu with esp := m.cpu.esp + 4#32 } hmoved
      have hbase := stackBase_congr (c := m.cpu) mode hss'
      rw [hload] at hpop
      have hnext := ih vs (m := { m with
          cpu := reg { m.cpu with esp := m.cpu.esp + 4#32 } (BitVec.ofNat 32 v) })
        (hesp'.trans hmoved) hrest (by omega) (fun u hu => hvs u (by simp [hu])) (fun i hi => by
          have hi' := hmem (i + 1) (by simpa using hi)
          rw [List.getElem_cons_succ] at hi'
          rw [hbase, Nat.add_assoc, ← Nat.mul_succ 4 i |>.trans (Nat.add_comm _ _)]
          exact hi')
      have hstep : (do
          let bs ← pop mode 4
          modify fun m => { m with cpu := reg m.cpu (BitVec.ofNat 32 (ofLE bs)) } : Asm Unit) m =
            .ok () { m with
              cpu := reg { m.cpu with esp := m.cpu.esp + 4#32 } (BitVec.ofNat 32 v) } := by
        rw [StateRun.bind_of_ok hpop, StateRun.modify_apply, hword, hmoved]
      rw [popRegs, List.forM_cons, StateRun.bind_of_ok hstep]
      exact hnext

/-! ### The saved registers -/

/-- The registers of `struct biosregs`. -/
structure SavedRegs where
  eax : BitVec 32
  ebx : BitVec 32
  ecx : BitVec 32
  edx : BitVec 32
  esp : BitVec 32
  ebp : BitVec 32
  esi : BitVec 32
  edi : BitVec 32
  ds : BitVec 32
  es : BitVec 32
  fs : BitVec 32
deriving DecidableEq

def SavedRegs.words (f : SavedRegs) : List Nat :=
  [f.eax.toNat, f.ebx.toNat, f.ecx.toNat, f.edx.toNat, f.esp.toNat, f.ebp.toNat, f.esi.toNat,
    f.edi.toNat, f.ds.toNat, f.es.toNat, f.fs.toNat]

/-- What is saved if the last word is at offset `k`. -/
def Cpu.saved (c : Cpu) (k : Nat) : SavedRegs where
  eax := c.eax
  ebx := c.ebx
  ecx := c.ecx
  edx := c.edx
  esp := BitVec.ofNat 32 (k + 20)
  ebp := c.ebp
  esi := c.esi
  edi := c.edi
  ds := c.ds.setWidth 32
  es := c.es.setWidth 32
  fs := c.fs.setWidth 32

/-- The registers loaded back, apart from ESP. -/
def Cpu.restored (c : Cpu) (f : SavedRegs) : Cpu :=
  { c with
    eax := f.eax
    ebx := f.ebx
    ecx := f.ecx
    edx := f.edx
    ebp := f.ebp
    esi := f.esi
    edi := f.edi
    ds := f.ds.setWidth 16
    es := f.es.setWidth 16
    fs := f.fs.setWidth 16 }

theorem SavedRegs.words_lt (f : SavedRegs) : ∀ v ∈ f.words, v < 2 ^ 32 := by
  intro v hv
  simp only [SavedRegs.words, List.mem_cons, List.not_mem_nil, or_false] at hv
  rcases hv with rfl | rfl | rfl | rfl | rfl | rfl | rfl | rfl | rfl | rfl | rfl <;>
    exact BitVec.isLt _

theorem pushedWords_savedRegs (c : Cpu) (k : Nat) :
    pushedWords c k savedRegs = (c.saved k).words := rfl

theorem saveBiosregs_stacked {mode : StackMode} {m : Board} {k : Nat} {bs : List Byte}
    (hk : k + 44 + bs.length < mode.limit) :
    saveBiosregs mode (m.stacked mode (k + 44) bs) =
      .ok () (m.stacked mode k (wordBytes 4 (m.cpu.saved k).words ++ bs)) := by
  have hpush := @pushRegs_stacked mode m savedRegs k bs (by
    change k + (44 + bs.length) < mode.limit
    omega)
  rw [pushedWords_savedRegs] at hpush
  exact hpush

/-- The words of saved registers leave the stack in place while they are popped. -/
theorem keepStack_words {f : SavedRegs} {k : Nat} (hesp : f.esp = BitVec.ofNat 32 (k + 20)) :
    KeepStack k restoredRegs f.words := by
  have hback (v : BitVec 32) : BitVec.ofNat 32 v.toNat = v := by simp
  refine ⟨fun c _ => ⟨rfl, rfl⟩, fun c _ => ⟨rfl, rfl⟩, fun c _ => ⟨rfl, rfl⟩,
    fun c _ => ⟨rfl, rfl⟩, fun c hc => ⟨?_, rfl⟩, fun c _ => ⟨rfl, rfl⟩, fun c _ => ⟨rfl, rfl⟩,
    fun c _ => ⟨rfl, rfl⟩, fun c _ => ⟨rfl, rfl⟩, fun c _ => ⟨rfl, rfl⟩, fun c _ => ⟨rfl, rfl⟩,
    trivial⟩
  rw [hc]
  exact (hback f.esp).trans hesp

theorem poppedCpu_words (c : Cpu) {f : SavedRegs} {k : Nat}
    (hesp : f.esp = BitVec.ofNat 32 (k + 20)) :
    poppedCpu restoredRegs f.words c =
      { c.restored f with esp := BitVec.ofNat 32 (k + 44) } := by
  have hback (v : BitVec 32) : BitVec.ofNat 32 v.toNat = v := by simp
  have hup : BitVec.ofNat 32 (k + 20) + 4#32 + 4#32 + 4#32 + 4#32 + 4#32 + 4#32 =
      BitVec.ofNat 32 (k + 44) := by
    simp only [← BitVec.ofNat_add, Nat.add_assoc]
  simp only [restoredRegs, SavedRegs.words, poppedCpu, hback, hesp, hup, Cpu.restored]

/-- The words of a block in memory that starts with saved registers. -/
theorem load_words {m : Mem} {base : BitVec 32} {k n : Nat} {f : SavedRegs} {rest : List Byte}
    (hmem : load m (base + BitVec.ofNat 32 k) n = wordBytes 4 f.words ++ rest) {i : Nat}
    (hi : i < f.words.length) :
    load m (base + BitVec.ofNat 32 (k + 4 * i)) 4 = toLE 4 f.words[i] := by
  have hn : n = 44 + rest.length := by
    have hlen := congrArg List.length hmem
    rw [length_load, List.length_append, length_wordBytes] at hlen
    exact hlen
  have hlen : f.words.length = 11 := rfl
  have hslice := slice_load m (base + BitVec.ofNat 32 k) (by omega : 4 * i + 4 ≤ n)
  rw [hmem, slice_wordBytes hi] at hslice
  rw [BitVec.ofNat_add, ← BitVec.add_assoc]
  exact hslice.symm

theorem restoreBiosregs_apply {mode : StackMode} {m : Board} {k n : Nat} {f : SavedRegs}
    {rest : List Byte} (hesp : m.cpu.esp = BitVec.ofNat 32 k)
    (hmem : load m.fw.mem (m.cpu.stackBase mode + BitVec.ofNat 32 k) n =
      wordBytes 4 f.words ++ rest)
    (hf : f.esp = BitVec.ofNat 32 (k + 20)) (hk : k + 44 < mode.limit) :
    restoreBiosregs mode m =
      .ok () { m with cpu := { m.cpu.restored f with esp := BitVec.ofNat 32 (k + 44) } } := by
  have hpop := popRegs_apply restoredRegs f.words hesp (keepStack_words hf) hk f.words_lt
    fun i hi => load_words hmem hi
  rw [poppedCpu_words m.cpu hf] at hpop
  exact hpop

end Qboot
