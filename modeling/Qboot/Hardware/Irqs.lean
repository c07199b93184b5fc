import Qboot.Hardware.Vectors

/-!
Hardware interrupts while real-mode code runs on the vectors of `setup_idt` and
the controllers of `setup_pic`: the processor goes through the vector table to
`bios_irq` and back, and the controllers see its write to port 0x20.
-/

namespace Qboot

open Bytes ByteMemory

/-! ### Runs -/

/-- The processor with its memory, and the interrupt controllers. -/
structure IrqBoard where
  board : Board
  pics : PicPair

def X86_EFLAGS_IF : BitVec 32 := 0x200#32

/-- The processor takes interrupts. -/
def Cpu.interruptible (c : Cpu) : Bool := c.eflags &&& X86_EFLAGS_IF ≠ 0#32

/-- Code that does not touch the controllers, beside them. -/
def onBoard (code : Asm Unit) : EStateM BoardStop IrqBoard Unit := fun x =>
  match code x.board with
  | .ok _ m => .ok () { x with board := m }
  | .error stop m => .error stop { x with board := m }

theorem onBoard_ok {code : Asm Unit} {x : IrqBoard} {m : Board} (h : code x.board = .ok () m) :
    onBoard code x = .ok () { x with board := m } := by
  rw [onBoard, h]

/-- The processor takes an interrupt if there is one. The controllers get what
the handler writes to their ports. -/
def serveIrq (labels : Labels) (scratch : List Byte) :
    EStateM BoardStop IrqBoard (Option (BitVec 8)) := do
  let x ← get
  match if x.board.cpu.interruptible then x.pics.acknowledge else none with
  | none => pure none
  | some (vec, pics) => do
    onBoard (interrupt labels scratch vec)
    modify fun y => { y with pics := pics.outbs (y.board.ports.drop x.board.ports.length) }
    pure (some vec)

/-- One event, and the vector that it delivers. -/
def irqStep (labels : Labels) (scratch : List Byte) :
    IrqEvent → EStateM BoardStop IrqBoard (Option (BitVec 8))
  | .drive n up => do
    modify fun x => { x with pics := x.pics.drive n up }
    pure none
  | .maskMaster v => do
    modify fun x => { x with pics := x.pics.outb 0x21#16 v }
    pure none
  | .maskSlave v => do
    modify fun x => { x with pics := x.pics.outb 0xa1#16 v }
    pure none
  | .serve => serveIrq labels scratch

/-- The vectors that a sequence of events delivers. -/
def runIrqs (labels : Labels) (scratch : List Byte) :
    List IrqEvent → EStateM BoardStop IrqBoard (List (BitVec 8))
  | [] => pure []
  | e :: events => do
    let v ← irqStep labels scratch e
    let vs ← runIrqs labels scratch events
    pure (v.toList ++ vs)

/-! ### The interrupted code -/

/-- `m` is the machine before the events, `x` the one after the vectors `vs`. -/
structure IrqsHandled (labels : Labels) (m : Board) (vs : List (BitVec 8)) (x : IrqBoard) :
    Prop where
  cpu : x.board.cpu = m.cpu
  memory : ∀ a, ¬ Within (m.cpu.freeStack 8) 8 a → x.board.fw.mem a = m.fw.mem a
  ports : x.board.ports = m.ports ++ List.replicate vs.length (0x20#16, 0x20#8)
  table : load x.board.fw.mem 0#32 0x400 = vectorTable labels
  delivered : x.pics.Delivered vs

section Step

variable {labels : Labels} {scratch : List Byte} {m : Board} {vs : List (BitVec 8)} {x : IrqBoard}

/-- A change of the controllers only. -/
theorem IrqsHandled.withPics (h : IrqsHandled labels m vs x) {p : PicPair}
    (hp : p.Delivered vs) : IrqsHandled labels m vs { x with pics := p } :=
  ⟨h.cpu, h.memory, h.ports, h.table, hp⟩

/-- An interrupt that is delivered is handled. -/
theorem IrqsHandled.served (hplaced : labels.Placed) (hcall : m.MayCall 8)
    (h : IrqsHandled labels m vs x) {vec : BitVec 8} {q : PicPair}
    (hack : x.pics.acknowledge = some (vec, q)) : ∃ m',
    interrupt labels scratch vec x.board = .ok () m' ∧
      m'.ports = x.board.ports ++ [(0x20#16, 0x20#8)] ∧
      IrqsHandled labels m (vs ++ [vec]) { board := m', pics := q.finish } := by
  have hirq := (h.delivered.programmed.slave_isr hack).1
  have hcall' : x.board.MayCall 8 :=
    ⟨by rw [h.cpu]; exact hcall.room, by rw [h.cpu]; exact hcall.stack,
      by rw [h.cpu]; exact hcall.code, by rw [h.cpu]; exact hcall.apart⟩
  have hvec : labels.handler vec.toNat = labels.biosIrq := by
    rw [Labels.handler, if_neg (by omega), if_neg (by omega), if_pos hirq]
  let bs : List Byte := toLE 2 (x.board.cpu.eax.setWidth 16).toNat ++ x.board.cpu.frame
  have hlen : bs.length = 8 := rfl
  have hfree : x.board.cpu.freeStack 8 = m.cpu.freeStack 8 := by rw [h.cpu]
  refine ⟨_, interrupt_irq hplaced h.table hcall' hvec, rfl, ?_⟩
  constructor
  · exact h.cpu
  · intro a ha
    rw [← h.memory a ha]
    rw [← hfree, ← hlen] at ha
    exact store_of_not_within _ ha
  · rw [List.length_append, List.length_singleton, List.replicate_succ', ← List.append_assoc,
      ← h.ports]
  · rw [← h.table]
    apply load_store_outside _ (by decide)
    rw [hfree]
    exact hcall.apart
  · exact h.delivered.served hack

/-- One event: the controllers do what they do alone, and the interrupted code
does not notice. -/
theorem irqStep_handled (hplaced : labels.Placed) (hcall : m.MayCall 8)
    (h : IrqsHandled labels m vs x) (e : IrqEvent) : ∃ x',
    irqStep labels scratch e x = .ok (x.pics.next m.cpu.interruptible e).1 x' ∧
      x'.pics = (x.pics.next m.cpu.interruptible e).2 ∧
      IrqsHandled labels m (vs ++ (x.pics.next m.cpu.interruptible e).1.toList) x' := by
  have hnext := h.delivered.next m.cpu.interruptible e
  cases e with
  | drive n up =>
    refine ⟨_, rfl, rfl, ?_⟩
    rw [← List.append_nil vs] at h
    exact h.withPics hnext
  | maskMaster v =>
    refine ⟨_, rfl, rfl, ?_⟩
    rw [← List.append_nil vs] at h
    exact h.withPics hnext
  | maskSlave v =>
    refine ⟨_, rfl, rfl, ?_⟩
    rw [← List.append_nil vs] at h
    exact h.withPics hnext
  | serve =>
    rw [irqStep, serveIrq, StateRun.bind_of_ok (StateRun.get_apply x), h.cpu]
    simp only [PicPair.next] at hnext ⊢
    cases hack : if m.cpu.interruptible then x.pics.acknowledge else none with
    | none =>
      refine ⟨x, rfl, rfl, ?_⟩
      rwa [Option.toList_none, List.append_nil]
    | some delivered =>
      have htaken : x.pics.acknowledge = some (delivered.1, delivered.2) := by
        split at hack
        · exact hack
        · cases hack
      obtain ⟨m', hrun, hports, hhandled⟩ :=
        @IrqsHandled.served _ scratch _ _ _ hplaced hcall h _ _ htaken
      have hsent : m'.ports.drop x.board.ports.length = [(0x20#16, 0x20#8)] := by
        rw [hports]
        exact List.drop_left
      refine ⟨{ board := m', pics := delivered.2.finish }, ?_, rfl, hhandled⟩
      refine (StateRun.bind_of_ok (onBoard_ok hrun)).trans ?_
      have hpics : delivered.2.outbs (m'.ports.drop x.board.ports.length) = delivered.2.finish :=
        congrArg delivered.2.outbs hsent
      exact congrArg (fun pics => EStateM.Result.ok (some delivered.1) (IrqBoard.mk m' pics)) hpics

/-- Any sequence of events. -/
theorem runIrqs_handled (hplaced : labels.Placed) (hcall : m.MayCall 8)
    (h : IrqsHandled labels m vs x) (events : List IrqEvent) : ∃ x',
    runIrqs labels scratch events x =
        .ok (PicPair.run m.cpu.interruptible events x.pics).1 x' ∧
      IrqsHandled labels m (vs ++ (PicPair.run m.cpu.interruptible events x.pics).1) x' := by
  induction events generalizing vs x with
  | nil =>
    refine ⟨x, rfl, ?_⟩
    rw [← List.append_nil vs] at h
    exact h
  | cons e events ih =>
    obtain ⟨y, hstep, hpics, hnext⟩ := @irqStep_handled _ scratch _ _ _ hplaced hcall h e
    obtain ⟨x', hrun, hlast⟩ := ih hnext
    rw [hpics] at hrun hlast
    rw [List.append_assoc] at hlast
    exact ⟨x', (StateRun.bind_of_ok hstep).trans ((StateRun.bind_of_ok hrun).trans rfl), hlast⟩

end Step

/-! ### From the setup on -/

/-- What a run from `m` leaves, and what can be said of its vectors. -/
structure IrqsServed (m : Board) (vs : List (BitVec 8)) (x : IrqBoard) : Prop where
  cpu : x.board.cpu = m.cpu
  memory : ∀ a, ¬ Within (m.cpu.freeStack 8) 8 a → x.board.fw.mem a = m.fw.mem a
  ports : x.board.ports = m.ports ++ List.replicate vs.length (0x20#16, 0x20#8)
  vectors : ∀ v ∈ vs, IsIrq v.toNat
  falling : (secondVectors vs).Pairwise fun v w => w.toNat < v.toNat
  few : (secondVectors vs).length ≤ 7
  /-- What the first controller does not mask can be delivered at once. -/
  ready : ∀ n < 8, (x.pics.master.irr &&& ~~~x.pics.master.imr).getLsbD n = true →
    x.pics.acknowledge.isSome
  /-- What the second controller has to deliver is a request there. -/
  waiting : x.pics.slave.pending.isSome → x.pics.master.irr.getLsbD 2 = true

theorem IrqsHandled.irqsServed {labels : Labels} {m : Board} {vs : List (BitVec 8)} {x : IrqBoard}
    (h : IrqsHandled labels m vs x) : IrqsServed m vs x where
  cpu := h.cpu
  memory := h.memory
  ports := h.ports
  vectors := h.delivered.vectors
  falling := h.delivered.falling
  few := h.delivered.length_second
  ready := fun _ hn hrequest => h.delivered.ready hn hrequest
  waiting := fun hpending => by
    rw [← h.delivered.cascaded.line] at hpending
    exact h.delivered.cascaded.latch hpending

/-- After `setup_pic` and `setup_idt`, whatever the controllers were doing
before, every interrupt reaches `bios_irq` and leaves the interrupted code as it
was. Until that code writes the masks nothing arrives, but for the vector of an
old request in the cascade. The first controller is ready for the next
interrupt; the second one delivers falling vectors only, beside its last. -/
theorem irqs_delivered {labels : Labels} (hplaced : labels.Placed) {m : Board}
    (htable : load m.fw.mem 0#32 0x400 = vectorTable labels) (hcall : m.MayCall 8)
    (scratch : List Byte) (p : PicPair) (events : List IrqEvent) : ∃ vs x,
    runIrqs labels scratch events { board := m, pics := setupPic p } = .ok vs x ∧
      vs = (PicPair.run m.cpu.interruptible events (setupPic p)).1 ∧ IrqsServed m vs x ∧
      ((∀ e ∈ events, e.KeepsMasks) →
        vs = [] ∨ vs = [0x77#8] ∧ p.slave.irr &&& p.slave.elcr ≠ 0#8) := by
  have hstart : IrqsHandled labels m [] { board := m, pics := setupPic p } :=
    ⟨rfl, fun _ _ => rfl, (List.append_nil _).symm, htable, PicPair.delivered_setupPic p⟩
  obtain ⟨x, hrun, hhandled⟩ := @runIrqs_handled _ scratch _ _ _ hplaced hcall hstart events
  exact ⟨_, x, hrun, rfl, hhandled.irqsServed, PicPair.run_setupPic_masked p _⟩

/-- A controller after a reset of the machine. -/
def resetPic : Pic where
  lines := 0#8
  irr := 0#8
  isr := 0#8
  imr := 0#8
  elcr := 0#8
  base := 0#8
  cascade := 0#8
  single := false
  autoEoi := false
  x86 := false
  needIcw4 := false
  phase := .mask

/-- The disk and then the network card interrupt code that has opened its masks.
The code masks the disk again before it gets the first interrupt. -/
def irqEvents : List IrqEvent :=
  [.maskMaster 0xf8#8, .maskSlave 0x00#8, .drive 14 true, .maskSlave 0xff#8, .serve,
    .maskSlave 0x00#8, .serve, .drive 10 true, .drive 0 true, .serve, .serve,
    .drive 14 false, .drive 14 true, .serve]

/-- Two vectors for one request of the disk: the first one is that of a request
that is gone. Then the timer comes before the network card, and the disk can not
interrupt again. -/
theorem irqs_delivered_disk : ∃ x,
    runIrqs entryLabels [] irqEvents
        { board := vesaBoard, pics := setupPic { master := resetPic, slave := resetPic } } =
      .ok [0x77#8, 0x76#8, 0x08#8, 0x72#8] x ∧
      IrqsServed vesaBoard [0x77#8, 0x76#8, 0x08#8, 0x72#8] x := by
  have htable : load vesaBoard.fw.mem 0#32 0x400 = vectorTable entryLabels :=
    load_vectorTable entryLabels blankMachine.mem
  obtain ⟨vs, x, hrun, hvs, hserved, -⟩ := irqs_delivered entryLabels_placed htable
    (vesaBoard_mayCall.fewer (by decide)) [] { master := resetPic, slave := resetPic } irqEvents
  have hvectors : (PicPair.run vesaBoard.cpu.interruptible irqEvents
      (setupPic { master := resetPic, slave := resetPic })).1 =
      [0x77#8, 0x76#8, 0x08#8, 0x72#8] := by
    decide +kernel
  rw [hvectors] at hvs
  rw [hvs] at hrun hserved
  exact ⟨x, hrun, hserved⟩

end Qboot
