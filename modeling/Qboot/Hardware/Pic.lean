import Qboot.Lib.Bytes

/-!
The two interrupt controllers of a PC, and how `setup_pic` of hwsetup.c programs
them. The second controller is wired to input 2 of the first one. An edge there
stays latched when the second controller has nothing to deliver any more.
-/

namespace Qboot

open Bytes

/-! ### One controller -/

/-- What the next byte at the data port of a controller is. -/
inductive PicPhase where
  | mask
  | icw2
  | icw3
  | icw4
deriving DecidableEq

/-- An 8259. Bit `n` of each of the byte registers is for input `n`. -/
structure Pic where
  /-- The inputs as the edge detection saw them last. -/
  lines : BitVec 8
  irr : BitVec 8
  isr : BitVec 8
  imr : BitVec 8
  /-- Level-triggered inputs. -/
  elcr : BitVec 8
  /-- The first vector. -/
  base : BitVec 8
  /-- The third command word: on the first controller the inputs with another
  controller behind them, on the second one its number. -/
  cascade : BitVec 8
  single : Bool
  autoEoi : Bool
  x86 : Bool
  needIcw4 : Bool
  phase : PicPhase
deriving DecidableEq

namespace Pic

variable (p : Pic)

/-- The first command word starts over; requests stay on level-triggered inputs. -/
def restart (v : BitVec 8) : Pic :=
  { p with
    lines := 0#8
    irr := p.irr &&& p.elcr
    isr := 0#8
    imr := 0#8
    base := 0#8
    cascade := 0#8
    single := v.getLsbD 1
    autoEoi := false
    x86 := false
    needIcw4 := v.getLsbD 0
    phase := .icw2 }

/-- The end of the interrupt that is first in service. -/
def eoi : Pic := { p with isr := p.isr &&& (p.isr - 1#8) }

/-- A byte at the command port. The other commands of the controller are not
used by the firmware. -/
def command (v : BitVec 8) : Pic :=
  if v.getLsbD 4 then p.restart v
  else if v = 0x20#8 then p.eoi
  else p

/-- A byte at the data port. -/
def data (v : BitVec 8) : Pic :=
  match p.phase with
  | .mask => { p with imr := v }
  | .icw2 =>
    { p with
      base := v &&& 0xf8#8
      phase := if p.single then if p.needIcw4 then .icw4 else .mask else .icw3 }
  | .icw3 => { p with cascade := v, phase := if p.needIcw4 then .icw4 else .mask }
  | .icw4 => { p with x86 := v.getLsbD 0, autoEoi := v.getLsbD 1, phase := .mask }

/-- Input `n` is up or down. The request of an edge stays when it goes down. -/
def drive (n : Nat) (up : Bool) : Pic :=
  { p with
    lines := if up then p.lines ||| BitVec.twoPow 8 n else p.lines &&& ~~~BitVec.twoPow 8 n
    irr :=
      if up then
        if p.lines.getLsbD n ∧ ¬ p.elcr.getLsbD n then p.irr else p.irr ||| BitVec.twoPow 8 n
      else if p.elcr.getLsbD n then p.irr &&& ~~~BitVec.twoPow 8 n
      else p.irr }

/-- The first request that is not masked, unless it or one in front of it is in
service. The controller's output is up while there is one. -/
def pending : Option Nat :=
  (List.range 8).find? fun n =>
    (p.irr &&& ~~~p.imr).getLsbD n ∧ ∀ k ≤ n, p.isr.getLsbD k = false

/-- The processor takes the interrupt of input `n`. -/
def accept (n : Nat) : Pic :=
  { p with
    isr := if p.autoEoi then p.isr else p.isr ||| BitVec.twoPow 8 n
    irr := if p.elcr.getLsbD n then p.irr else p.irr &&& ~~~BitVec.twoPow 8 n }

def vector (n : Nat) : BitVec 8 := p.base ||| BitVec.ofNat 8 n

end Pic

/-! ### The pair -/

structure PicPair where
  master : Pic
  slave : Pic
deriving DecidableEq

namespace PicPair

variable (p : PicPair)

/-- The second controller changes, and the input of the first one follows its
output. -/
def withSlave (slave : Pic) : PicPair where
  master := p.master.drive 2 slave.pending.isSome
  slave := slave

/-- A device's wire. Nothing but the second controller drives input 2. -/
def drive (n : Fin 16) (up : Bool) : PicPair :=
  if n.val = 2 then p
  else if n.val < 8 then { p with master := p.master.drive n.val up }
  else p.withSlave (p.slave.drive (n.val - 8) up)

/-- A byte at one of the ports of the pair. The edge/level registers keep the
inputs of the timer, the keyboard, the clock and the coprocessor edge-triggered. -/
def outb (port : BitVec 16) (v : BitVec 8) : PicPair :=
  if port = 0x20#16 then { p with master := p.master.command v }
  else if port = 0x21#16 then { p with master := p.master.data v }
  else if port = 0xa0#16 then p.withSlave (p.slave.command v)
  else if port = 0xa1#16 then p.withSlave (p.slave.data v)
  else if port = 0x4d0#16 then { p with master := { p.master with elcr := v &&& 0xf8#8 } }
  else if port = 0x4d1#16 then { p with slave := { p.slave with elcr := v &&& 0xde#8 } }
  else p

def outbs (writes : List (BitVec 16 × Byte)) : PicPair :=
  writes.foldl (fun q w => q.outb w.1 w.2) p

/-- The vector of the interrupt that the processor takes, if there is one. A
second controller that has nothing to deliver any more answers with its last
vector and has nothing in service. -/
def acknowledge : Option (BitVec 8 × PicPair) :=
  match p.master.pending with
  | none => none
  | some n =>
    if p.master.cascade.getLsbD n then
      match p.slave.pending with
      | some k =>
        let q := p.withSlave (p.slave.accept k)
        some (p.slave.vector k, { q with master := q.master.accept n })
      | none => some (p.slave.vector 7, { p with master := p.master.accept n })
    else some (p.master.vector n, { p with master := p.master.accept n })

end PicPair

/-! ### The setup -/

/-- `setup_pic` -/
def setupPic (p : PicPair) : PicPair :=
  -- ICW1 (select OCW1 + will send ICW4)
  let p := (p.outb 0x20#16 0x11#8).outb 0xa0#16 0x11#8
  -- ICW2 (base irqs: 0x08-0x0f for irq0-7, 0x70-0x77 for irq8-15)
  let p := (p.outb 0x21#16 8#8).outb 0xa1#16 0x70#8
  -- ICW3 (cascaded pic ids)
  let p := (p.outb 0x21#16 0x04#8).outb 0xa1#16 0x02#8
  -- ICW4 (enable 8086 mode)
  let p := (p.outb 0x21#16 0x01#8).outb 0xa1#16 0x01#8
  -- all irqs but the cascaded one masked
  let p := (p.outb 0x21#16 (~~~(1#8 <<< 2))).outb 0xa1#16 (~~~0#8)
  (p.outb 0x4d0#16 0#8).outb 0x4d1#16 0x0c#8

/-- What `setup_pic` makes of the second controller, whatever it was doing. -/
theorem setupPic_slave (p : PicPair) : (setupPic p).slave =
    { lines := 0#8
      irr := p.slave.irr &&& p.slave.elcr
      isr := 0#8
      imr := 0xff#8
      elcr := 0x0c#8
      base := 0x70#8
      cascade := 0x02#8
      single := false
      autoEoi := false
      x86 := true
      needIcw4 := true
      phase := .mask } := rfl

/-! ### One controller's requests -/

namespace Pic

variable {p : Pic} {n k : Nat} {up : Bool}

theorem getLsbD_set (x : BitVec 8) (hk : k < 8) (n : Nat) :
    (x ||| BitVec.twoPow 8 n).getLsbD k = (x.getLsbD k || decide (k = n)) := by
  rw [BitVec.getLsbD_or, BitVec.getLsbD_twoPow]
  by_cases hkn : k = n
  · rw [← hkn, decide_eq_true hk, decide_eq_true rfl]
    rfl
  · rw [decide_eq_false hkn, decide_eq_false (Ne.symm hkn), Bool.and_false]

theorem getLsbD_clear (x : BitVec 8) (hk : k < 8) (n : Nat) :
    (x &&& ~~~BitVec.twoPow 8 n).getLsbD k = (x.getLsbD k && !decide (k = n)) := by
  rw [BitVec.getLsbD_and, BitVec.getLsbD_not, BitVec.getLsbD_twoPow, decide_eq_true hk,
    Bool.true_and]
  by_cases hkn : k = n
  · rw [← hkn, decide_eq_true hk, decide_eq_true rfl]
    rfl
  · rw [decide_eq_false hkn, decide_eq_false (Ne.symm hkn), Bool.and_false]

theorem lines_drive (hn : n < 8) (up : Bool) : (p.drive n up).lines.getLsbD n = up := by
  cases up
  · exact (getLsbD_clear _ hn n).trans (by rw [decide_eq_true rfl, Bool.not_true, Bool.and_false])
  · exact (getLsbD_set _ hn n).trans (by rw [decide_eq_true rfl, Bool.or_true])

/-- The other inputs do not notice. -/
theorem drive_other (hk : k < 8) (hkn : k ≠ n) (up : Bool) :
    (p.drive n up).lines.getLsbD k = p.lines.getLsbD k ∧
      (p.drive n up).irr.getLsbD k = p.irr.getLsbD k := by
  have hset (x : BitVec 8) : (x ||| BitVec.twoPow 8 n).getLsbD k = x.getLsbD k := by
    rw [getLsbD_set x hk, decide_eq_false hkn, Bool.or_false]
  have hclear (x : BitVec 8) : (x &&& ~~~BitVec.twoPow 8 n).getLsbD k = x.getLsbD k := by
    rw [getLsbD_clear x hk, decide_eq_false hkn, Bool.not_false, Bool.and_true]
  cases up
  · refine ⟨hclear _, ?_⟩
    change (if p.elcr.getLsbD n then p.irr &&& ~~~BitVec.twoPow 8 n else p.irr).getLsbD k = _
    split
    · exact hclear _
    · rfl
  · refine ⟨hset _, ?_⟩
    change (if p.lines.getLsbD n ∧ ¬ p.elcr.getLsbD n then p.irr
      else p.irr ||| BitVec.twoPow 8 n).getLsbD k = _
    split
    · rfl
    · exact hset _

/-- An edge-triggered input that goes down keeps its request. -/
theorem irr_drive_down (hedge : p.elcr.getLsbD n = false) : (p.drive n false).irr = p.irr :=
  if_neg (by rw [hedge]; exact Bool.false_ne_true)

/-- Going up is a request, unless the input was up already. -/
theorem irr_drive_up (hn : n < 8) (hlatch : p.lines.getLsbD n = true → p.irr.getLsbD n = true) :
    (p.drive n true).irr.getLsbD n = true := by
  change (if p.lines.getLsbD n ∧ ¬ p.elcr.getLsbD n then p.irr
    else p.irr ||| BitVec.twoPow 8 n).getLsbD n = true
  split
  · rename_i hcond
    exact hlatch hcond.1
  · rw [getLsbD_set _ hn, decide_eq_true rfl, Bool.or_true]

theorem pending_some (h : p.pending = some n) :
    n < 8 ∧ (p.irr &&& ~~~p.imr).getLsbD n = true ∧ ∀ k ≤ n, p.isr.getLsbD k = false := by
  have hfound := List.find?_some h
  have hmem := List.mem_of_find?_eq_some h
  rw [decide_eq_true_eq] at hfound
  exact ⟨List.mem_range.mp hmem, hfound⟩

/-- A request that is not masked is not lost while nothing is in service. -/
theorem pending_isSome (hidle : p.isr = 0#8) (hn : n < 8)
    (hrequest : (p.irr &&& ~~~p.imr).getLsbD n = true) : p.pending.isSome := by
  rw [pending, List.find?_isSome]
  refine ⟨n, List.mem_range.mpr hn, ?_⟩
  rw [decide_eq_true_eq, hidle]
  exact ⟨hrequest, fun k _ => BitVec.getLsbD_zero⟩

theorem pending_none (h : p.irr &&& ~~~p.imr = 0#8) : p.pending = none := by
  rw [pending, List.find?_eq_none]
  intro n _
  rw [h, BitVec.getLsbD_zero]
  simp

theorem pending_masked (hmask : p.imr = 0xff#8) : p.pending = none := by
  have hbits : ~~~0xff#8 = 0#8 := rfl
  apply pending_none
  rw [hmask, hbits, BitVec.and_zero]

theorem isr_accept (hmanual : p.autoEoi = false) (n : Nat) :
    (p.accept n).isr = p.isr ||| BitVec.twoPow 8 n :=
  if_neg (by rw [hmanual]; exact Bool.false_ne_true)

/-- What is accepted is in service until its end, with what was before. -/
theorem getLsbD_accept (hmanual : p.autoEoi = false) (hk : k < 8) (n : Nat) :
    (p.accept n).isr.getLsbD k = (p.isr.getLsbD k || decide (k = n)) := by
  rw [isr_accept hmanual, getLsbD_set _ hk]

/-- The end of the only interrupt in service. -/
theorem eoi_accept (hidle : p.isr = 0#8) (hmanual : p.autoEoi = false) (hn : n < 8) :
    (p.accept n).eoi.isr = 0#8 := by
  have hbits : ∀ k < 8, (0#8 ||| BitVec.twoPow 8 k) &&& ((0#8 ||| BitVec.twoPow 8 k) - 1#8) =
      0#8 := by decide
  change (p.accept n).isr &&& ((p.accept n).isr - 1#8) = 0#8
  rw [isr_accept hmanual, hidle]
  exact hbits n hn

/-- The request of an edge is gone when it is accepted, the others stay. -/
theorem irr_accept (hedge : p.elcr.getLsbD n = false) :
    (p.accept n).irr = p.irr &&& ~~~BitVec.twoPow 8 n :=
  if_neg (by rw [hedge]; exact Bool.false_ne_true)

/-- Between command words a byte at the data port is the mask. -/
theorem data_mask (hphase : p.phase = .mask) (v : BitVec 8) : p.data v = { p with imr := v } := by
  unfold data
  rw [hphase]

/-- Nothing behind the interrupt that is taken, and nothing in front of it. -/
theorem pending_accept (hmanual : p.autoEoi = false) (h : p.pending = some n) :
    (p.accept n).pending = none := by
  have hn := (pending_some h).1
  have hbefore := (List.find?_range_eq_some.mp h).2.2
  rw [pending, List.find?_eq_none]
  intro k hk
  rw [decide_eq_true_eq]
  rintro ⟨hrequest, hclear⟩
  have hk8 : k < 8 := List.mem_range.mp hk
  by_cases hkn : n ≤ k
  · have hbit := hclear n hkn
    rw [getLsbD_accept hmanual hn, decide_eq_true rfl, Bool.or_true] at hbit
    cases hbit
  · have hearlier := hbefore k (by omega)
    have hold : (p.irr &&& ~~~p.imr).getLsbD k = true := by
      rw [BitVec.getLsbD_and, Bool.and_eq_true] at hrequest ⊢
      refine ⟨?_, hrequest.2⟩
      have hirr := hrequest.1
      change (if p.elcr.getLsbD n then p.irr else p.irr &&& ~~~BitVec.twoPow 8 n).getLsbD k = true
        at hirr
      split at hirr
      · exact hirr
      · rw [getLsbD_clear _ hk8, Bool.and_eq_true] at hirr
        exact hirr.1
    have hfree : ∀ j ≤ k, p.isr.getLsbD j = false := fun j hj => (pending_some h).2.2 j (by omega)
    rw [decide_eq_true (And.intro hold hfree)] at hearlier
    cases hearlier

end Pic

/-! ### The pair after the setup -/

/-- Programmed by `setup_pic`, with any masks. -/
structure PicPair.Programmed (p : PicPair) : Prop where
  masterPhase : p.master.phase = .mask
  slavePhase : p.slave.phase = .mask
  masterBase : p.master.base = 0x08#8
  slaveBase : p.slave.base = 0x70#8
  cascade : p.master.cascade = 0x04#8
  masterEoi : p.master.autoEoi = false
  slaveEoi : p.slave.autoEoi = false
  edges : p.master.elcr = 0#8

/-- The cascade input is up while the second controller has something to
deliver, and then there is a request. -/
structure PicPair.Cascaded (p : PicPair) : Prop where
  line : p.master.lines.getLsbD 2 = p.slave.pending.isSome
  latch : p.master.lines.getLsbD 2 = true → p.master.irr.getLsbD 2 = true

theorem setupPic_programmed (p : PicPair) : (setupPic p).Programmed :=
  ⟨rfl, rfl, rfl, rfl, rfl, rfl, rfl, rfl⟩

namespace PicPair

variable {p : PicPair}

/-- Vectors of the two controllers. -/
theorem vector_master (h : p.Programmed) {n : Nat} (hn : n < 8) :
    (p.master.vector n).toNat = 8 + n := by
  have hall : ∀ k < 8, (0x08#8 ||| BitVec.ofNat 8 k).toNat = 8 + k := by decide
  rw [Pic.vector, h.masterBase]
  exact hall n hn

theorem vector_slave (h : p.Programmed) {n : Nat} (hn : n < 8) :
    (p.slave.vector n).toNat = 0x70 + n := by
  have hall : ∀ k < 8, (0x70#8 ||| BitVec.ofNat 8 k).toNat = 0x70 + k := by decide
  rw [Pic.vector, h.slaveBase]
  exact hall n hn

theorem Programmed.edge (h : p.Programmed) (n : Nat) : p.master.elcr.getLsbD n = false := by
  rw [h.edges, BitVec.getLsbD_zero]

/-- Whatever happens in the second controller, the cascade follows it. -/
theorem Cascaded.withSlave (h : p.Cascaded) (slave : Pic) : (p.withSlave slave).Cascaded where
  line := Pic.lines_drive (by decide) _
  latch := by
    intro hline
    rw [PicPair.withSlave, Pic.lines_drive (by decide)] at hline
    rw [PicPair.withSlave, hline]
    exact Pic.irr_drive_up (by decide) h.latch

/-- `setup_pic` masks the second controller last. -/
theorem setupPic_cascaded (p : PicPair) : (setupPic p).Cascaded := by
  let q : PicPair := p.outbs
    [(0x20#16, 0x11#8), (0xa0#16, 0x11#8), (0x21#16, 8#8), (0xa1#16, 0x70#8), (0x21#16, 0x04#8),
      (0xa1#16, 0x02#8), (0x21#16, 0x01#8), (0xa1#16, 0x01#8), (0x21#16, ~~~(1#8 <<< 2))]
  have hquiet : (setupPic p).slave.pending = none := Pic.pending_masked rfl
  have hmasked : (q.slave.data (~~~0#8)).pending = none := Pic.pending_masked rfl
  have hline : (setupPic p).master.lines.getLsbD 2 = false := by
    change (q.master.drive 2 (q.slave.data (~~~0#8)).pending.isSome).lines.getLsbD 2 = false
    rw [hmasked]
    exact Pic.lines_drive (by decide) _
  constructor
  · rw [hline, hquiet]
    rfl
  · intro hup
    rw [hline] at hup
    cases hup

/-- No request reaches the first controller through the second one. -/
structure Quiet (p : PicPair) : Prop where
  cascade : p.master.irr.getLsbD 2 = false
  slave : p.slave.irr = 0#8

theorem Quiet.withSlave (h : p.Quiet) {slave : Pic} (hslave : slave.irr = 0#8) :
    (p.withSlave slave).Quiet := by
  have hnone : slave.pending = none := Pic.pending_none (by rw [hslave, BitVec.zero_and])
  refine ⟨?_, hslave⟩
  rw [PicPair.withSlave, hnone]
  change (if p.master.elcr.getLsbD 2 then p.master.irr &&& ~~~BitVec.twoPow 8 2
    else p.master.irr).getLsbD 2 = false
  split
  · rw [Pic.getLsbD_clear _ (by decide), h.cascade, Bool.false_and]
  · exact h.cascade

theorem irr_command (p : Pic) (v : BitVec 8) :
    (p.command v).irr = p.irr ∨ (p.command v).irr = p.irr &&& p.elcr := by
  unfold Pic.command
  split
  · exact .inr rfl
  · split
    · exact .inl rfl
    · exact .inl rfl

theorem irr_data (p : Pic) (v : BitVec 8) : (p.data v).irr = p.irr := by
  unfold Pic.data
  split <;> rfl

/-- Programming the controllers requests nothing. -/
theorem Quiet.outb (h : p.Quiet) (port : BitVec 16) (v : BitVec 8) : (p.outb port v).Quiet := by
  unfold PicPair.outb
  split
  · refine ⟨?_, h.slave⟩
    rcases irr_command p.master v with hirr | hirr
    · exact (congrArg (BitVec.getLsbD · 2) hirr).trans h.cascade
    · refine (congrArg (BitVec.getLsbD · 2) hirr).trans ?_
      rw [BitVec.getLsbD_and, h.cascade, Bool.false_and]
  split
  · exact ⟨(congrArg (BitVec.getLsbD · 2) (irr_data p.master v)).trans h.cascade, h.slave⟩
  split
  · apply h.withSlave
    rcases irr_command p.slave v with hirr | hirr
    · rw [hirr, h.slave]
    · rw [hirr, h.slave, BitVec.zero_and]
  split
  · exact h.withSlave ((irr_data p.slave v).trans h.slave)
  split
  · exact ⟨h.cascade, h.slave⟩
  split
  · exact ⟨h.cascade, h.slave⟩
  · exact h

theorem Quiet.outbs (h : p.Quiet) (writes : List (BitVec 16 × Byte)) : (p.outbs writes).Quiet := by
  induction writes generalizing p with
  | nil => exact h
  | cons w writes ih => exact ih (h.outb w.1 w.2)

/-- Level-triggered requests of the second controller are all that `setup_pic`
can leave in the cascade. -/
theorem setupPic_quiet (h : p.slave.irr &&& p.slave.elcr = 0#8) : (setupPic p).Quiet := by
  have hstart : ((p.outb 0x20#16 0x11#8).outb 0xa0#16 0x11#8).Quiet := by
    have hirr : (p.slave.restart 0x11#8).irr = 0#8 := h
    have hnone : (p.slave.restart 0x11#8).pending = none :=
      Pic.pending_none (by rw [hirr, BitVec.zero_and])
    refine ⟨?_, h⟩
    change ((p.master.restart 0x11#8).drive 2
      (p.slave.restart 0x11#8).pending.isSome).irr.getLsbD 2 = false
    rw [hnone]
    change (if p.master.elcr.getLsbD 2 then
        (p.master.irr &&& p.master.elcr) &&& ~~~BitVec.twoPow 8 2
      else p.master.irr &&& p.master.elcr).getLsbD 2 = false
    split
    · rw [Pic.getLsbD_clear _ (by decide), decide_eq_true rfl, Bool.not_true, Bool.and_false]
    · rename_i hedge
      rw [BitVec.getLsbD_and, Bool.eq_false_iff.mpr hedge, Bool.and_false]
  exact hstart.outbs [(0x21#16, 8#8), (0xa1#16, 0x70#8), (0x21#16, 0x04#8), (0xa1#16, 0x02#8),
    (0x21#16, 0x01#8), (0xa1#16, 0x01#8), (0x21#16, ~~~(1#8 <<< 2)), (0xa1#16, ~~~0#8),
    (0x4d0#16, 0#8), (0x4d1#16, 0x0c#8)]

/-- One of three things is delivered: an input of the first controller, one of
the second controller, or what the second one answers when the request behind
its edge is gone. -/
theorem acknowledge_cases (h : p.Programmed) {vec : BitVec 8} {q : PicPair}
    (hack : p.acknowledge = some (vec, q)) :
    (∃ n < 8, n ≠ 2 ∧ (~~~p.master.imr).getLsbD n = true ∧ vec.toNat = 8 + n ∧
        q = { p with master := p.master.accept n }) ∨
      (∃ k < 8, vec.toNat = 0x70 + k ∧ p.slave.pending = some k ∧
        q = { master := (p.withSlave (p.slave.accept k)).master.accept 2
              slave := p.slave.accept k }) ∨
      p.master.irr.getLsbD 2 = true ∧ vec = 0x77#8 ∧ p.slave.pending = none ∧
        q = { p with master := p.master.accept 2 } := by
  have hcascade : ∀ k < 8, (0x04#8).getLsbD k = decide (k = 2) := by decide
  unfold acknowledge at hack
  split at hack
  · cases hack
  · rename_i n hmaster
    obtain ⟨hn, hrequest, -⟩ := Pic.pending_some hmaster
    rw [BitVec.getLsbD_and, Bool.and_eq_true] at hrequest
    rw [h.cascade, hcascade n hn] at hack
    split at hack
    · rename_i hbit
      obtain rfl := of_decide_eq_true hbit
      split at hack
      · rename_i k hslave
        obtain ⟨rfl, rfl⟩ := Prod.mk.inj (Option.some.inj hack)
        have hk := (Pic.pending_some hslave).1
        exact .inr (.inl ⟨k, hk, vector_slave h hk, hslave, rfl⟩)
      · rename_i hslave
        obtain ⟨rfl, rfl⟩ := Prod.mk.inj (Option.some.inj hack)
        refine .inr (.inr ⟨hrequest.1, ?_, hslave, rfl⟩)
        rw [Pic.vector, h.slaveBase]
        rfl
    · rename_i hbit
      rw [decide_eq_true_eq] at hbit
      obtain ⟨rfl, rfl⟩ := Prod.mk.inj (Option.some.inj hack)
      exact .inl ⟨n, hn, hbit, hrequest.2, vector_master h hn, rfl⟩

end PicPair

end Qboot
