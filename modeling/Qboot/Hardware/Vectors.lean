import Qboot.Bios.Services
import Qboot.Hardware.Pic

/-!
The vectors that the controllers of `setup_pic` deliver when every handler ends
its interrupt as `bios_irq` does, in the first controller only. The second one
then delivers each of its inputs at most once. What it still delivers is the
vector of its last input, for requests that are gone when they are acknowledged.
-/

namespace Qboot

open Bytes

/-! ### Runs of the controllers -/

/-- What happens while code of the boot loader or of the kernel runs. -/
inductive IrqEvent where
  /-- A device's wire goes up or down, or stays as it is. -/
  | drive (n : Fin 16) (up : Bool)
  /-- The code writes the mask of the first controller. -/
  | maskMaster (v : Byte)
  | maskSlave (v : Byte)
  /-- The processor looks for an interrupt between two instructions. -/
  | serve
deriving DecidableEq

/-- The ports of `bios_irq` get the end of the interrupt. -/
def PicPair.finish (p : PicPair) : PicPair := p.outb 0x20#16 0x20#8

/-- One event, and the vector that it delivers to a processor that takes
interrupts or does not. -/
def PicPair.next (p : PicPair) (on : Bool) : IrqEvent → Option (BitVec 8) × PicPair
  | .drive n up => (none, p.drive n up)
  | .maskMaster v => (none, p.outb 0x21#16 v)
  | .maskSlave v => (none, p.outb 0xa1#16 v)
  | .serve =>
    match if on then p.acknowledge else none with
    | none => (none, p)
    | some (vec, q) => (some vec, q.finish)

/-- The vectors that a sequence of events delivers. -/
def PicPair.run (on : Bool) : List IrqEvent → PicPair → List (BitVec 8) × PicPair
  | [], p => ([], p)
  | e :: events, p =>
    let rest := PicPair.run on events (p.next on e).2
    ((p.next on e).1.toList ++ rest.1, rest.2)

/-- The vectors of the second controller, but for the last one, which does not
say whether there is a request. -/
def secondVectors (vs : List (BitVec 8)) : List (BitVec 8) :=
  vs.filter fun v => 0x70 ≤ v.toNat ∧ v.toNat < 0x77

/-- The controllers after the vectors `vs`: nothing is in service in the first
one, and in the second one everything it ever delivered. -/
structure PicPair.Delivered (p : PicPair) (vs : List (BitVec 8)) : Prop where
  programmed : p.Programmed
  cascaded : p.Cascaded
  idle : p.master.isr = 0#8
  vectors : ∀ v ∈ vs, IsIrq v.toNat
  inService : ∀ v ∈ secondVectors vs, p.slave.isr.getLsbD (v.toNat - 0x70) = true
  falling : (secondVectors vs).Pairwise fun v w => w.toNat < v.toNat

theorem mem_secondVectors {vs : List (BitVec 8)} {v : BitVec 8} :
    v ∈ secondVectors vs ↔ v ∈ vs ∧ 0x70 ≤ v.toNat ∧ v.toNat < 0x77 := by
  rw [secondVectors, List.mem_filter, decide_eq_true_eq]

theorem secondVectors_concat (vs : List (BitVec 8)) (v : BitVec 8) :
    secondVectors (vs ++ [v]) =
      secondVectors vs ++ if 0x70 ≤ v.toNat ∧ v.toNat < 0x77 then [v] else [] := by
  by_cases hv : 0x70 ≤ v.toNat ∧ v.toNat < 0x77 <;> simp [secondVectors, hv]

namespace PicPair

variable {p q : PicPair} {vs : List (BitVec 8)} {vec : BitVec 8}

/-! ### Steps that deliver nothing -/

theorem Programmed.withSlave (h : p.Programmed) {slave : Pic} (hphase : slave.phase = .mask)
    (hbase : slave.base = 0x70#8) (heoi : slave.autoEoi = false) :
    (p.withSlave slave).Programmed :=
  ⟨h.masterPhase, hphase, h.masterBase, hbase, h.cascade, h.masterEoi, heoi, h.edges⟩

theorem outb_maskMaster (h : p.Programmed) (v : Byte) :
    p.outb 0x21#16 v = { p with master := { p.master with imr := v } } := by
  rw [← Pic.data_mask h.masterPhase]
  rfl

theorem outb_maskSlave (h : p.Programmed) (v : Byte) :
    p.outb 0xa1#16 v = p.withSlave { p.slave with imr := v } := by
  rw [← Pic.data_mask h.slavePhase]
  rfl

/-- A change that neither delivers nor ends anything. -/
theorem Delivered.change (h : p.Delivered vs) (hprogrammed : q.Programmed)
    (hcascaded : q.Cascaded) (hmaster : q.master.isr = p.master.isr)
    (hslave : q.slave.isr = p.slave.isr) : q.Delivered vs where
  programmed := hprogrammed
  cascaded := hcascaded
  idle := hmaster.trans h.idle
  vectors := h.vectors
  inService := fun v hv => by rw [hslave]; exact h.inService v hv
  falling := h.falling

theorem Delivered.drive (h : p.Delivered vs) (n : Fin 16) (up : Bool) :
    (p.drive n up).Delivered vs := by
  have hp := h.programmed
  unfold PicPair.drive
  split
  · exact h
  split
  · rename_i hn hlow
    have hother := Pic.drive_other (p := p.master) (by decide : 2 < 8) (Ne.symm hn) up
    refine h.change ⟨hp.1, hp.2, hp.3, hp.4, hp.5, hp.6, hp.7, hp.8⟩ ⟨?_, ?_⟩ rfl rfl
    · exact hother.1.trans h.cascaded.line
    · intro hline
      exact hother.2.trans (h.cascaded.latch (hother.1.symm.trans hline))
  · exact h.change (hp.withSlave hp.slavePhase hp.slaveBase hp.slaveEoi)
      (h.cascaded.withSlave _) rfl rfl

theorem Delivered.maskMaster (h : p.Delivered vs) (v : Byte) :
    (p.outb 0x21#16 v).Delivered vs := by
  have hp := h.programmed
  rw [outb_maskMaster hp]
  exact h.change ⟨hp.1, hp.2, hp.3, hp.4, hp.5, hp.6, hp.7, hp.8⟩
    ⟨h.cascaded.line, h.cascaded.latch⟩ rfl rfl

theorem Delivered.maskSlave (h : p.Delivered vs) (v : Byte) :
    (p.outb 0xa1#16 v).Delivered vs := by
  have hp := h.programmed
  rw [outb_maskSlave hp]
  exact h.change (hp.withSlave hp.slavePhase hp.slaveBase hp.slaveEoi)
    (h.cascaded.withSlave _) rfl rfl

/-! ### An interrupt -/

/-- Whatever is delivered and then ended in the first controller leaves it idle. -/
theorem Delivered.finish_master (h : p.Delivered vs) {master : Pic} {n : Nat} (hn : n < 8)
    (hisr : master.isr = p.master.isr) (heoi : master.autoEoi = false) :
    ((master.accept n).command 0x20#8).isr = 0#8 :=
  Pic.eoi_accept (hisr.trans h.idle) heoi hn

/-- The pair stays programmed, and nothing is lost in the cascade. -/
theorem Delivered.finish (h : p.Delivered vs) (hack : p.acknowledge = some (vec, q)) :
    q.finish.Programmed ∧ q.finish.Cascaded ∧ q.finish.master.isr = 0#8 := by
  have hp := h.programmed
  have hirr (n : Nat) : (p.master.accept n).irr = p.master.irr &&& ~~~BitVec.twoPow 8 n :=
    Pic.irr_accept (hp.edge n)
  rcases acknowledge_cases hp hack with ⟨n, hn, hn2, -, -, rfl⟩ | ⟨k, hk, -, hslave, rfl⟩ |
    ⟨-, -, hslave, rfl⟩
  · refine ⟨⟨hp.1, hp.2, hp.3, hp.4, hp.5, hp.6, hp.7, hp.8⟩, ⟨h.cascaded.line, fun hline => ?_⟩,
      h.finish_master hn rfl hp.masterEoi⟩
    change (p.master.accept n).irr.getLsbD 2 = true
    rw [hirr, Pic.getLsbD_clear _ (by decide), h.cascaded.latch hline,
      decide_eq_false (Ne.symm hn2)]
    rfl
  · have hline : (p.withSlave (p.slave.accept k)).master.lines.getLsbD 2 = false := by
      rw [(h.cascaded.withSlave _).line]
      exact congrArg Option.isSome (Pic.pending_accept hp.slaveEoi hslave)
    refine ⟨⟨hp.1, hp.2, hp.3, hp.4, hp.5, hp.6, hp.7, hp.8⟩,
      ⟨(h.cascaded.withSlave _).line, fun hup => ?_⟩, h.finish_master (by decide) rfl hp.masterEoi⟩
    exact absurd (hline.symm.trans hup) Bool.false_ne_true
  · have hline : p.master.lines.getLsbD 2 = false := by
      rw [h.cascaded.line, hslave]
      rfl
    refine ⟨⟨hp.1, hp.2, hp.3, hp.4, hp.5, hp.6, hp.7, hp.8⟩,
      ⟨h.cascaded.line, fun hup => ?_⟩, h.finish_master (by decide) rfl hp.masterEoi⟩
    exact absurd (hline.symm.trans hup) Bool.false_ne_true

/-- What the second controller has in service afterwards. -/
theorem Programmed.slave_isr (h : p.Programmed) (hack : p.acknowledge = some (vec, q)) :
    IsIrq vec.toNat ∧
      (∀ k < 8, p.slave.isr.getLsbD k = true → q.slave.isr.getLsbD k = true) ∧
      (0x70 ≤ vec.toNat → vec.toNat < 0x77 → q.slave.isr.getLsbD (vec.toNat - 0x70) = true ∧
        ∀ k ≤ vec.toNat - 0x70, p.slave.isr.getLsbD k = false) := by
  rcases acknowledge_cases h hack with ⟨n, hn, -, -, hvec, rfl⟩ | ⟨k, hk, hvec, hslave, rfl⟩ |
    ⟨-, rfl, -, rfl⟩
  · exact ⟨by omega, fun _ _ hbit => hbit, by omega⟩
  · have hsub : vec.toNat - 0x70 = k := by omega
    refine ⟨by omega, fun j hj hbit => ?_, fun _ _ => ?_⟩
    · rw [Pic.getLsbD_accept h.slaveEoi hj, hbit]
      rfl
    · rw [hsub, Pic.getLsbD_accept h.slaveEoi hk, decide_eq_true rfl, Bool.or_true]
      exact ⟨rfl, (Pic.pending_some hslave).2.2⟩
  · exact ⟨by decide, fun _ _ hbit => hbit, fun _ hlt => absurd hlt (by decide)⟩

/-- An interrupt that is delivered and handled. -/
theorem Delivered.served (h : p.Delivered vs) (hack : p.acknowledge = some (vec, q)) :
    q.finish.Delivered (vs ++ [vec]) := by
  obtain ⟨hirq, hkept, hnew⟩ := h.programmed.slave_isr hack
  obtain ⟨hprogrammed, hcascaded, hidle⟩ := h.finish hack
  have hslave : q.finish.slave = q.slave := rfl
  -- What was delivered before is in service and so behind the new vector.
  have hlater : ∀ v ∈ secondVectors vs, 0x70 ≤ vec.toNat → vec.toNat < 0x77 →
      vec.toNat < v.toNat := by
    intro v hv hlow hhigh
    by_contra hle
    have hclear := (hnew hlow hhigh).2 (v.toNat - 0x70) (by omega)
    exact Bool.false_ne_true (hclear.symm.trans (h.inService v hv))
  constructor
  · exact hprogrammed
  · exact hcascaded
  · exact hidle
  · intro v hv
    rcases List.mem_append.mp hv with hv | hv
    · exact h.vectors v hv
    · rw [List.mem_singleton.mp hv]
      exact hirq
  · rw [hslave, secondVectors_concat]
    intro v hv
    rcases List.mem_append.mp hv with hv | hv
    · obtain ⟨-, hlow, hhigh⟩ := mem_secondVectors.mp hv
      exact hkept _ (by omega) (h.inService v hv)
    · split at hv
      · rename_i hsecond
        rw [List.mem_singleton.mp hv]
        exact (hnew hsecond.1 hsecond.2).1
      · cases hv
  · rw [secondVectors_concat]
    split
    · rename_i hsecond
      rw [List.pairwise_append]
      refine ⟨h.falling, List.pairwise_singleton _ _, fun v hv w hw => ?_⟩
      rw [List.mem_singleton.mp hw]
      exact hlater v hv hsecond.1 hsecond.2
    · rw [List.append_nil]
      exact h.falling

/-! ### Whole runs -/

theorem Delivered.next (h : p.Delivered vs) (on : Bool) (e : IrqEvent) :
    (p.next on e).2.Delivered (vs ++ (p.next on e).1.toList) := by
  cases e with
  | drive n up =>
    rw [← List.append_nil vs] at h
    exact h.drive n up
  | maskMaster v =>
    rw [← List.append_nil vs] at h
    exact h.maskMaster v
  | maskSlave v =>
    rw [← List.append_nil vs] at h
    exact h.maskSlave v
  | serve =>
    simp only [PicPair.next]
    split
    · rw [Option.toList_none, List.append_nil]
      exact h
    · rename_i vec q hack
      cases on with
      | false => cases hack
      | true => exact h.served hack

theorem Delivered.run (h : p.Delivered vs) (on : Bool) (events : List IrqEvent) :
    (PicPair.run on events p).2.Delivered (vs ++ (PicPair.run on events p).1) := by
  induction events generalizing vs p with
  | nil =>
    rw [← List.append_nil vs] at h
    exact h
  | cons e events ih =>
    have hrest := ih (h.next on e)
    rw [List.append_assoc] at hrest
    exact hrest

/-- The start: `setup_pic` ends whatever was in service. -/
theorem delivered_setupPic (p : PicPair) : (setupPic p).Delivered [] where
  programmed := setupPic_programmed p
  cascaded := setupPic_cascaded p
  idle := rfl
  vectors := fun _ hv => absurd hv List.not_mem_nil
  inService := fun _ hv => absurd hv List.not_mem_nil
  falling := List.Pairwise.nil

/-- Falling vectors of a controller with seven inputs beside the last one. -/
theorem Delivered.length_second (h : p.Delivered vs) : (secondVectors vs).length ≤ 7 := by
  have hnodup : ((secondVectors vs).map BitVec.toNat).Nodup := by
    rw [List.Nodup, List.pairwise_map]
    exact h.falling.imp fun hlt => hlt.ne'
  have hsubset : (secondVectors vs).map BitVec.toNat ⊆ List.range' 0x70 7 := by
    intro n hn
    obtain ⟨v, hv, rfl⟩ := List.mem_map.mp hn
    obtain ⟨-, hlow, hhigh⟩ := mem_secondVectors.mp hv
    rw [List.mem_range'_1]
    omega
  have hle := (List.subperm_of_subset hnodup hsubset).length_le
  rwa [List.length_map, List.length_range'] at hle

/-- A request that is not masked is not held back by anything in service. -/
theorem Delivered.ready (h : p.Delivered vs) {n : Nat} (hn : n < 8)
    (hrequest : (p.master.irr &&& ~~~p.master.imr).getLsbD n = true) : p.acknowledge.isSome := by
  obtain ⟨k, hk⟩ := Option.isSome_iff_exists.mp (Pic.pending_isSome h.idle hn hrequest)
  rw [PicPair.acknowledge, hk]
  simp only
  split
  · split
    · rfl
    · rfl
  · rfl

/-! ### Masked controllers -/

/-- The masks that `setup_pic` writes. -/
structure Masked (p : PicPair) : Prop where
  master : p.master.imr = 0xfb#8
  slave : p.slave.imr = 0xff#8

end PicPair

/-- Events of code that does not write the masks. -/
def IrqEvent.KeepsMasks : IrqEvent → Prop
  | .maskMaster _ => False
  | .maskSlave _ => False
  | _ => True

namespace PicPair

variable {p q : PicPair} {vs : List (BitVec 8)} {vec : BitVec 8}

/-- Only an old request in the cascade comes through the masks, and nothing is
behind it. -/
theorem Masked.acknowledge (h : p.Masked) (hp : p.Programmed)
    (hack : p.acknowledge = some (vec, q)) :
    p.master.irr.getLsbD 2 = true ∧ vec = 0x77#8 ∧ q = { p with master := p.master.accept 2 } := by
  have hslave : p.slave.pending = none := Pic.pending_masked h.slave
  have hbits : ∀ k < 8, (~~~0xfb#8).getLsbD k = decide (k = 2) := by decide
  rcases acknowledge_cases hp hack with ⟨n, hn, hn2, hopen, -⟩ | ⟨k, -, -, hsome, -⟩ |
    ⟨hbit, hvec, -, hq⟩
  · rw [h.master, hbits n hn, decide_eq_false hn2] at hopen
    cases hopen
  · rw [hslave] at hsome
    cases hsome
  · exact ⟨hbit, hvec, hq⟩

/-- A wire of a device does not get through to the cascade. -/
theorem Masked.drive (h : p.Masked) (hp : p.Programmed) (n : Fin 16) (up : Bool) :
    (p.drive n up).Masked ∧ (p.drive n up).master.irr.getLsbD 2 = p.master.irr.getLsbD 2 := by
  unfold PicPair.drive
  split
  · exact ⟨h, rfl⟩
  split
  · rename_i hn hlow
    exact ⟨⟨h.master, h.slave⟩, (Pic.drive_other (by decide) (Ne.symm hn) up).2⟩
  · have hslave : (p.slave.drive (n.val - 8) up).pending = none := Pic.pending_masked h.slave
    refine ⟨⟨h.master, h.slave⟩, ?_⟩
    rw [PicPair.withSlave, hslave]
    exact congrArg (BitVec.getLsbD · 2) (Pic.irr_drive_down (hp.edge 2))

theorem Masked.next (h : p.Masked) (hp : p.Programmed) (on : Bool) {e : IrqEvent}
    (he : e.KeepsMasks) : (p.next on e).2.Masked ∧
    ((p.next on e).1 = none ∧
        (p.next on e).2.master.irr.getLsbD 2 = p.master.irr.getLsbD 2 ∨
      (p.next on e).1 = some 0x77#8 ∧ p.master.irr.getLsbD 2 = true ∧
        (p.next on e).2.master.irr.getLsbD 2 = false) := by
  cases e with
  | drive n up =>
    obtain ⟨hmasked, hirr⟩ := h.drive hp n up
    exact ⟨hmasked, .inl ⟨rfl, hirr⟩⟩
  | maskMaster v => exact absurd he id
  | maskSlave v => exact absurd he id
  | serve =>
    simp only [PicPair.next]
    split
    · exact ⟨h, .inl ⟨rfl, rfl⟩⟩
    · rename_i vec q hack
      cases on with
      | false => cases hack
      | true =>
        obtain ⟨hbit, rfl, rfl⟩ := h.acknowledge hp hack
        refine ⟨⟨h.master, h.slave⟩, .inr ⟨rfl, hbit, ?_⟩⟩
        change (p.master.accept 2).irr.getLsbD 2 = false
        rw [Pic.irr_accept (hp.edge 2), Pic.getLsbD_clear _ (by decide), decide_eq_true rfl,
          Bool.not_true, Bool.and_false]

/-- Behind the masks an old request in the cascade is all that can arrive. -/
theorem Masked.run (h : p.Masked) (hdelivered : p.Delivered vs) (on : Bool)
    {events : List IrqEvent} (hevents : ∀ e ∈ events, e.KeepsMasks) :
    (PicPair.run on events p).1 = [] ∨
      (PicPair.run on events p).1 = [0x77#8] ∧ p.master.irr.getLsbD 2 = true := by
  induction events generalizing vs p with
  | nil => exact .inl rfl
  | cons e events ih =>
    obtain ⟨hmasked, hcases⟩ := h.next hdelivered.programmed on (hevents e List.mem_cons_self)
    have hrest := ih hmasked (hdelivered.next on e) fun e he =>
      hevents e (List.mem_cons_of_mem _ he)
    simp only [PicPair.run]
    rcases hcases with ⟨hnone, hirr⟩ | ⟨hsome, hbit, hgone⟩
    · rw [hnone, ← hirr]
      exact hrest
    · rw [hsome]
      rcases hrest with hempty | ⟨-, hstill⟩
      · exact .inr ⟨congrArg (0x77#8 :: ·) hempty, hbit⟩
      · exact absurd (hgone.symm.trans hstill) Bool.false_ne_true

/-- Until the code writes the masks nothing arrives, unless a level-triggered
input of the second controller was up when `setup_pic` ran. -/
theorem run_setupPic_masked (p : PicPair) (on : Bool) {events : List IrqEvent}
    (hevents : ∀ e ∈ events, e.KeepsMasks) :
    (PicPair.run on events (setupPic p)).1 = [] ∨
      (PicPair.run on events (setupPic p)).1 = [0x77#8] ∧
        p.slave.irr &&& p.slave.elcr ≠ 0#8 := by
  have hmasked : (setupPic p).Masked := ⟨rfl, rfl⟩
  rcases hmasked.run (delivered_setupPic p) on hevents with hempty | ⟨hone, hbit⟩
  · exact .inl hempty
  · refine .inr ⟨hone, fun hnone => ?_⟩
    exact Bool.false_ne_true ((setupPic_quiet hnone).cascade.symm.trans hbit)

end PicPair

end Qboot
