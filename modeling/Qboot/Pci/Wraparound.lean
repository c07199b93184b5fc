import Qboot.Pci.Recursion

/-!
What happens when the numbers do not suffice. After bus 255 the next bridge
gets number 0, which is the root bus: `do_setup_pci_bus` enters that bus once
more, and nothing that follows takes the second entry back.
-/

namespace Qboot

open Bytes StateRun PciBus

/-! ### Entries are only added -/

/-- The root bus was entered more than `m` times. -/
def RootEntered (m : Nat) (s : PciState) : Prop := m < s.entries.count (.arrives [])

/-- `I` says nothing about the hardware and about stray cycles. -/
def Steady (I : PciState → Prop) : Prop :=
  ∀ (s : PciState) (root : PciBus) (strays : List (BitVec 8)), I s →
    I { s with root := root, strays := strays }

section Cycles

variable {I : PciState → Prop}

theorem configCycle_keeps (hI : Steady I) (bdf : BitVec 32) : Keeps I (configCycle bdf) := by
  refine Keeps.modifyGet fun s hs => ?_
  dsimp only
  split
  · exact hs
  · exact hI s s.root _ hs

theorem pciConfigRead_keeps (hI : Steady I) (bdf : BitVec 32) (addr : BitVec 8) (n : Nat) :
    Keeps I (pciConfigRead bdf addr n) := by
  refine (configCycle_keeps hI bdf).bind fun r => Keeps.get.bind fun s => ?_
  cases r <;> exact Keeps.pure _

theorem pciConfigWrite_keeps (hI : Steady I) (bdf : BitVec 32) (addr : BitVec 8)
    (bs : List Byte) : Keeps I (pciConfigWrite bdf addr bs) := by
  refine (configCycle_keeps hI bdf).bind fun r => ?_
  cases r with
  | arrives path => exact Keeps.modify fun s hs => hI s _ s.strays hs
  | unclaimed => exact Keeps.pure _
  | contention => exact Keeps.pure _

theorem pciConfigReadb_keeps (hI : Steady I) (bdf : BitVec 32) (addr : BitVec 8) :
    Keeps I (pciConfigReadb bdf addr) :=
  (pciConfigRead_keeps hI _ _ _).bind fun _ => Keeps.pure _

theorem pciConfigWriteb_keeps (hI : Steady I) (bdf : BitVec 32) (addr val : BitVec 8) :
    Keeps I (pciConfigWriteb bdf addr val) :=
  pciConfigWrite_keeps hI _ _ _

theorem pciConfigReadw_keeps (hI : Steady I) (bdf : BitVec 32) (addr : BitVec 8) :
    Keeps I (pciConfigReadw bdf addr) :=
  (pciConfigRead_keeps hI _ _ _).bind fun _ => Keeps.pure _

theorem pciConfigReadl_keeps (hI : Steady I) (bdf : BitVec 32) (addr : BitVec 8) :
    Keeps I (pciConfigReadl bdf addr) :=
  (pciConfigRead_keeps hI _ _ _).bind fun _ => Keeps.pure _

end Cycles

section Entries

variable {m : Nat}

theorem steady_rootEntered (m : Nat) : Steady (RootEntered m) := fun _ _ _ hs => hs

theorem doSetupPciIrq_entered (bdf pin : BitVec 32) :
    Keeps (RootEntered m) (doSetupPciIrq bdf pin) := by
  have hsteady := steady_rootEntered m
  refine (pciConfigReadb_keeps hsteady _ _).bind fun irq => Keeps.ite (Keeps.pure _) ?_
  exact Keeps.get.bind fun s => pciConfigWrite_keeps hsteady _ _ _

theorem setupIde_entered (bdf id : BitVec 32) : Keeps (RootEntered m) (setupIde bdf id) := by
  have hwrite := pciConfigWrite_keeps (steady_rootEntered m)
  refine (hwrite _ _ _).bind fun _ => (hwrite _ _ _).bind fun _ => (hwrite _ _ _).bind fun _ =>
    (hwrite _ _ _).bind fun _ => Keeps.ite ?_ (Keeps.pure _)
  exact (hwrite _ _ _).bind fun _ => hwrite _ _ _

theorem setupBridge_entered (bdf : BitVec 32) : Keeps (RootEntered m) (setupBridge bdf) := by
  have hwrite := pciConfigWrite_keeps (steady_rootEntered m)
  refine Keeps.get.bind fun s => (hwrite _ _ _).bind fun _ => (hwrite _ _ _).bind fun _ =>
    Keeps.get.bind fun s => (hwrite _ _ _).bind fun _ => ?_
  exact Keeps.modify fun _ hs => hs

theorem doSetupPci_entered (bdf id : BitVec 32) (type : BitVec 8) :
    Keeps (RootEntered m) (doSetupPci bdf id type) := by
  have hsteady := steady_rootEntered m
  refine Keeps.bind (Keeps.modify fun _ hs => hs) fun _ => Keeps.bind ?_ fun _ =>
    Keeps.bind ?_ fun _ => (pciConfigReadw_keeps hsteady _ _).bind fun cls => ?_
  · exact (pciConfigReadb_keeps hsteady _ _).bind fun pin =>
      Keeps.ite (doSetupPciIrq_entered _ _) (Keeps.pure _)
  · exact Keeps.ite ((pciConfigReadw_keeps hsteady _ _).bind fun _ =>
      pciConfigWrite_keeps hsteady _ _ _) (Keeps.pure _)
  · exact Keeps.ite (setupIde_entered _ _) (Keeps.ite (setupBridge_entered _) (Keeps.pure _))

theorem foreachFunction_entered (d f n : Nat) :
    Keeps (RootEntered m) (foreachFunction doSetupPci d f n) := by
  have hsteady := steady_rootEntered m
  induction n generalizing f with
  | zero => exact Keeps.pure _
  | succ n ih =>
    refine Keeps.get.bind fun s => (pciConfigReadl_keeps hsteady _ _).bind fun id =>
      Keeps.ite (Keeps.ite (Keeps.pure _) (ih _)) ?_
    exact (pciConfigReadb_keeps hsteady _ _).bind fun type => (doSetupPci_entered _ _ _).bind
      fun _ => Keeps.ite (Keeps.pure _) (ih _)

theorem openWindow_entered (path : List DevFn) (bdf : BitVec 32) :
    Keeps (RootEntered m) (openWindow path bdf) := by
  have hsteady := steady_rootEntered m
  refine (pciConfigReadb_keeps hsteady _ _).bind fun next => Keeps.bind (Keeps.modify fun _ hs => hs)
    fun _ => Keeps.get.bind fun s => (pciConfigWrite_keeps hsteady _ _ _).bind fun _ =>
    (pciConfigWrite_keeps hsteady _ _ _).bind fun _ => ?_
  exact Keeps.bind (Keeps.modify fun _ hs => hs) fun _ => Keeps.pure _

theorem closeWindow_entered (bdf : BitVec 32) : Keeps (RootEntered m) (closeWindow bdf) := by
  refine Keeps.bind (Keeps.modify fun _ hs => hs) fun _ => Keeps.get.bind fun s => ?_
  exact pciConfigWrite_keeps (steady_rootEntered m) _ _ _

theorem bridgeLoop_entered {recurse : List DevFn → Pci Unit}
    (hrecurse : ∀ path, Keeps (RootEntered m) (recurse path)) (path : List DevFn) (b : BitVec 8)
    (n : Nat) (head : DevFn) : Keeps (RootEntered m) (bridgeLoop recurse path b n head) := by
  induction n generalizing head with
  | zero => exact Keeps.pure _
  | succ n ih =>
    exact (openWindow_entered _ _).bind fun next => (hrecurse _).bind fun _ =>
      (closeWindow_entered _).bind fun _ => ih next

theorem rootEntered_entering {s : PciState} (hs : RootEntered m s) : RootEntered m s.entering := by
  rw [RootEntered, PciState.entering, List.count_append]
  exact lt_of_lt_of_le hs (Nat.le_add_right _ _)

/-- The part of `do_setup_pci_bus` behind its first statements. -/
theorem afterEntering_entered {recurse : List DevFn → Pci Unit}
    (hrecurse : ∀ path, Keeps (RootEntered m) (recurse path)) (path : List DevFn) :
    Keeps (RootEntered m) (pciForeach doSetupPci >>= fun _ => get >>= fun s =>
      bridgeLoop recurse path s.bus s.bridgeCount s.bridgeHead) := by
  refine Keeps.bind (Keeps.forM _ fun d _ => foreachFunction_entered d 0 8) fun _ =>
    Keeps.get.bind fun s => ?_
  exact bridgeLoop_entered hrecurse _ _ _ _

theorem doSetupPciBus_entered (k : Nat) (path : List DevFn) :
    Keeps (RootEntered m) (doSetupPciBus k path) := by
  induction k generalizing path with
  | zero => exact Keeps.throw _
  | succ k ih =>
    exact Keeps.bind (Keeps.modify fun _ hs => rootEntered_entering hs) fun _ =>
      afterEntering_entered ih path

/-- With number 0, the root bus is entered once more. -/
theorem doSetupPciBus_enters {s : PciState} (hbus : s.bus = 0#8) (k : Nat) (path : List DevFn) :
    RootEntered (s.entries.count (.arrives [])) (final (doSetupPciBus (k + 1) path s)) := by
  have hroute : route s.rule s.root s.bus = .arrives [] := by rw [route, if_pos hbus]
  rw [doSetupPciBus, bind_of_ok (modify_apply _ _)]
  refine afterEntering_entered (doSetupPciBus_entered k) path _ ?_
  rw [RootEntered, PciState.entering, hroute, List.count_append]
  exact Nat.lt_add_one _

end Entries

/-! ### The number after 255 -/

theorem Keeps_of_ok {I : PciState → Prop} {α : Type} {x : Pci α} {s t : PciState} {a : α}
    (h : Keeps I x) (hs : I s) (hrun : x s = .ok a t) : I t := by
  have hfinal := h s hs
  rwa [hrun] at hfinal

/-- What `openWindow` does to the static variables, wherever its cycles go. -/
theorem openWindow_static {path : List DevFn} {bdf : BitVec 32} {s s₁ : PciState} {next : DevFn}
    (hrun : openWindow path bdf s = .ok next s₁) :
    s₁.bus = s.maxBus + 1#8 ∧ s₁.entries = s.entries := by
  obtain ⟨_, t₁, hread, hrun⟩ := bind_ok.mp hrun
  obtain ⟨_, t₂, hnumber, hrun⟩ := bind_ok.mp hrun
  obtain ⟨_, t₃, hget, hrun⟩ := bind_ok.mp hrun
  obtain ⟨_, t₄, hsecondary, hrun⟩ := bind_ok.mp hrun
  obtain ⟨_, t₅, hsubordinate, hrun⟩ := bind_ok.mp hrun
  obtain ⟨_, t₆, haddend, hrun⟩ := bind_ok.mp hrun
  cases hnumber
  cases hget
  cases haddend
  cases hrun
  have h₁ := Keeps_of_ok (pciConfigReadb_keeps
    (I := fun t => t.maxBus = s.maxBus ∧ t.entries = s.entries) (fun _ _ _ h => h) _ _)
    ⟨rfl, rfl⟩ hread
  have hwrite := pciConfigWriteb_keeps
    (I := fun t => t.bus = s.maxBus + 1#8 ∧ t.entries = s.entries) fun _ _ _ h => h
  have h₄ := Keeps_of_ok (hwrite _ _ _) (by exact ⟨congrArg (· + 1#8) h₁.1, h₁.2⟩) hsecondary
  have h₅ := Keeps_of_ok (hwrite _ _ _) h₄ hsubordinate
  exact h₅

/-- After bus 255, the loop enters the root bus. -/
theorem bridgeLoop_wraps {s s' : PciState} {path : List DevFn} {b : BitVec 8} {k i : Nat}
    {head : DevFn} (hmax : s.maxBus = 255#8)
    (hrun : bridgeLoop (doSetupPciBus k) path b (i + 1) head s = .ok () s') :
    RootEntered (s.entries.count (.arrives [])) s' := by
  obtain ⟨next, s₁, hopen, hrun⟩ := bind_ok.mp hrun
  obtain ⟨_, s₂, hrecurse, hrun⟩ := bind_ok.mp hrun
  obtain ⟨hbus, hentries⟩ := openWindow_static hopen
  have hzero : s₁.bus = 0#8 := by rw [hbus, hmax]; rfl
  cases k with
  | zero => cases hrecurse
  | succ k =>
    have henters := doSetupPciBus_enters hzero k (path ++ [head])
    rw [hrecurse, hentries] at henters
    refine Keeps_of_ok ?_ henters hrun
    exact (closeWindow_entered _).bind fun _ =>
      bridgeLoop_entered (doSetupPciBus_entered _) _ _ _ _

/-! ### The whole run -/

theorem RootEntered.mono {m m' : Nat} {s : PciState} (h : RootEntered m' s) (hle : m ≤ m') :
    RootEntered m s :=
  lt_of_le_of_lt hle h

/-- If the numbers do not suffice for the tree `t`, a run that returns enters
the root bus again after its own bus. -/
def Overflows (rule : BridgeRule) (i440fx : Bool) (k : Nat) (t : PciBus) : Prop :=
  ∀ (s : PciState) (root : PciBus) (path : List DevFn) (b : Nat) (blocked : BitVec 8 → Prop),
    BusReady rule i440fx s root path b blocked t → 256 < t.nextNumber rule b blocked →
    ∀ s', doSetupPciBus k path s = .ok () s' →
      RootEntered ((s.entries ++ [Route.arrives path]).count (Route.arrives [])) s'

section Loop

variable {rule : BridgeRule} {i440fx : Bool} {a : BitVec 16} {s s' : PciState} {root : PciBus}
  {path : List DevFn} {b n k : Nat} {hidden blocked : BitVec 8 → Prop} {config : DevFn → Config}
  {child tree : DevFn → PciBus} {cs : List DevFn}

theorem bridgeLoop_overflows (hrule : rule.Sound)
    (h : LoopReady rule i440fx a s root path b n hidden blocked config child tree cs)
    (hnext : 256 < nextFrom rule (fun c n blocked => (tree c).nextNumber rule n blocked) hidden
      blocked cs n)
    (hk : cs ≠ [] → 0 < k) (hsets : ∀ c ∈ cs, SetsUp rule i440fx k (tree c))
    (hover : ∀ c ∈ cs, Overflows rule i440fx k (tree c))
    (hrun : bridgeLoop (doSetupPciBus k) path (BitVec.ofNat 8 b) cs.length (cs.headD 0xff#8) s =
      .ok () s') :
    RootEntered (s.entries.count (.arrives [])) s' := by
  induction cs generalizing s n config child with
  | nil =>
    have hfits := h.fits
    rw [nextFrom] at hnext
    omega
  | cons c cs ih =>
    obtain hn | hn := Nat.lt_or_ge n 256
    · rw [List.length_cons, show (c :: cs).headD 0xff#8 = c from rfl, bridgeLoop,
        bind_of_ok (h.opens hn)] at hrun
      by_cases hfits : nextOf rule tree hidden blocked c cs n ≤ 256
      · obtain ⟨s₂, s₃, t, trace, hbehind, hclose, hwindow, -⟩ := h.step hrule hfits (hk (by simp))
          (hsets c (by simp))
        rw [bind_of_ok hbehind, bind_of_ok hclose] at hrun
        have hentered := ih (h.next hrule h.lt_nextOf hfits hwindow) hnext (fun _ => hk (by simp))
          (fun d hd => hsets d (by simp [hd])) (fun d hd => hover d (by simp [hd])) hrun
        refine hentered.mono ?_
        rw [hwindow.entries, List.count_append]
        exact Nat.le_add_right _ _
      · obtain ⟨-, heq⟩ | ⟨hfree, heq⟩ := @nextBehind_cases rule hidden blocked
          (fun c n blocked => (tree c).nextNumber rule n blocked) c cs n
        · rw [nextOf, heq] at hfits
          omega
        · rw [nextOf, heq, Nat.not_le] at hfits
          obtain ⟨_, s₂, hbehind, hrun⟩ := bind_ok.mp hrun
          have hentered := hover c (by simp) _ _ _ _ _ (h.enters hrule hn hfree) hfits s₂ hbehind
          refine Keeps_of_ok ?_ (hentered.mono ?_) hrun
          · exact (closeWindow_entered _).bind fun _ =>
              bridgeLoop_entered (doSetupPciBus_entered _) _ _ _ _
          · rw [List.count_append]
            exact Nat.le_add_right _ _
    · obtain rfl : n = 256 := Nat.le_antisymm h.fits hn
      exact bridgeLoop_wraps h.maxBus hrun

end Loop

theorem overflows {rule : BridgeRule} {i440fx : Bool} (hrule : rule.Sound) {t : PciBus}
    (hwf : t.WellFormed) (hbus : t.isBus = true) {k : Nat} (hk : t.size ≤ k) :
    Overflows rule i440fx k t := by
  induction t generalizing k with
  | absent => cases hbus
  | bus config child ih =>
    have hsize := size_pos hbus
    obtain ⟨k, rfl⟩ : ∃ j, k = j + 1 := ⟨k - 1, by omega⟩
    intro s root path b blocked hready hnext s' hrun
    have hbelow : ∀ c ∈ bridgeOrder config, (child c).size ≤ k := by
      intro c hc
      have hle := size_le_of_mem hc child
      omega
    have hdepth : bridgeOrder config ≠ [] → 0 < k := by
      intro hne
      obtain ⟨c, hc⟩ := List.exists_mem_of_ne_nil _ hne
      exact lt_of_lt_of_le (size_pos (isBus_of_mem hwf hc)) (hbelow c hc)
    obtain ⟨s₁, hscan, hscanned, hbus₁, hhead, hcount⟩ := scan_done hready
    rw [doSetupPciBus_scanned hscan hbus₁ hhead hcount] at hrun
    have hentered := bridgeLoop_overflows hrule (loopReady_scanned hwf hready hscanned) hnext hdepth
      (fun c hc => sets_up hrule (hwf.2 c) (isBus_of_mem hwf hc) (hbelow c hc))
      (fun c hc => ih c (hwf.2 c) (isBus_of_mem hwf hc) (hbelow c hc)) hrun
    rwa [hscanned.entries] at hentered

end Qboot
