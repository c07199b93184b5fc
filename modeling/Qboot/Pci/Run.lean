import Qboot.Pci.Numbering

/-!
The program and the numbering agree. A bus is set up in two loops: the scan
leaves a list of blocked bridges, and the second loop takes one bridge after
the other from that list and sets up the bus behind it.
-/

namespace Qboot

open Bytes ByteMemory PciBus

/-! ### Registers of a bridge -/

section Registers

variable {i440fx : Bool} {addend : BitVec 16} {b : BitVec 8} {head d : DevFn} {c : Config}

theorem setupConfig_bridge (h : isBridgeClass c = true) :
    setupConfig i440fx addend b head d c =
      bridgeConfig b head 0#8 (controlConfig (irqConfig i440fx addend d c)) := by
  have hheader : SameHeader c (controlConfig (irqConfig i440fx addend d c)) :=
    (sameHeader_irqConfig i440fx addend d c).trans (sameHeader_controlConfig _)
  have hcls : classOf c = PCI_CLASS_BRIDGE_PCI := of_decide_eq_true h
  have hide : classOf (controlConfig (irqConfig i440fx addend d c)) ≠ PCI_CLASS_STORAGE_IDE := by
    rw [hheader.cls, hcls]
    decide
  rw [setupConfig, classConfig, if_neg hide, hheader.bridgeClass, if_pos h]

/-- The interrupt line is written by `do_setup_pci_irq` only. -/
theorem setupConfig_line : setupConfig i440fx addend b head d c PCI_INTERRUPT_LINE =
    irqConfig i440fx addend d c PCI_INTERRUPT_LINE := by
  have hkept {c : Config} {q : BitVec 8} {bs : List Byte} (hfit : q.toNat + bs.length ≤ 256)
      (hout : PCI_INTERRUPT_LINE.toNat < q.toNat ∨ q.toNat + bs.length ≤ PCI_INTERRUPT_LINE.toNat) :
      store c q bs PCI_INTERRUPT_LINE = c PCI_INTERRUPT_LINE := by
    refine store_of_not_within _ ?_
    rw [within_iff hfit]
    omega
  have hcontrol : controlConfig (irqConfig i440fx addend d c) PCI_INTERRUPT_LINE =
      irqConfig i440fx addend d c PCI_INTERRUPT_LINE := by
    rw [controlConfig]
    split
    · rfl
    · exact hkept (by simp [PCI_BRIDGE_CONTROL]) (by simp [PCI_BRIDGE_CONTROL, PCI_INTERRUPT_LINE])
  rw [setupConfig, classConfig, ← hcontrol]
  split
  · rw [ideConfig]
    split
    · rw [hkept, hkept, hkept, hkept, hkept, hkept] <;> simp [PCI_INTERRUPT_LINE]
    · rw [hkept, hkept, hkept, hkept] <;> simp [PCI_INTERRUPT_LINE]
  · split
    · rw [bridgeConfig, hkept, hkept, hkept] <;>
        simp [PCI_INTERRUPT_LINE, PCI_PRIMARY_BUS, PCI_SECONDARY_BUS, PCI_SUBORDINATE_BUS]
    · rfl

theorem bridgeConfig_registers (primary secondary subordinate : BitVec 8) (c : Config) :
    bridgeConfig primary secondary subordinate c PCI_PRIMARY_BUS = primary ∧
      bridgeConfig primary secondary subordinate c PCI_SECONDARY_BUS = secondary ∧
      bridgeConfig primary secondary subordinate c PCI_SUBORDINATE_BUS = subordinate := by
  simp only [bridgeConfig, store_singleton]
  refine ⟨?_, ?_, ?_⟩
  · rw [Function.update_of_ne (by decide), Function.update_of_ne (by decide),
      Function.update_self]
  · rw [Function.update_self]
  · rw [Function.update_of_ne (by decide), Function.update_self]

theorem openBridge_registers (first last : Nat) (c : Config) :
    openBridge first last c PCI_PRIMARY_BUS = c PCI_PRIMARY_BUS ∧
      openBridge first last c PCI_SECONDARY_BUS = BitVec.ofNat 8 first ∧
      openBridge first last c PCI_SUBORDINATE_BUS = BitVec.ofNat 8 last := by
  simp only [openBridge, store_singleton]
  refine ⟨?_, ?_, ?_⟩
  · rw [Function.update_of_ne (by decide), Function.update_of_ne (by decide)]
  · rw [Function.update_of_ne (by decide), Function.update_self]
  · rw [Function.update_self]

end Registers

/-! ### The list of bridges after a scan -/

/-- Each of the bridges is blocked and its secondary bus register holds the
next one. -/
def Pending (config : DevFn → Config) : List DevFn → Prop
  | [] => True
  | c :: cs => config c PCI_SECONDARY_BUS = cs.headD 0xff#8 ∧
      config c PCI_SUBORDINATE_BUS = 0#8 ∧ Pending config cs

theorem Pending.congr {config config' : DevFn → Config} {cs : List DevFn}
    (h : Pending config cs) (hsame : ∀ c ∈ cs, config' c = config c) : Pending config' cs := by
  induction cs with
  | nil => trivial
  | cons c cs ih =>
    rw [Pending, hsame c (by simp)]
    exact ⟨h.1, h.2.1, ih h.2.2 fun d hd => hsame d (by simp [hd])⟩

section Scanned

variable {i440fx : Bool} {addend : BitVec 16} {b : BitVec 8} {config : DevFn → Config}

theorem visits_of_not_mem {ds : List DevFn} {σ : Scan} {x : DevFn} (hx : x ∉ ds) :
    (ds.foldl (Scan.visit i440fx addend b) σ).config x = σ.config x := by
  induction ds generalizing σ with
  | nil => rfl
  | cons d ds ih =>
    rw [List.mem_cons, not_or] at hx
    rw [List.foldl_cons, ih hx.2]
    exact Function.update_of_ne hx.1 _ _

/-- The registers of a function that was visited. -/
theorem visits_of_mem {ds : List DevFn} {σ : Scan} {x : DevFn} (hds : ds.Nodup) (hx : x ∈ ds) :
    ∃ head, (ds.foldl (Scan.visit i440fx addend b) σ).config x =
      setupConfig i440fx addend b head x (σ.config x) := by
  induction ds generalizing σ with
  | nil => cases hx
  | cons d ds ih =>
    obtain ⟨hd, hrest⟩ := List.nodup_cons.mp hds
    rw [List.foldl_cons]
    by_cases hxd : x = d
    · subst hxd
      refine ⟨σ.head, ?_⟩
      rw [visits_of_not_mem hd]
      exact Function.update_self _ _ _
    · obtain ⟨head, hconfig⟩ := @ih (σ.visit i440fx addend b d) hrest
        ((List.mem_cons.mp hx).resolve_left hxd)
      refine ⟨head, ?_⟩
      rw [hconfig]
      congr 1
      exact Function.update_of_ne hxd _ _

/-- Visiting functions inserts the bridges among them at the head of the list. -/
theorem visits_pending {ds acc : List DevFn} {σ : Scan} (hds : ds.Nodup)
    (hacc : ∀ x ∈ acc, x ∉ ds) (hpending : Pending σ.config acc)
    (hhead : σ.head = acc.headD 0xff#8) (hcount : σ.count = acc.length) :
    let τ := ds.foldl (Scan.visit i440fx addend b) σ
    let cs := (ds.filter fun d => isBridgeClass (σ.config d)).reverse ++ acc
    Pending τ.config cs ∧ τ.head = cs.headD 0xff#8 ∧ τ.count = cs.length := by
  induction ds generalizing σ acc with
  | nil => exact ⟨hpending, hhead, hcount⟩
  | cons d ds ih =>
    obtain ⟨hd, hrest⟩ := List.nodup_cons.mp hds
    have hother : ∀ x ∈ acc, (σ.visit i440fx addend b d).config x = σ.config x := by
      intro x hx
      refine Function.update_of_ne ?_ _ _
      rintro rfl
      exact hacc x hx (by simp)
    have hclass : (fun x => isBridgeClass ((σ.visit i440fx addend b d).config x)) =
        fun x => isBridgeClass (σ.config x) := by
      funext x
      exact (sameHeader_visit i440fx addend b σ d x).bridgeClass
    by_cases hbridge : isBridgeClass (σ.config d) = true
    · have hself : (σ.visit i440fx addend b d).config d =
          bridgeConfig b σ.head 0#8 (controlConfig (irqConfig i440fx addend d (σ.config d))) :=
        (Function.update_self _ _ _).trans (setupConfig_bridge hbridge)
      obtain ⟨-, hsec, hsub⟩ := bridgeConfig_registers b σ.head 0#8
        (controlConfig (irqConfig i440fx addend d (σ.config d)))
      have hpending' : Pending (σ.visit i440fx addend b d).config (d :: acc) :=
        ⟨by rw [hself, hsec, hhead], by rw [hself, hsub], hpending.congr hother⟩
      have hacc' : ∀ x ∈ d :: acc, x ∉ ds := by
        intro x hx hxd
        obtain rfl | hx := List.mem_cons.mp hx
        · exact hd hxd
        · exact hacc x hx (by simp [hxd])
      have h := @ih (d :: acc) (σ.visit i440fx addend b d) hrest hacc' hpending'
        (if_pos hbridge) ((if_pos hbridge).trans (by rw [hcount, List.length_cons]))
      rw [hclass] at h
      have hlist : ((d :: ds).filter fun d => isBridgeClass (σ.config d)).reverse ++ acc =
          (ds.filter fun d => isBridgeClass (σ.config d)).reverse ++ d :: acc := by simp [hbridge]
      simp only [List.foldl_cons, hlist]
      exact h
    · have h := @ih acc (σ.visit i440fx addend b d) hrest
        (fun x hx hxd => hacc x hx (by simp [hxd])) (hpending.congr hother)
        ((if_neg hbridge).trans hhead) ((if_neg hbridge).trans hcount)
      rw [hclass] at h
      have hlist : ((d :: ds).filter fun d => isBridgeClass (σ.config d)).reverse ++ acc =
          (ds.filter fun d => isBridgeClass (σ.config d)).reverse ++ acc := by simp [hbridge]
      simp only [List.foldl_cons, hlist]
      exact h

/-- After the scan of a bus, `bridge_head` and `bridge_count` describe the
list of all its bridges. -/
theorem scanned_pending (config : DevFn → Config) :
    Pending (scanned i440fx addend b config).config (bridgeOrder config) ∧
      (scanned i440fx addend b config).head = (bridgeOrder config).headD 0xff#8 ∧
      (scanned i440fx addend b config).count = (bridgeOrder config).length := by
  have h := @visits_pending i440fx addend b (scanOrder config) []
    { config := config, head := 0xff#8, count := 0 } (nodup_scanOrder config) (by simp) trivial rfl
    rfl
  rwa [List.append_nil] at h

end Scanned

/-! ### The window of one bridge -/

/-- What a run adds to the records: the calls of `do_setup_pci`, where the
calls of `do_setup_pci_bus` lead, and the stray cycles. -/
structure PciTrace where
  calls : List PciCall
  entries : List Route
  strays : List (BitVec 8)

def PciTrace.append (t u : PciTrace) : PciTrace :=
  ⟨t.calls ++ u.calls, t.entries ++ u.entries, t.strays ++ u.strays⟩

/-- The bus on which cycles arrive. -/
def Route.arrival : Route → Option (List DevFn)
  | .arrives path => some path
  | .unclaimed => none
  | .contention => none

/-- The buses that calls of `do_setup_pci_bus` entered. -/
def reached (entries : List Route) : List (List DevFn) := entries.filterMap Route.arrival

/-- The facts about a trace that do not depend on the state before the run: no
bus is entered twice, all of them lie in one part of the tree, and if no number
is claimed twice, then no cycle goes astray and the run is exactly known. -/
structure TraceOf (inside : List DevFn → Prop) (clear exactly : Prop) (trace : PciTrace) : Prop where
  once : (reached trace.entries).Nodup
  inside_of_mem : ∀ q ∈ reached trace.entries, inside q
  exact_of_clear : clear → exactly
  strays_iff : trace.strays = [] ↔ clear

theorem TraceOf.append {inside inside' : List DevFn → Prop} {clear clear' exactly exactly' : Prop}
    {trace trace' : PciTrace} (h : TraceOf inside clear exactly trace)
    (h' : TraceOf inside' clear' exactly' trace') (hapart : ∀ q, inside q → ¬ inside' q) :
    TraceOf (fun q => inside q ∨ inside' q) (clear ∧ clear') (exactly ∧ exactly')
      (trace.append trace') where
  once := by
    rw [PciTrace.append, reached, List.filterMap_append]
    refine List.nodup_append'.mpr ⟨h.once, h'.once, ?_⟩
    intro q hq hq'
    exact hapart q (h.inside_of_mem q hq) (h'.inside_of_mem q hq')
  inside_of_mem q hq := by
    rw [PciTrace.append, reached, List.filterMap_append, List.mem_append] at hq
    exact hq.imp (h.inside_of_mem q) (h'.inside_of_mem q)
  exact_of_clear := And.imp h.exact_of_clear h'.exact_of_clear
  strays_iff := by
    rw [PciTrace.append, List.append_eq_nil_iff, h.strays_iff, h'.strays_iff]

theorem TraceOf.congr {inside inside' : List DevFn → Prop} {clear clear' exactly exactly' : Prop}
    {trace : PciTrace} (h : TraceOf inside clear exactly trace) (hin : ∀ q, inside q → inside' q)
    (hclear : clear ↔ clear') (hexact : clear' → exactly → exactly') :
    TraceOf inside' clear' exactly' trace where
  once := h.once
  inside_of_mem q hq := hin q (h.inside_of_mem q hq)
  exact_of_clear hc := hexact hc (h.exact_of_clear (hclear.mpr hc))
  strays_iff := h.strays_iff.trans hclear

/-- What a run for a bus with number `b` leaves behind: another tree behind
`path`, the last number given out, and a trace. -/
structure BusDone (s s' : PciState) (root : PciBus) (path : List DevFn) (t : PciBus) (b last : Nat)
    (trace : PciTrace) : Prop where
  rule : s'.rule = s.rule
  routing : s'.useI440fxRouting = s.useI440fxRouting
  addend : s'.addend = s.addend
  root : s'.root = root.replace path t
  maxBus : s'.maxBus = BitVec.ofNat 8 last
  assigned : ∀ v : BitVec 8, v.toNat ≤ b → s'.assigned v = s.assigned v
  calls : s'.calls = s.calls ++ trace.calls
  entries : s'.entries = s.entries ++ trace.entries
  strays : s'.strays = s.strays ++ trace.strays

/-- The state when the bus behind bridge `c` is set up with number `n`. -/
def PciState.entered (s : PciState) (root : PciBus) (path : List DevFn) (config : DevFn → Config)
    (child : DevFn → PciBus) (c : DevFn) (n : Nat) : PciState :=
  { s with
    root := root.replace path (.bus (Function.update config c (openBridge n 255 (config c))) child)
    maxBus := BitVec.ofNat 8 n
    bus := BitVec.ofNat 8 n
    assigned := Function.update s.assigned (BitVec.ofNat 8 n) (path ++ [c])
    addend := addDevice s.addend c }

section Window

variable {s : PciState} {root : PciBus} {path : List DevFn} {b n : Nat}
  {blocked : BitVec 8 → Prop} {config : DevFn → Config} {child : DevFn → PciBus} {c : DevFn}

theorem devOf_addend (v : BitVec 8) (c : DevFn) :
    (devOf (makeBdf v c)).setWidth 16 = BitVec.ofNat 16 (deviceOf c) := by
  apply BitVec.eq_of_toNat_eq
  rw [BitVec.toNat_setWidth, toNat_devOf_makeBdf, BitVec.toNat_ofNat]

theorem openWindow_here (h : Leads s.rule root path (BitVec.ofNat 8 b) blocked)
    (hassigned : s.assigned (BitVec.ofNat 8 b) = path)
    (hroot : s.root = root.replace path (.bus config child))
    (hmax : s.maxBus = BitVec.ofNat 8 (n - 1)) (hbn : b < n) (hn : n < 256) :
    openWindow path (makeBdf (BitVec.ofNat 8 b) c) s =
      .ok (config c PCI_SECONDARY_BUS) (s.entered root path config child c n) := by
  have hself : s = s.withFunction root path config child c (config c) := by
    rw [withFunction_self, PciState.withBus, ← hroot]
  have hnext : s.maxBus + 1#8 = BitVec.ofNat 8 n := by
    rw [hmax, ← BitVec.ofNat_add, Nat.sub_add_cancel (by omega)]
  let s₁ : PciState := { s with
    maxBus := BitVec.ofNat 8 n
    bus := BitVec.ofNat 8 n
    assigned := Function.update s.assigned (BitVec.ofNat 8 n) (path ++ [c]) }
  have hassigned₁ : s₁.assigned (BitVec.ofNat 8 b) = path := by
    refine (Function.update_of_ne ?_ _ _).trans hassigned
    intro heq
    have hnat := congrArg BitVec.toNat heq
    rw [BitVec.toNat_ofNat, BitVec.toNat_ofNat] at hnat
    omega
  have hread : pciConfigReadb (makeBdf (BitVec.ofNat 8 b) c) PCI_SECONDARY_BUS s =
      .ok (config c PCI_SECONDARY_BUS) s := by
    conv_lhs => rw [hself]
    conv_rhs => rw [hself]
    exact pciConfigReadb_here h hassigned _
  have hnumber : (modify fun s : PciState => { s with
      maxBus := s.maxBus + 1#8
      bus := s.maxBus + 1#8
      assigned := Function.update s.assigned (s.maxBus + 1#8)
        (path ++ [devfnOf (makeBdf (BitVec.ofNat 8 b) c)]) } : Pci Unit) s =
      .ok () (s₁.withFunction root path config child c (config c)) := by
    rw [StateRun.modify_apply, hnext, devfnOf_makeBdf, withFunction_self]
    simp only [s₁, PciState.withBus, ← hroot]
  rw [openWindow, StateRun.bind_of_ok hread]
  refine (StateRun.bind_of_ok hnumber).trans ((StateRun.bind_of_ok (StateRun.get_apply _)).trans
    ((StateRun.bind_of_ok (pciConfigWriteb_here (s := s₁) h hassigned₁ PCI_SECONDARY_BUS _)).trans
      ((StateRun.bind_of_ok (pciConfigWriteb_here (s := s₁) h hassigned₁ PCI_SUBORDINATE_BUS
        _)).trans ((StateRun.bind_of_ok (StateRun.modify_apply _ _)).trans ?_))))
  rw [devOf_addend]
  rfl

/-- The last number goes into the subordinate bus register. -/
theorem closeWindow_here {last : Nat} {a : BitVec 16}
    (h : Leads s.rule root path (BitVec.ofNat 8 b) blocked)
    (hassigned : s.assigned (BitVec.ofNat 8 b) = path)
    (hroot : s.root = root.replace path
      (.bus (Function.update config c (openBridge n 255 (config c))) child))
    (hmax : s.maxBus = BitVec.ofNat 8 last) (haddend : s.addend = addDevice a c) :
    closeWindow (makeBdf (BitVec.ofNat 8 b) c) s = .ok () { s with
      root := root.replace path
        (.bus (Function.update config c (openBridge n last (config c))) child)
      addend := a } := by
  let s₁ : PciState := { s with addend := a }
  have hself : s₁ = s₁.withFunction root path config child c (openBridge n 255 (config c)) := by
    simp only [s₁, PciState.withFunction, PciState.withBus, ← hroot]
  have hsub : (modify fun s : PciState => { s with
      addend := s.addend - (devOf (makeBdf (BitVec.ofNat 8 b) c)).setWidth 16 } : Pci Unit) s =
      .ok () s₁ := by
    rw [StateRun.modify_apply, devOf_addend, haddend, addDevice, BitVec.add_sub_cancel]
  have hstore : store (openBridge n 255 (config c)) PCI_SUBORDINATE_BUS [BitVec.ofNat 8 last] =
      openBridge n last (config c) := by
    simp only [openBridge, store_singleton, Function.update_idem]
  rw [closeWindow]
  refine (StateRun.bind_of_ok hsub).trans ((StateRun.bind_of_ok (StateRun.get_apply s₁)).trans ?_)
  rw [hself]
  refine (pciConfigWriteb_here (s := s₁) h hassigned _ _).trans ?_
  rw [show (s₁.withFunction root path config child c (openBridge n 255 (config c))).maxBus =
    BitVec.ofNat 8 last from hmax, hstore]
  rfl

end Window

/-! ### Who else claims a number -/

section Claims

variable {rule : BridgeRule} {config : DevFn → Config} {child : DevFn → PciBus}
  {hidden blocked : BitVec 8 → Prop} {cs : List DevFn} {c : DevFn} {v : BitVec 8}

/-- Waiting bridges claim the numbers that their links look like. -/
theorem links_claim (hpending : Pending config cs) (hbus : ∀ d ∈ cs, (child d).isBus = true) :
    (∃ l ∈ links cs, rule l 0#8 v = true) ↔ ∃ d ∈ cs, Claims rule config child v d := by
  induction cs with
  | nil => simp [links]
  | cons c cs ih =>
    obtain ⟨hsec, hsub, hrest⟩ := hpending
    have hfirst : Claims rule config child v c ↔ rule (cs.headD 0xff#8) 0#8 v = true := by
      rw [Claims, hsec, hsub]
      exact and_iff_right (hbus c (by simp))
    have htail := ih hrest fun d hd => hbus d (by simp [hd])
    constructor
    · rintro ⟨l, hl, hclaim⟩
      obtain rfl | hl := List.mem_cons.mp hl
      · exact ⟨c, by simp, hfirst.mpr hclaim⟩
      · obtain ⟨d, hd, hclaim'⟩ := htail.mp ⟨l, hl, hclaim⟩
        exact ⟨d, by simp [hd], hclaim'⟩
    · rintro ⟨d, hd, hclaim⟩
      obtain rfl | hd := List.mem_cons.mp hd
      · exact ⟨_, by simp [links], hfirst.mp hclaim⟩
      · obtain ⟨l, hl, hclaim'⟩ := htail.mpr ⟨d, hd, hclaim⟩
        exact ⟨l, by simp [links, hl], hclaim'⟩

/-- While the bus behind `c` is set up, the other claims are those of waiting
and of hidden bridges. -/
theorem blocked_iff (hnodup : (c :: cs).Nodup) (hpending : Pending config (c :: cs))
    (hbus : ∀ d ∈ c :: cs, (child d).isBus = true)
    (hhidden : hidden v ↔ ∃ d ∉ c :: cs, Claims rule config child v d) (x : Config) :
    (blocked v ∨ ∃ d ≠ c, Claims rule (Function.update config c x) child v d) ↔
      Blocked rule hidden blocked cs v := by
  have hlinks := @links_claim rule config child cs v hpending.2.2 fun d hd => hbus d (by simp [hd])
  have hother {d : DevFn} (hd : d ≠ c) :
      Claims rule (Function.update config c x) child v d ↔ Claims rule config child v d := by
    rw [Claims, Claims, Function.update_of_ne hd]
  refine or_congr_right ?_
  rw [hhidden, hlinks]
  constructor
  · rintro ⟨d, hd, hclaim⟩
    by_cases hcs : d ∈ cs
    · exact Or.inr ⟨d, hcs, (hother hd).mp hclaim⟩
    · exact Or.inl ⟨d, by simp [hd, hcs], (hother hd).mp hclaim⟩
  · rintro (⟨d, hd, hclaim⟩ | ⟨d, hd, hclaim⟩)
    · rw [List.mem_cons, not_or] at hd
      exact ⟨d, hd.1, (hother hd.1).mpr hclaim⟩
    · have hne : d ≠ c := by
        rintro rfl
        exact (List.nodup_cons.mp hnodup).1 hd
      exact ⟨d, hne, (hother hne).mpr hclaim⟩

theorem toNat_number {n : Nat} (hn : n < 256) : (BitVec.ofNat 8 n).toNat = n := by
  rw [BitVec.toNat_ofNat, Nat.mod_eq_of_lt hn]

theorem number_lt {b n : Nat} (hbn : b < n) (hn : n < 256) :
    BitVec.ofNat 8 b < BitVec.ofNat 8 n := by
  rw [BitVec.lt_def, toNat_number hn, toNat_number (by omega)]
  exact hbn

/-- The bus behind a bridge that was just opened is reached. -/
theorem leads_entered {root : PciBus} {path : List DevFn} {b n : Nat} (hrule : rule.Sound)
    (h : Leads rule root path (BitVec.ofNat 8 b) blocked) (hbn : b < n) (hn : n < 256)
    (hnodup : (c :: cs).Nodup) (hpending : Pending config (c :: cs))
    (hbus : ∀ d ∈ c :: cs, (child d).isBus = true)
    (hhidden : ∀ v : BitVec 8, n ≤ v.toNat →
      (hidden v ↔ ∃ d ∉ c :: cs, Claims rule config child v d))
    (hfree : ¬ Blocked rule hidden blocked cs (BitVec.ofNat 8 n)) :
    Leads rule (root.replace path
      (.bus (Function.update config c (openBridge n 255 (config c))) child)) (path ++ [c])
      (BitVec.ofNat 8 n) (Blocked rule hidden blocked cs) := by
  have hnat := toNat_number hn
  have hblocked {v : BitVec 8} (hv : n ≤ v.toNat) := @blocked_iff rule config child hidden blocked
    cs c v hnodup hpending hbus (hhidden v hv) (openBridge n 255 (config c))
  have hfree' := mt (hblocked hnat.ge).mp hfree
  rw [not_or] at hfree'
  obtain ⟨-, hsec, hsub⟩ := openBridge_registers n 255 (config c)
  refine (leads_child h (number_lt hbn hn) hfree'.1 (hbus c (by simp)) ?_ ?_ ?_).congr ?_
  · rw [Function.update_self, hsec]
  · intro v hv
    rw [Function.update_self, hsub]
    exact hrule.opens _ _ hv
  · intro d hd hclaim
    exact hfree'.2 ⟨d, hd, hclaim⟩
  · intro v hv
    refine hblocked ?_
    rw [BitVec.lt_def, hnat] at hv
    exact hv.le

end Claims

end Qboot
