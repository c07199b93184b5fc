import Qboot.Pci.Run

/-!
The recursion of `do_setup_pci_bus`. One window after the other is opened, the
bus behind it set up, and the window closed; by induction on the tree this
numbers every bus, whatever is around the tree.
-/

namespace Qboot

open Bytes ByteMemory PciBus

/-! ### The loop over the bridges -/

/-- The state in which `do_setup_pci_bus` is called for the tree `t`: its bus
is behind `path`, has number `b` and is reached under that number. -/
structure BusReady (rule : BridgeRule) (i440fx : Bool) (s : PciState) (root : PciBus)
    (path : List DevFn) (b : Nat) (blocked : BitVec 8 → Prop) (t : PciBus) : Prop where
  rule_eq : s.rule = rule
  routing : s.useI440fxRouting = i440fx
  fits : b < 256
  leads : Leads rule root path (BitVec.ofNat 8 b) blocked
  root_eq : s.root = root.replace path t
  assigned : s.assigned (BitVec.ofNat 8 b) = path
  number : s.bus = BitVec.ofNat 8 b
  maxBus : s.maxBus = BitVec.ofNat 8 b

/-- Each of the calls of `do_setup_pci` gave its function an interrupt line, with
the sum of the devices on the way from the bus behind `path`. -/
def LinesSet (i440fx : Bool) (addend : BitVec 16) (path : List DevFn) (t t' : PciBus)
    (calls : List PciCall) : Prop :=
  ∀ x ∈ calls, ∃ rest, x.target = .arrives (path ++ rest) ∧
    t'.configAt rest x.devfn PCI_INTERRUPT_LINE =
      irqConfig i440fx (rest.foldl addDevice addend) x.devfn (t.configAt rest x.devfn)
        PCI_INTERRUPT_LINE

/-- `do_setup_pci_bus`, nested at most `k` deep, gives numbers to the tree `t`
wherever cycles lead to it and the numbers suffice. -/
def SetsUp (rule : BridgeRule) (i440fx : Bool) (k : Nat) (t : PciBus) : Prop :=
  ∀ (s : PciState) (root : PciBus) (path : List DevFn) (b : Nat) (blocked : BitVec 8 → Prop),
    BusReady rule i440fx s root path b blocked t → t.nextNumber rule b blocked ≤ 256 →
    ∃ s' t' trace, doSetupPciBus k path s = .ok () s' ∧
      BusDone s s' root path t' b (t.nextNumber rule b blocked - 1) trace ∧
      TraceOf (path <+: ·) (t.Clear rule b blocked)
        (t' = t.numbered i440fx b s.addend ∧ trace.calls = t.setupCalls path b s.addend) trace ∧
      LinesSet i440fx s.addend path t t' trace.calls

theorem BusDone.append {s s₁ s₂ : PciState} {root t t' : PciBus} {path : List DevFn}
    {b last last' : Nat} {trace trace' : PciTrace} (h : BusDone s s₁ root path t b last trace)
    (h' : BusDone s₁ s₂ root path t' b last' trace') :
    BusDone s s₂ root path t' b last' (trace.append trace') where
  rule := h'.rule.trans h.rule
  routing := h'.routing.trans h.routing
  addend := h'.addend.trans h.addend
  root := h'.root
  maxBus := h'.maxBus
  assigned v hv := (h'.assigned v hv).trans (h.assigned v hv)
  calls := by rw [h'.calls, h.calls, List.append_assoc, PciTrace.append]
  entries := by rw [h'.entries, h.entries, List.append_assoc, PciTrace.append]
  strays := by rw [h'.strays, h.strays, List.append_assoc, PciTrace.append]

/-- The run for the bus behind the bridge `c` and the close of its window. -/
theorem window_done {s s₂ : PciState} {root t : PciBus} {path : List DevFn} {b n last : Nat}
    {blocked : BitVec 8 → Prop} {config : DevFn → Config} {child : DevFn → PciBus} {c : DevFn}
    {trace : PciTrace} (h : Leads s.rule root path (BitVec.ofNat 8 b) blocked)
    (hassigned : s.assigned (BitVec.ofNat 8 b) = path) (hbn : b < n) (hn : n < 256)
    (hdone : BusDone (s.entered root path config child c n) s₂
      (root.replace path (.bus (Function.update config c (openBridge n 255 (config c))) child))
      (path ++ [c]) t n last trace) :
    ∃ s₃, closeWindow (makeBdf (BitVec.ofNat 8 b) c) s₂ = .ok () s₃ ∧
      BusDone s s₃ root path (.bus (Function.update config c (openBridge n last (config c)))
        (Function.update child c t)) b last trace := by
  have hkept : ∀ v : BitVec 8, v.toNat ≤ b → s₂.assigned v = s.assigned v := by
    intro v hv
    refine (hdone.assigned v (by omega)).trans (Function.update_of_ne ?_ _ _)
    rintro rfl
    rw [toNat_number hn] at hv
    omega
  have hassigned₂ : s₂.assigned (BitVec.ofNat 8 b) = path :=
    (hkept _ (toNat_number (by omega)).le).trans hassigned
  have hroot₂ := hdone.root
  rw [replace_concat] at hroot₂
  have hrule : s₂.rule = s.rule := hdone.rule
  refine ⟨_, closeWindow_here (hrule.symm ▸ h) hassigned₂ hroot₂ hdone.maxBus hdone.addend, ?_⟩
  exact ⟨hdone.rule, hdone.routing, rfl, rfl, hdone.maxBus, hkept, hdone.calls, hdone.entries,
    hdone.strays⟩

/-- The end of a run that asked for 32 devices and found none. -/
def PciState.nothingFound (s : PciState) : PciState :=
  { s.entering with strays := s.strays ++ List.replicate 32 s.bus }

/-- `do_setup_pci_bus` for a bus that cycles do not reach finds nothing. -/
theorem doSetupPciBus_lost {s : PciState} (hlost : ∀ q, route s.rule s.root s.bus ≠ .arrives q)
    (k : Nat) (path : List DevFn) : doSetupPciBus (k + 1) path s = .ok () s.nothingFound := by
  have hscan := @pciForeach_lost doSetupPci s.entering hlost
  rw [doSetupPciBus]
  exact (StateRun.bind_of_ok (StateRun.modify_apply _ _)).trans
    ((StateRun.bind_of_ok hscan).trans (StateRun.bind_of_ok (StateRun.get_apply _)))

section Loop

variable {rule : BridgeRule} {i440fx : Bool} {a : BitVec 16} {s : PciState} {root : PciBus}
  {path : List DevFn} {b n k : Nat} {hidden blocked : BitVec 8 → Prop} {config : DevFn → Config}
  {child tree : DevFn → PciBus} {c : DevFn} {cs : List DevFn}

/-- The state of the loop before it takes the bridges `cs`: the next number is
`n`, and the buses behind these bridges are still as in `tree`. -/
structure LoopReady (rule : BridgeRule) (i440fx : Bool) (a : BitVec 16) (s : PciState)
    (root : PciBus) (path : List DevFn) (b n : Nat) (hidden blocked : BitVec 8 → Prop)
    (config : DevFn → Config) (child tree : DevFn → PciBus) (cs : List DevFn) : Prop where
  rule_eq : s.rule = rule
  routing : s.useI440fxRouting = i440fx
  addend : s.addend = a
  leads : Leads rule root path (BitVec.ofNat 8 b) blocked
  assigned : s.assigned (BitVec.ofNat 8 b) = path
  root_eq : s.root = root.replace path (.bus config child)
  maxBus : s.maxBus = BitVec.ofNat 8 (n - 1)
  later : b < n
  fits : n ≤ 256
  nodup : cs.Nodup
  pending : Pending config cs
  untouched : ∀ c ∈ cs, child c = tree c
  isBus : ∀ c ∈ cs, (tree c).isBus = true
  wellFormed : ∀ c ∈ cs, (tree c).WellFormed
  hidden_iff : ∀ v : BitVec 8, n ≤ v.toNat → (hidden v ↔ ∃ d ∉ cs, Claims rule config child v d)

/-- The numbers behind the bridge `c` that is taken next. -/
noncomputable abbrev nextOf (rule : BridgeRule) (tree : DevFn → PciBus)
    (hidden blocked : BitVec 8 → Prop) (c : DevFn) (cs : List DevFn) (n : Nat) : Nat :=
  nextBehind rule (fun c n blocked => (tree c).nextNumber rule n blocked) hidden blocked c cs n

theorem LoopReady.lt_nextOf
    (h : LoopReady rule i440fx a s root path b n hidden blocked config child tree (c :: cs)) :
    n < nextOf rule tree hidden blocked c cs n := by
  obtain ⟨-, heq⟩ | ⟨-, heq⟩ := @nextBehind_cases rule hidden blocked
    (fun c n blocked => (tree c).nextNumber rule n blocked) c cs n
  · rw [nextOf, heq]
    exact Nat.lt_succ_self n
  · rw [nextOf, heq]
    exact lt_nextNumber (h.wellFormed c (by simp)) (h.isBus c (by simp)) n _

/-- The loop goes on behind the bridge `c`, which has the numbers from `n` to
`next - 1` and claims no later one. -/
theorem LoopReady.next {t : PciBus} {s' : PciState} {next : Nat} {trace : PciTrace}
    (hrule : rule.Sound)
    (h : LoopReady rule i440fx a s root path b n hidden blocked config child tree (c :: cs))
    (hlt : n < next) (hfits : next ≤ 256)
    (hdone : BusDone s s' root path
      (.bus (Function.update config c (openBridge n (next - 1) (config c)))
        (Function.update child c t)) b (next - 1) trace) :
    LoopReady rule i440fx a s' root path b next hidden blocked
      (Function.update config c (openBridge n (next - 1) (config c)))
      (Function.update child c t) tree cs := by
  obtain ⟨hc, hcs⟩ := List.nodup_cons.mp h.nodup
  have hlater := h.later
  have hne : ∀ d ∈ cs, d ≠ c := by
    rintro d hd rfl
    exact hc hd
  refine ⟨hdone.rule.trans h.rule_eq, hdone.routing.trans h.routing, hdone.addend.trans h.addend,
    h.leads, (hdone.assigned _ ?_).trans h.assigned, hdone.root, hdone.maxBus, by omega, hfits,
    hcs, h.pending.2.2.congr ?_, ?_, fun d hd => h.isBus d (by simp [hd]),
    fun d hd => h.wellFormed d (by simp [hd]), ?_⟩
  · rw [toNat_number (by omega)]
  · intro d hd
    exact Function.update_of_ne (hne d hd) _ _
  · intro d hd
    rw [Function.update_of_ne (hne d hd)]
    exact h.untouched d (by simp [hd])
  · intro v hv
    obtain ⟨-, hsec, hsub⟩ := openBridge_registers n (next - 1) (config c)
    have hclosed : ¬ Claims rule
        (Function.update config c (openBridge n (next - 1) (config c)))
        (Function.update child c t) v c := by
      rintro ⟨-, hclaim⟩
      rw [Function.update_self, hsec, hsub, hrule.closes] at hclaim
      · cases hclaim
      · rw [BitVec.le_def, toNat_number (by omega), toNat_number (by omega)]
        omega
      · rw [BitVec.lt_def, toNat_number (by omega)]
        omega
    have hother {d : DevFn} (hd : d ≠ c) : Claims rule
        (Function.update config c (openBridge n (next - 1) (config c)))
        (Function.update child c t) v d ↔ Claims rule config child v d := by
      simp only [Claims, Function.update_of_ne hd]
    rw [h.hidden_iff v (by omega)]
    constructor
    · rintro ⟨d, hd, hclaim⟩
      rw [List.mem_cons, not_or] at hd
      exact ⟨d, hd.2, (hother hd.1).mpr hclaim⟩
    · rintro ⟨d, hd, hclaim⟩
      have hdc : d ≠ c := by
        rintro rfl
        exact hclosed hclaim
      exact ⟨d, by simp [hdc, hd], (hother hdc).mp hclaim⟩

/-- The window of the next bridge opens. -/
theorem LoopReady.opens
    (h : LoopReady rule i440fx a s root path b n hidden blocked config child tree (c :: cs))
    (hn : n < 256) :
    openWindow path (makeBdf (BitVec.ofNat 8 b) c) s =
      .ok (cs.headD 0xff#8) (s.entered root path config child c n) := by
  rw [← h.pending.1]
  exact openWindow_here (h.rule_eq.symm ▸ h.leads) h.assigned h.root_eq h.maxBus h.later hn

theorem LoopReady.entered_root
    (h : LoopReady rule i440fx a s root path b n hidden blocked config child tree (c :: cs)) :
    (s.entered root path config child c n).root =
      (root.replace path (.bus (Function.update config c (openBridge n 255 (config c)))
        child)).replace (path ++ [c]) (tree c) := by
  rw [replace_concat, ← h.untouched c (by simp), Function.update_eq_self]
  rfl

theorem LoopReady.isBus_child
    (h : LoopReady rule i440fx a s root path b n hidden blocked config child tree cs) :
    ∀ d ∈ cs, (child d).isBus = true := by
  intro d hd
  rw [h.untouched d hd]
  exact h.isBus d hd

/-- The bus behind the next bridge is reached if its number is free. -/
theorem LoopReady.enters (hrule : rule.Sound)
    (h : LoopReady rule i440fx a s root path b n hidden blocked config child tree (c :: cs))
    (hn : n < 256) (hfree : ¬ Blocked rule hidden blocked cs (BitVec.ofNat 8 n)) :
    BusReady rule i440fx (s.entered root path config child c n)
      (root.replace path (.bus (Function.update config c (openBridge n 255 (config c))) child))
      (path ++ [c]) n (Blocked rule hidden blocked cs) (tree c) where
  rule_eq := h.rule_eq
  routing := h.routing
  fits := hn
  leads := leads_entered hrule h.leads h.later hn h.nodup h.pending h.isBus_child h.hidden_iff hfree
  root_eq := h.entered_root
  assigned := Function.update_self _ _ _
  number := rfl
  maxBus := rfl

/-- Otherwise no bus is reached. -/
theorem LoopReady.loses (hrule : rule.Sound)
    (h : LoopReady rule i440fx a s root path b n hidden blocked config child tree (c :: cs))
    (hn : n < 256) (hblocked : Blocked rule hidden blocked cs (BitVec.ofNat 8 n)) (q : List DevFn) :
    route (s.entered root path config child c n).rule (s.entered root path config child c n).root
      (s.entered root path config child c n).bus ≠ .arrives q := by
  have hnumber := toNat_number hn
  obtain ⟨-, hsec, hsub⟩ := openBridge_registers n 255 (config c)
  have hclaims : Claims rule (Function.update config c (openBridge n 255 (config c))) child
      (BitVec.ofNat 8 n) c := by
    refine ⟨h.isBus_child c (by simp), ?_⟩
    rw [Function.update_self, hsec, hsub]
    exact hrule.opens _ _ (BitVec.le_refl _)
  have hlost := (blocked_iff h.nodup h.pending h.isBus_child
    (h.hidden_iff (BitVec.ofNat 8 n) hnumber.ge) (openBridge n 255 (config c))).mpr hblocked
  have hroute := route_lost h.leads (number_lt h.later hn) hclaims hlost q
  rw [← h.rule_eq] at hroute
  exact hroute

/-- The run for the bus behind the next bridge and the close of its window. -/
theorem LoopReady.step (hrule : rule.Sound)
    (h : LoopReady rule i440fx a s root path b n hidden blocked config child tree (c :: cs))
    (hnext : nextOf rule tree hidden blocked c cs n ≤ 256) (hk : 0 < k)
    (hsets : SetsUp rule i440fx k (tree c)) :
    ∃ s₂ s₃ t trace,
      doSetupPciBus k (path ++ [c]) (s.entered root path config child c n) = .ok () s₂ ∧
      closeWindow (makeBdf (BitVec.ofNat 8 b) c) s₂ = .ok () s₃ ∧
      BusDone s s₃ root path
        (.bus (Function.update config c
          (openBridge n (nextOf rule tree hidden blocked c cs n - 1) (config c)))
          (Function.update child c t)) b (nextOf rule tree hidden blocked c cs n - 1) trace ∧
      TraceOf (path ++ [c] <+: ·)
        (¬ Blocked rule hidden blocked cs (BitVec.ofNat 8 n) ∧
          (tree c).Clear rule n (Blocked rule hidden blocked cs))
        (t = (tree c).numbered i440fx n (addDevice a c) ∧
          trace.calls = (tree c).setupCalls (path ++ [c]) n (addDevice a c)) trace ∧
      LinesSet i440fx (addDevice a c) (path ++ [c]) (tree c) t trace.calls := by
  have hn : n < 256 := by
    have hlt := h.lt_nextOf
    omega
  have hleads : Leads s.rule root path (BitVec.ofNat 8 b) blocked := h.rule_eq.symm ▸ h.leads
  obtain ⟨hblocked, heq⟩ | ⟨hfree, heq⟩ := @nextBehind_cases rule hidden blocked
    (fun c n blocked => (tree c).nextNumber rule n blocked) c cs n
  · have hlost := h.loses hrule hn hblocked
    have hdone : BusDone (s.entered root path config child c n)
        (s.entered root path config child c n).nothingFound
        (root.replace path (.bus (Function.update config c (openBridge n 255 (config c))) child))
        (path ++ [c]) (tree c) n n ⟨[], [_], List.replicate 32 (BitVec.ofNat 8 n)⟩ :=
      ⟨rfl, rfl, rfl, h.entered_root, rfl, fun _ _ => rfl, (List.append_nil _).symm, rfl, rfl⟩
    obtain ⟨s₃, hclose, hwindow⟩ := window_done hleads h.assigned h.later hn hdone
    obtain ⟨k, rfl⟩ : ∃ j, k = j + 1 := ⟨k - 1, by omega⟩
    rw [nextOf, heq, Nat.add_sub_cancel]
    refine ⟨_, s₃, tree c, _, doSetupPciBus_lost hlost k _, hclose, hwindow, ?_,
      fun x hx => absurd hx List.not_mem_nil⟩
    have hnone : reached [route (s.entered root path config child c n).rule
        (s.entered root path config child c n).root
        (s.entered root path config child c n).bus] = [] := by
      cases hroute : route (s.entered root path config child c n).rule
          (s.entered root path config child c n).root
          (s.entered root path config child c n).bus with
      | arrives q => exact absurd hroute (hlost q)
      | unclaimed => rfl
      | contention => rfl
    refine ⟨?_, ?_, fun hclear => absurd hblocked hclear.1, ?_⟩
    · rw [hnone]
      exact List.nodup_nil
    · rw [hnone]
      exact fun q hq => absurd hq List.not_mem_nil
    · simp [hblocked]
  · rw [nextOf, heq] at hnext
    obtain ⟨s₂, t, trace, hrun, hdone, htrace, hlines⟩ :=
      hsets _ _ _ _ _ (h.enters hrule hn hfree) hnext
    obtain ⟨s₃, hclose, hwindow⟩ := window_done hleads h.assigned h.later hn hdone
    have haddend : (s.entered root path config child c n).addend = addDevice a c := by
      rw [← h.addend]
      rfl
    rw [haddend] at htrace hlines
    rw [nextOf, heq]
    refine ⟨s₂, s₃, t, trace, hrun, hclose, hwindow,
      htrace.congr (fun q hq => hq) (and_iff_right hfree).symm fun _ => id, hlines⟩

/-- The buses behind different bridges of a bus lie apart. -/
theorem prefix_concat_apart (hnodup : (c :: cs).Nodup) (q : List DevFn) (hq : path ++ [c] <+: q) :
    ¬ ∃ d ∈ cs, path ++ [d] <+: q := by
  rintro ⟨d, hd, hq'⟩
  have heq : path ++ [c] = path ++ [d] := List.prefix_of_prefix_length_le hq hq' (by simp)
    |>.eq_of_length (by simp)
  obtain rfl : c = d := by simpa using heq
  exact (List.nodup_cons.mp hnodup).1 hd

/-- What the loop over the bridges `cs` does to the interrupt lines. -/
structure LoopLines (i440fx : Bool) (a : BitVec 16) (path : List DevFn) (tree : DevFn → PciBus)
    (cs : List DevFn) (config config' : DevFn → Config) (child child' : DevFn → PciBus)
    (calls : List PciCall) : Prop where
  same : ∀ d, config' d PCI_INTERRUPT_LINE = config d PCI_INTERRUPT_LINE
  others : ∀ d ∉ cs, child' d = child d
  behind : ∀ x ∈ calls, ∃ c ∈ cs,
    LinesSet i440fx (addDevice a c) (path ++ [c]) (tree c) (child' c) [x]

/-- One more bridge. -/
theorem LoopLines.cons {config' : DevFn → Config} {child' : DevFn → PciBus} {first last : Nat}
    {t : PciBus} {calls calls' : List PciCall} (hc : c ∉ cs)
    (hlines : LinesSet i440fx (addDevice a c) (path ++ [c]) (tree c) t calls)
    (h : LoopLines i440fx a path tree cs (Function.update config c (openBridge first last (config c)))
      config' (Function.update child c t) child' calls') :
    LoopLines i440fx a path tree (c :: cs) config config' child child' (calls ++ calls') where
  same d := by
    rw [h.same]
    by_cases hd : d = c
    · subst hd
      simp only [Function.update_self, openBridge, store_singleton]
      rw [Function.update_of_ne (by decide), Function.update_of_ne (by decide)]
    · rw [Function.update_of_ne hd]
  others d hd := by
    rw [List.mem_cons, not_or] at hd
    rw [h.others d hd.2, Function.update_of_ne hd.1]
  behind x hx := by
    obtain hx | hx := List.mem_append.mp hx
    · refine ⟨c, by simp, ?_⟩
      rw [h.others c hc, Function.update_self]
      exact fun y hy => hlines y (List.mem_singleton.mp hy ▸ hx)
    · obtain ⟨d, hd, hset⟩ := h.behind x hx
      exact ⟨d, by simp [hd], hset⟩

/-- The loop over the bridges `cs` numbers the buses behind them. -/
theorem bridgeLoop_ready (hrule : rule.Sound)
    (h : LoopReady rule i440fx a s root path b n hidden blocked config child tree cs)
    (hnext : nextFrom rule (fun c n blocked => (tree c).nextNumber rule n blocked) hidden blocked
      cs n ≤ 256)
    (hk : cs ≠ [] → 0 < k) (hsets : ∀ c ∈ cs, SetsUp rule i440fx k (tree c)) :
    ∃ s' config' child' trace, bridgeLoop (doSetupPciBus k) path (BitVec.ofNat 8 b) cs.length
        (cs.headD 0xff#8) s = .ok () s' ∧
      BusDone s s' root path (.bus config' child') b
        (nextFrom rule (fun c n blocked => (tree c).nextNumber rule n blocked) hidden blocked
          cs n - 1) trace ∧
      TraceOf (fun q => ∃ c ∈ cs, path ++ [c] <+: q)
        (ClearFrom rule (fun c n blocked => (tree c).Clear rule n blocked)
          (fun c => (tree c).size) hidden blocked cs n)
        ((config', child') = numberBridges
            (fun c n => (tree c).numbered i440fx n (addDevice a c)) (fun c => (tree c).size) cs n
            config child ∧
          trace.calls = bridgeCalls
            (fun c n => (tree c).setupCalls (path ++ [c]) n (addDevice a c))
            (fun c => (tree c).size) cs n) trace ∧
      LoopLines i440fx a path tree cs config config' child child' trace.calls := by
  induction cs generalizing s n config child with
  | nil =>
    refine ⟨s, config, child, ⟨[], [], []⟩, rfl, ⟨rfl, rfl, rfl, h.root_eq, h.maxBus,
      fun _ _ => rfl, (List.append_nil _).symm, (List.append_nil _).symm,
      (List.append_nil _).symm⟩, ⟨List.nodup_nil, ?_, fun _ => ⟨rfl, rfl⟩, ?_⟩,
      fun _ => rfl, fun _ _ => rfl, ?_⟩
    · exact fun q hq => absurd hq List.not_mem_nil
    · exact iff_of_true rfl trivial
    · exact fun x hx => absurd hx List.not_mem_nil
  | cons c cs ih =>
    have hlt := h.lt_nextOf
    have hle : nextOf rule tree hidden blocked c cs n ≤ 256 := by
      refine le_trans (le_trans (Nat.le_add_right _ _) (le_nextFrom ?_ _)) hnext
      intro d hd m blocked'
      exact lt_nextNumber (h.wellFormed d (by simp [hd])) (h.isBus d (by simp [hd])) m blocked'
    obtain ⟨s₂, s₃, t, trace, hrun, hclose, hwindow, htrace, hlines⟩ :=
      h.step hrule hle (hk (by simp)) (hsets c (by simp))
    obtain ⟨s', config', child', trace', hloop, hall, htrace', hlines'⟩ := ih
      (h.next hrule hlt hle hwindow) hnext (fun _ => hk (by simp))
      fun d hd => hsets d (by simp [hd])
    refine ⟨s', config', child', trace.append trace', ?_, hwindow.append hall, ?_,
      hlines'.cons (List.nodup_cons.mp h.nodup).1 hlines⟩
    · have hhead : (c :: cs).headD 0xff#8 = c := rfl
      rw [List.length_cons, hhead, bridgeLoop, StateRun.bind_of_ok (h.opens (by omega)),
        StateRun.bind_of_ok hrun, StateRun.bind_of_ok hclose]
      exact hloop
    · have hsize (hclear : ¬ Blocked rule hidden blocked cs (BitVec.ofNat 8 n) ∧
          (tree c).Clear rule n (Blocked rule hidden blocked cs)) :
          nextOf rule tree hidden blocked c cs n = n + (tree c).size :=
        (if_neg hclear.1).trans (nextNumber_of_clear hclear.2)
      refine (htrace.append htrace' (prefix_concat_apart h.nodup)).congr ?_ ?_ ?_
      · rintro q (hq | ⟨d, hd, hq⟩)
        · exact ⟨c, by simp, hq⟩
        · exact ⟨d, by simp [hd], hq⟩
      · constructor
        · rintro ⟨hclear, hrest⟩
          rw [hsize hclear] at hrest
          exact ⟨hclear.1, hclear.2, hrest⟩
        · rintro ⟨hfree, hbelow, hrest⟩
          rw [← hsize ⟨hfree, hbelow⟩] at hrest
          exact ⟨⟨hfree, hbelow⟩, hrest⟩
      · rintro ⟨hfree, hbelow, -⟩ ⟨⟨ht, hcalls⟩, hconfig, hcalls'⟩
        rw [hsize ⟨hfree, hbelow⟩, ht] at hconfig
        rw [hsize ⟨hfree, hbelow⟩] at hcalls'
        exact ⟨hconfig, congrArg₂ (· ++ ·) hcalls hcalls'⟩

end Loop

/-! ### A whole bus -/

section WholeBus

variable {rule : BridgeRule} {i440fx : Bool} {config : DevFn → Config} {child : DevFn → PciBus}

/-- A bus behind a bridge is smaller. -/
theorem size_le_of_mem {c : DevFn} (hc : c ∈ bridgeOrder config) (child : DevFn → PciBus) :
    (child c).size + 1 ≤ (PciBus.bus config child).size := by
  have hle := List.single_le_sum (by simp) _
    (List.mem_map_of_mem (f := fun c => (child c).size) hc)
  rw [PciBus.size]
  omega

/-- The scan does not write to hidden bridges. -/
theorem hiddenClaims_scanned (hclass : ∀ d, (child d).isBus = isBridgeClass (config d))
    (addend : BitVec 16) (b v : BitVec 8) : HiddenClaims rule config child v ↔
      ∃ d ∉ bridgeOrder config, Claims rule (scanned i440fx addend b config).config child v d := by
  refine exists_congr fun d => and_congr_right fun hd => ?_
  unfold Claims
  refine and_congr_right fun hbus => ?_
  have hskipped : d ∉ scanOrder config := fun hmem =>
    hd (mem_bridgeOrder.mpr ⟨mem_scanOrder.mp hmem, (hclass d).symm.trans hbus⟩)
  rw [scanned, visits_of_not_mem hskipped]

section Scan

variable {s : PciState} {root : PciBus} {path : List DevFn} {b : Nat} {blocked : BitVec 8 → Prop}

/-- The bus with its bridges blocked, and the trace of the scan. -/
theorem scan_done (h : BusReady rule i440fx s root path b blocked (.bus config child)) :
    ∃ s₁, pciForeach doSetupPci s.entering = .ok () s₁ ∧
      BusDone s s₁ root path
        (.bus (scanned i440fx s.addend (BitVec.ofNat 8 b) config).config child) b b
        ⟨(scanOrder config).map fun d => ⟨.arrives path, d, BitVec.ofNat 8 b, s.addend⟩,
          [.arrives path], []⟩ ∧
      s₁.bus = BitVec.ofNat 8 b ∧ s₁.bridgeHead = (bridgeOrder config).headD 0xff#8 ∧
      s₁.bridgeCount = (bridgeOrder config).length := by
  have hrouting := h.routing
  subst hrouting
  obtain ⟨-, hhead, hcount⟩ := @scanned_pending s.useI440fxRouting s.addend (BitVec.ofNat 8 b) config
  have hscan := @pciForeach_here s.entering root path _ blocked child
    { config := config, head := 0xff#8, count := 0 } (h.rule_eq.symm ▸ h.leads) h.assigned h.number
  have hstart : s.entering.scanning root path child
      { config := config, head := 0xff#8, count := 0 } [] = s.entering := by
    simp [PciState.scanning, PciState.entering, ← h.root_eq]
  have hroute : route s.rule s.root s.bus = .arrives path := by
    rw [h.rule_eq, h.root_eq, h.number]
    exact h.leads.here _ rfl
  rw [hstart] at hscan
  refine ⟨_, hscan, ⟨rfl, rfl, rfl, rfl, h.maxBus, fun _ _ => rfl, ?_, ?_,
    (List.append_nil _).symm⟩, h.number, hhead, hcount⟩
  · rw [← h.number]
    rfl
  · rw [← hroute]
    rfl

theorem loopReady_scanned (hwf : (PciBus.bus config child).WellFormed) {s₁ : PciState}
    {trace : PciTrace} (h : BusReady rule i440fx s root path b blocked (.bus config child))
    (hdone : BusDone s s₁ root path
      (.bus (scanned i440fx s.addend (BitVec.ofNat 8 b) config).config child) b b trace) :
    LoopReady rule i440fx s.addend s₁ root path b (b + 1) (HiddenClaims rule config child) blocked
      (scanned i440fx s.addend (BitVec.ofNat 8 b) config).config child child
      (bridgeOrder config) where
  rule_eq := hdone.rule.trans h.rule_eq
  routing := hdone.routing.trans h.routing
  addend := hdone.addend
  leads := h.leads
  assigned := (hdone.assigned _ (toNat_number h.fits).le).trans h.assigned
  root_eq := hdone.root
  maxBus := hdone.maxBus
  later := Nat.lt_succ_self b
  fits := h.fits
  nodup := nodup_bridgeOrder config
  pending := (scanned_pending config).1
  untouched _ _ := rfl
  isBus _ hc := isBus_of_mem hwf hc
  wellFormed c _ := hwf.2 c
  hidden_iff v _ := hiddenClaims_scanned hwf.1 s.addend _ v

/-- After the scan the loop takes the bridges that were found. -/
theorem doSetupPciBus_scanned {k : Nat} {s₁ : PciState}
    (hscan : pciForeach doSetupPci s.entering = .ok () s₁)
    (hbus : s₁.bus = BitVec.ofNat 8 b) (hhead : s₁.bridgeHead = (bridgeOrder config).headD 0xff#8)
    (hcount : s₁.bridgeCount = (bridgeOrder config).length) :
    doSetupPciBus (k + 1) path s =
      bridgeLoop (doSetupPciBus k) path (BitVec.ofNat 8 b) (bridgeOrder config).length
        ((bridgeOrder config).headD 0xff#8) s₁ := by
  rw [doSetupPciBus, ← hbus, ← hhead, ← hcount]
  exact (StateRun.bind_of_ok (StateRun.modify_apply _ _)).trans
    ((StateRun.bind_of_ok hscan).trans (StateRun.bind_of_ok (StateRun.get_apply _)))

end Scan

/-- A scan enters its own bus, and none of the buses behind it. -/
theorem scan_trace (path : List DevFn) (calls : List PciCall) :
    TraceOf (· = path) True True ⟨calls, [.arrives path], []⟩ where
  once := List.nodup_singleton path
  inside_of_mem _ hq := List.mem_singleton.mp hq
  exact_of_clear := id
  strays_iff := iff_of_true rfl trivial

theorem scan_apart {cs : List DevFn} (path q : List DevFn) (hq : q = path) :
    ¬ ∃ c ∈ cs, path ++ [c] <+: q := by
  rintro ⟨c, -, hbehind⟩
  have hlength := hbehind.length_le
  rw [hq, List.length_append, List.length_singleton] at hlength
  omega

/-- The interrupt lines of a bus and of the buses behind it. -/
theorem lines_set {a : BitVec 16} {b : BitVec 8} {path : List DevFn} {config' : DevFn → Config}
    {child' : DevFn → PciBus} {calls : List PciCall} {bus : BitVec 8}
    (h : LoopLines i440fx a path child (bridgeOrder config) (scanned i440fx a b config).config
      config' child child' calls) :
    LinesSet i440fx a path (.bus config child) (.bus config' child')
      (((scanOrder config).map fun d => ⟨.arrives path, d, bus, a⟩) ++ calls) := by
  intro x hx
  obtain hx | hx := List.mem_append.mp hx
  · obtain ⟨d, hd, rfl⟩ := List.mem_map.mp hx
    obtain ⟨head, hconfig⟩ := @visits_of_mem i440fx a b (scanOrder config)
      { config := config, head := 0xff#8, count := 0 } d (nodup_scanOrder config) hd
    refine ⟨[], by rw [List.append_nil], ?_⟩
    rw [configAt, h.same, scanned, hconfig, setupConfig_line]
    rfl
  · obtain ⟨c, -, hset⟩ := h.behind x hx
    obtain ⟨rest, htarget, hline⟩ := hset x (List.mem_singleton_self x)
    refine ⟨c :: rest, ?_, hline⟩
    rw [htarget, List.append_assoc, List.singleton_append]

/-- Every tree of buses is set up. -/
theorem sets_up (hrule : rule.Sound) {t : PciBus} (hwf : t.WellFormed) (hbus : t.isBus = true)
    {k : Nat} (hk : t.size ≤ k) : SetsUp rule i440fx k t := by
  induction t generalizing k with
  | absent => cases hbus
  | bus config child ih =>
    have hsize : (PciBus.bus config child).size =
        1 + ((bridgeOrder config).map fun c => (child c).size).sum := rfl
    obtain ⟨k, rfl⟩ : ∃ j, k = j + 1 := ⟨k - 1, by omega⟩
    intro s root path b blocked hready hfits
    have hbelow : ∀ c ∈ bridgeOrder config, (child c).size ≤ k := by
      intro c hc
      have hle := size_le_of_mem hc child
      omega
    have hdepth : bridgeOrder config ≠ [] → 0 < k := by
      intro hne
      obtain ⟨c, hc⟩ := List.exists_mem_of_ne_nil _ hne
      exact lt_of_lt_of_le (size_pos (isBus_of_mem hwf hc)) (hbelow c hc)
    obtain ⟨s₁, hscan, hscanned, hbus₁, hhead, hcount⟩ := scan_done hready
    obtain ⟨s', config', child', trace, hloop, hdone, htrace, hlines⟩ := bridgeLoop_ready hrule
      (loopReady_scanned hwf hready hscanned) hfits hdepth
      fun c hc => ih c (hwf.2 c) (isBus_of_mem hwf hc) (hbelow c hc)
    refine ⟨s', .bus config' child', _, (doSetupPciBus_scanned hscan hbus₁ hhead hcount).trans hloop,
      hscanned.append hdone, ?_, lines_set hlines⟩
    refine ((scan_trace path _).append htrace (scan_apart path)).congr ?_ ?_ ?_
    · rintro q (rfl | ⟨c, -, hq⟩)
      · exact List.prefix_rfl
      · exact (List.prefix_append path [c]).trans hq
    · exact and_iff_right trivial
    · rintro - ⟨-, hafter, hcalls⟩
      refine ⟨?_, congrArg _ hcalls⟩
      rw [PciBus.numbered, ← hafter]

end WholeBus

/-! ### The root bus -/

/-- `setup_pci` calls `do_setup_pci_bus` for the root bus. -/
theorem busReady_initial (rule : BridgeRule) (i440fx : Bool) (T : PciTopology) :
    BusReady rule i440fx (.initial rule i440fx T.root) T.root [] 0 (fun _ => False) T.root where
  rule_eq := rfl
  routing := rfl
  fits := by decide
  leads := leads_root rule T.isBus
  root_eq := replace_nil.symm
  assigned := rfl
  number := rfl
  maxBus := rfl

/-- If no number is claimed twice, the whole run is known. -/
theorem run_of_clear {rule : BridgeRule} (hrule : rule.Sound) (i440fx : Bool) (T : PciTopology)
    (hclear : T.root.Clear rule 0 fun _ => False) (hsize : T.root.size ≤ 256) :
    ∃ s', doSetupPciBus T.root.size [] (.initial rule i440fx T.root) = .ok () s' ∧
      s'.root = T.root.numbered i440fx 0 0#16 ∧ s'.maxBus = BitVec.ofNat 8 (T.root.size - 1) ∧
      s'.addend = 0#16 ∧ s'.calls = T.root.setupCalls [] 0 0#16 := by
  have hnext := nextNumber_of_clear hclear
  rw [Nat.zero_add] at hnext
  obtain ⟨s', t', trace, hrun, hdone, htrace, -⟩ := sets_up hrule T.wellFormed T.isBus le_rfl
    _ _ _ _ _ (busReady_initial rule i440fx T) (hnext.trans_le hsize)
  obtain ⟨hroot, hcalls⟩ := htrace.exact_of_clear hclear
  refine ⟨s', hrun, ?_, ?_, hdone.addend, hdone.calls.trans hcalls⟩
  · rw [hdone.root, replace_nil, hroot]
    rfl
  · rw [hdone.maxBus, hnext]

/-- A run that returns does so at any greater depth. -/
theorem bridgeLoop_mono {recurse recurse' : List DevFn → Pci Unit}
    (h : ∀ path s s', recurse path s = .ok () s' → recurse' path s = .ok () s')
    {path : List DevFn} {b : BitVec 8} {n : Nat} {head : DevFn} {s s' : PciState}
    (hrun : bridgeLoop recurse path b n head s = .ok () s') :
    bridgeLoop recurse' path b n head s = .ok () s' := by
  induction n generalizing head s with
  | zero => exact hrun
  | succ n ih =>
    obtain ⟨next, s₁, hopen, hrun⟩ := StateRun.bind_ok.mp hrun
    obtain ⟨_, s₂, hrecurse, hrun⟩ := StateRun.bind_ok.mp hrun
    obtain ⟨_, s₃, hclose, hrun⟩ := StateRun.bind_ok.mp hrun
    rw [bridgeLoop, StateRun.bind_of_ok hopen, StateRun.bind_of_ok (h _ _ _ hrecurse),
      StateRun.bind_of_ok hclose]
    exact ih hrun

theorem doSetupPciBus_succ {k : Nat} {path : List DevFn} {s s' : PciState}
    (hrun : doSetupPciBus k path s = .ok () s') : doSetupPciBus (k + 1) path s = .ok () s' := by
  induction k generalizing path s s' with
  | zero => cases hrun
  | succ k ih =>
    obtain ⟨_, s₁, henter, hrun⟩ := StateRun.bind_ok.mp hrun
    obtain ⟨_, s₂, hscan, hrun⟩ := StateRun.bind_ok.mp hrun
    obtain ⟨s₃, _, hget, hrun⟩ := StateRun.bind_ok.mp hrun
    cases hget
    rw [doSetupPciBus, StateRun.bind_of_ok henter, StateRun.bind_of_ok hscan,
      StateRun.bind_of_ok (StateRun.get_apply _)]
    exact bridgeLoop_mono (fun path s s' => ih) hrun

theorem doSetupPciBus_mono {k k' : Nat} (hk : k ≤ k') {path : List DevFn} {s s' : PciState}
    (hrun : doSetupPciBus k path s = .ok () s') : doSetupPciBus k' path s = .ok () s' := by
  induction hk with
  | refl => exact hrun
  | step _ ih => exact doSetupPciBus_succ ih

/-- The state in which a run returns does not depend on the depth. -/
theorem doSetupPciBus_unique {k k' : Nat} {path : List DevFn} {s s₁ s₂ : PciState}
    (h₁ : doSetupPciBus k path s = .ok () s₁) (h₂ : doSetupPciBus k' path s = .ok () s₂) :
    s₁ = s₂ := by
  have hrun := doSetupPciBus_mono (Nat.le_max_left k k') h₁
  rw [doSetupPciBus_mono (Nat.le_max_right k k') h₂] at hrun
  cases hrun
  rfl

end Qboot
