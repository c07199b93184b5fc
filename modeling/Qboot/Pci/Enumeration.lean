import Qboot.Pci.Wraparound

/-!
When the enumeration of buses ends. It does so if no more numbers are given
out than there are, and then no bus is entered twice. With more bridges the
eight bits of `max_bus` run over.
-/

namespace Qboot

open Bytes ByteMemory PciBus

/-- A bridge claims the cycles for buses between its two registers. -/
def claimsWithin : BridgeRule := fun secondary subordinate bus =>
  secondary ≤ bus ∧ bus ≤ subordinate

theorem claimsWithin_sound : claimsWithin.Sound where
  opens n v hv := by
    have hlast : v ≤ 255#8 := BitVec.le_def.mpr (Nat.le_of_lt_succ v.isLt)
    exact decide_eq_true ⟨hv, hlast⟩
  closes first last v _ hv := by
    refine decide_eq_false fun h => ?_
    exact absurd hv (BitVec.not_lt.mpr h.2)

/-- `do_setup_pci_bus` for the root bus returns, and has entered no bus twice. -/
def EnumerationEnds (rule : BridgeRule) (i440fx : Bool) (root : PciBus) : Prop :=
  ∃ k s', doSetupPciBus k [] (.initial rule i440fx root) = .ok () s' ∧ (reached s'.entries).Nodup

theorem count_reached (entries : List Route) (path : List DevFn) :
    (reached entries).count path = entries.count (.arrives path) := by
  induction entries with
  | nil => rfl
  | cons r entries ih =>
    rw [reached] at ih ⊢
    cases r with
    | arrives q => simp [Route.arrival, List.count_cons, ih]
    | unclaimed =>
      rw [List.count_cons_of_ne (by simp)]
      exact ih
    | contention =>
      rw [List.count_cons_of_ne (by simp)]
      exact ih

/-- The enumeration ends exactly when the numbers suffice. -/
theorem ends_iff_nextNumber {rule : BridgeRule} (hrule : rule.Sound) (i440fx : Bool)
    (T : PciTopology) :
    EnumerationEnds rule i440fx T.root ↔ T.root.nextNumber rule 0 (fun _ => False) ≤ 256 := by
  have hready := busReady_initial rule i440fx T
  constructor
  · rintro ⟨k, s', hrun, hnodup⟩
    by_contra hnext
    have hrun' := doSetupPciBus_mono (Nat.le_max_left k T.root.size) hrun
    have hentered := overflows hrule T.wellFormed T.isBus (Nat.le_max_right k T.root.size) _ _ _ _ _
      hready (Nat.not_le.mp hnext) s' hrun'
    have honce := List.nodup_iff_count_le_one.mp hnodup []
    rw [count_reached] at honce
    exact absurd hentered (Nat.not_lt.mpr honce)
  · intro hnext
    obtain ⟨s', t', trace, hrun, hdone, htrace, -⟩ :=
      sets_up hrule T.wellFormed T.isBus le_rfl _ _ _ _ _ hready hnext
    have hentries : s'.entries = trace.entries := hdone.entries
    refine ⟨_, s', hrun, ?_⟩
    rw [hentries]
    exact htrace.once

/-! ### Trees without hidden bridges -/

/-- No bridge claims another number than 0 while it waits for its own. -/
theorem Blocked_within {config : DevFn → Config} {child : DevFn → PciBus}
    {blocked : BitVec 8 → Prop} {cs : List DevFn} {v : BitVec 8}
    (hfound : ∀ d, (child d).isBus = true → d ∈ bridgeOrder config)
    (hzero : ∀ v, blocked v → v = 0#8)
    (h : Blocked claimsWithin (HiddenClaims claimsWithin config child) blocked cs v) : v = 0#8 := by
  rcases h with h | ⟨d, hd, hclaim⟩ | ⟨l, -, hclaim⟩
  · exact hzero v h
  · exact absurd (hfound d hclaim.1) hd
  · have hle : v ≤ 0#8 := (of_decide_eq_true hclaim).2
    exact BitVec.le_zero_iff.mp hle

theorem clearFrom_of_found {config : DevFn → Config} {child : DevFn → PciBus}
    {blocked : BitVec 8 → Prop} {cs : List DevFn} {n : Nat}
    (hbus : ∀ c ∈ cs, (child c).isBus = true) (hwf : ∀ c ∈ cs, (child c).WellFormed)
    (hfound : ∀ d, (child d).isBus = true → d ∈ bridgeOrder config)
    (hbelow : ∀ c ∈ cs, ∀ n (blocked : BitVec 8 → Prop), (∀ v, blocked v → v = 0#8) →
      (child c).nextNumber claimsWithin n blocked ≤ 256 → (child c).Clear claimsWithin n blocked)
    (hzero : ∀ v, blocked v → v = 0#8) (hn : 0 < n)
    (hnext : nextFrom claimsWithin (fun c n blocked => (child c).nextNumber claimsWithin n blocked)
      (HiddenClaims claimsWithin config child) blocked cs n ≤ 256) :
    ClearFrom claimsWithin (fun c n blocked => (child c).Clear claimsWithin n blocked)
      (fun c => (child c).size) (HiddenClaims claimsWithin config child) blocked cs n := by
  induction cs generalizing n with
  | nil => trivial
  | cons c cs ih =>
    have hlater : ∀ d ∈ cs, ∀ n blocked, n + 1 ≤ (child d).nextNumber claimsWithin n blocked :=
      fun d hd n blocked => lt_nextNumber (hwf d (by simp [hd])) (hbus d (by simp [hd])) n blocked
    have hle := le_trans (Nat.le_add_right _ _) (le_trans (le_nextFrom hlater _) hnext)
    have hlt := @lt_nextNumber claimsWithin _ (hwf c (by simp)) (hbus c (by simp)) n
      (Blocked claimsWithin (HiddenClaims claimsWithin config child) blocked cs)
    have hfree : ¬ Blocked claimsWithin (HiddenClaims claimsWithin config child) blocked cs
        (BitVec.ofNat 8 n) := by
      intro hblocked
      have hnumber := congrArg BitVec.toNat (Blocked_within hfound hzero hblocked)
      have hsucc : nextBehind claimsWithin
          (fun c n blocked => (child c).nextNumber claimsWithin n blocked)
          (HiddenClaims claimsWithin config child) blocked c cs n = n + 1 := if_pos hblocked
      rw [BitVec.toNat_ofNat, BitVec.toNat_ofNat] at hnumber
      omega
    have heq : nextBehind claimsWithin
        (fun c n blocked => (child c).nextNumber claimsWithin n blocked)
        (HiddenClaims claimsWithin config child) blocked c cs n =
        (child c).nextNumber claimsWithin n
          (Blocked claimsWithin (HiddenClaims claimsWithin config child) blocked cs) := if_neg hfree
    rw [heq] at hle
    have hclear := hbelow c (by simp) n _ (fun v => Blocked_within hfound hzero) hle
    rw [nextFrom, heq, nextNumber_of_clear hclear] at hnext
    exact ⟨hfree, hclear, ih (fun d hd => hbus d (by simp [hd])) (fun d hd => hwf d (by simp [hd]))
      (fun d hd => hbelow d (by simp [hd])) (by omega) hnext⟩

theorem clear_of_found {t : PciBus} {b : Nat} {blocked : BitVec 8 → Prop} (hwf : t.WellFormed)
    (hfound : t.Found) (hzero : ∀ v, blocked v → v = 0#8)
    (hnext : t.nextNumber claimsWithin b blocked ≤ 256) : t.Clear claimsWithin b blocked := by
  induction t generalizing b blocked with
  | absent => trivial
  | bus config child ih =>
    exact clearFrom_of_found (fun c hc => isBus_of_mem hwf hc) (fun c _ => hwf.2 c) hfound.1
      (fun c _ n blocked => ih c (hwf.2 c) (hfound.2 c)) hzero (Nat.succ_pos b) hnext

theorem nextNumber_iff_busCount {T : PciTopology} (hfound : T.root.Found) :
    T.root.nextNumber claimsWithin 0 (fun _ => False) ≤ 256 ↔ T.root.busCount ≤ 256 := by
  rw [← size_of_found hfound]
  constructor
  · intro hnext
    have hclear := clear_of_found T.wellFormed hfound (fun _ h => h.elim) hnext
    rwa [nextNumber_of_clear hclear, Nat.zero_add] at hnext
  · intro hsize
    have hle := @nextNumber_le claimsWithin _ T.wellFormed 0 fun _ => False
    omega

/-- The enumeration of buses ends, with no bus entered twice, exactly when at
most 256 numbers are given out, the root bus included. If the scan finds all
bridges, that is: exactly when there are at most 255 of them.

Config cycles for a number that two bridges claim are taken to find nothing:
`nextNumber` gives such a number out and goes on with the next one, and counts no
bus behind it (`Blocked`). Only a hidden bridge or a waiting one can claim a
number of another bridge. -/
theorem enumeration_ends_iff (i440fx : Bool) (T : PciTopology) :
    (EnumerationEnds claimsWithin i440fx T.root ↔
      T.root.nextNumber claimsWithin 0 (fun _ => False) ≤ 256) ∧
    (T.root.Found → (EnumerationEnds claimsWithin i440fx T.root ↔ T.root.busCount ≤ 256)) := by
  have hends := ends_iff_nextNumber claimsWithin_sound i440fx T
  exact ⟨hends, fun hfound => hends.trans (nextNumber_iff_busCount hfound)⟩

/-! ### One bridge too many -/

/-- A bus with no functions but the bridges `ds`. -/
def bridgesAt (ds : List DevFn) : DevFn → Config := fun d a =>
  if d ∉ ds then 0xff#8
  else if a = PCI_VENDOR_ID then 0x36#8
  else if a = PCI_VENDOR_ID + 1#8 then 0x1b#8
  else if a = PCI_CLASS_DEVICE then 0x04#8
  else if a = PCI_CLASS_DEVICE + 1#8 then 0x06#8
  else if a = PCI_HEADER_TYPE then PCI_HEADER_TYPE_BRIDGE
  else 0#8

def busWith (ds : List DevFn) (behind : DevFn → PciBus) : PciBus :=
  .bus (bridgesAt ds) fun d => if d ∈ ds then behind d else .absent

/-- `n` bridges, each on the bus behind the one before. -/
def chain : Nat → PciBus
  | 0 => busWith [] fun _ => .absent
  | n + 1 => busWith [8#8] fun _ => chain n

theorem isBridgeClass_bridgesAt (ds : List DevFn) (d : DevFn) :
    isBridgeClass (bridgesAt ds d) = decide (d ∈ ds) := by
  by_cases hd : d ∈ ds
  · have hregisters : bridgesAt ds d = bridgesAt [0#8] 0#8 := by
      funext a
      simp [bridgesAt, hd]
    rw [hregisters, decide_eq_true hd]
    decide +kernel
  · have hregisters : bridgesAt ds d = fun _ => 0xff#8 := by
      funext a
      simp [bridgesAt, hd]
    rw [hregisters, decide_eq_false hd]
    decide +kernel

theorem wellFormed_busWith {ds : List DevFn} {behind : DevFn → PciBus}
    (hbus : ∀ d ∈ ds, (behind d).isBus = true) (hwf : ∀ d ∈ ds, (behind d).WellFormed) :
    (busWith ds behind).WellFormed := by
  refine ⟨fun d => ?_, fun d => ?_⟩
  · rw [isBridgeClass_bridgesAt]
    by_cases hd : d ∈ ds
    · simp [hd, hbus d hd]
    · simp [hd, isBus]
  · by_cases hd : d ∈ ds
    · simpa [hd] using hwf d hd
    · simp [hd, PciBus.WellFormed]

theorem bridgeOrder_none : bridgeOrder (bridgesAt []) = [] := by decide +kernel

theorem bridgeOrder_one : bridgeOrder (bridgesAt [8#8]) = [8#8] := by decide +kernel

theorem isBus_chain (n : Nat) : (chain n).isBus = true := by
  cases n <;> rfl

theorem wellFormed_chain (n : Nat) : (chain n).WellFormed := by
  induction n with
  | zero => exact wellFormed_busWith (by simp) (by simp)
  | succ n ih => exact wellFormed_busWith (fun _ _ => isBus_chain n) fun _ _ => ih

theorem found_one {t : PciBus} (h : t.Found) : (busWith [8#8] fun _ => t).Found := by
  refine ⟨fun d hbus => ?_, fun d => ?_⟩
  · rw [bridgeOrder_one]
    by_contra hd
    simp [hd, isBus] at hbus
  · by_cases hd : d ∈ [8#8]
    · simpa [hd] using h
    · simp [hd, PciBus.Found]

theorem found_chain (n : Nat) : (chain n).Found := by
  induction n with
  | zero => exact ⟨fun d h => (Bool.false_ne_true h).elim, fun _ => trivial⟩
  | succ n ih => exact found_one ih

theorem size_chain (n : Nat) : (chain n).size = n + 1 := by
  induction n with
  | zero =>
    rw [chain, busWith, PciBus.size, bridgeOrder_none]
    rfl
  | succ n ih =>
    rw [chain, busWith, PciBus.size, bridgeOrder_one]
    simp [ih]
    omega

theorem busCount_chain (n : Nat) : (chain n).busCount = n + 1 :=
  (size_of_found (found_chain n)).symm.trans (size_chain n)

def chainTopology (n : Nat) : PciTopology where
  root := chain n
  isBus := isBus_chain n
  wellFormed := wellFormed_chain n

/-- Behind 256 bridges in a row the root bus is entered again. -/
theorem enumeration_not_always_ends :
    ¬ ∀ (i440fx : Bool) (T : PciTopology), EnumerationEnds claimsWithin i440fx T.root := by
  intro h
  have hends := h true (chainTopology 256)
  have hcount : (chainTopology 256).root.busCount = 257 := busCount_chain 256
  rw [ends_iff_nextNumber claimsWithin_sound, nextNumber_iff_busCount (found_chain 256)] at hends
  omega

end Qboot
