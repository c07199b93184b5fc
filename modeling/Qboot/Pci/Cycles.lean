import Qboot.Pci.Enumeration

/-!
Where configuration cycles go while buses are numbered, when a bridge delivers
the cycles for its secondary bus whatever its subordinate bus register holds. A
bridge that waits for its number is then not blocked: its link in the list of
bridges is a number it claims.
-/

namespace Qboot

open Bytes ByteMemory PciBus

/-- A bridge claims the cycles for its secondary bus and those for later buses
up to its subordinate bus. -/
def claimsSecondary : BridgeRule := fun secondary subordinate bus =>
  bus = secondary ∨ secondary < bus ∧ bus ≤ subordinate

theorem claimsSecondary_sound : claimsSecondary.Sound where
  opens n v hv := by
    have hlast : v ≤ 255#8 := BitVec.le_def.mpr (Nat.le_of_lt_succ v.isLt)
    by_cases heq : v = n
    · exact decide_eq_true (Or.inl heq)
    · exact decide_eq_true (Or.inr ⟨BitVec.lt_of_le_ne hv (Ne.symm heq), hlast⟩)
  closes first last v hle hv := by
    refine decide_eq_false ?_
    rintro (rfl | ⟨-, hlast⟩)
    · exact absurd hv (BitVec.not_lt.mpr hle)
    · exact absurd hv (BitVec.not_lt.mpr hlast)

/-- `do_setup_pci_bus` for the root bus returns, and each of its cycles arrived
on the bus that has the number of the cycle. -/
def CyclesArrive (rule : BridgeRule) (i440fx : Bool) (root : PciBus) : Prop :=
  ∃ k s', doSetupPciBus k [] (.initial rule i440fx root) = .ok () s' ∧ s'.strays = []

/-- All cycles arrive exactly when no other bridge claims a number that is in
use. -/
theorem arrive_iff_clear {rule : BridgeRule} (hrule : rule.Sound) (i440fx : Bool)
    (T : PciTopology) (hcount : T.root.busCount ≤ 256) :
    CyclesArrive rule i440fx T.root ↔ T.root.Clear rule 0 fun _ => False := by
  have hnext : T.root.nextNumber rule 0 (fun _ => False) ≤ 256 := by
    have hle := @nextNumber_le rule _ T.wellFormed 0 fun _ => False
    have hsize := size_le_busCount T.root
    omega
  obtain ⟨s', t', trace, hrun, hdone, htrace, -⟩ := sets_up hrule T.wellFormed T.isBus le_rfl
    _ _ _ _ _ (busReady_initial rule i440fx T) hnext
  constructor
  · rintro ⟨k, s, hreturns, hnone⟩
    rw [doSetupPciBus_unique hreturns hrun] at hnone
    exact htrace.strays_iff.mp (hdone.strays.symm.trans hnone)
  · intro hclear
    exact ⟨_, s', hrun, hdone.strays.trans (htrace.strays_iff.mpr hclear)⟩

/-! ### Links and numbers -/

/-- The number of the bridge at position `k` of `cs`, if the first one has
number `n`: the buses behind the bridges before it have got theirs. -/
def nthNumber (size : DevFn → Nat) (cs : List DevFn) (n k : Nat) : Nat :=
  n + ((cs.take k).map size).sum

/-- The link that the bridge at position `k` of `cs` holds while it waits: the
device and function of the next one. -/
def waitingLink (cs : List DevFn) (k : Nat) : BitVec 8 := cs.getD (k + 1) 0xff#8

/-- No bridge of `cs` waits with a link that is one of the numbers given out
before its own. -/
def LinksApart (size : DevFn → Nat) (cs : List DevFn) (n : Nat) : Prop :=
  ∀ k < cs.length,
    ¬ (n ≤ (waitingLink cs k).toNat ∧ (waitingLink cs k).toNat < nthNumber size cs n k)

/-- On each bus the links of the bridges are none of the numbers given out
behind the bridges before them, and no bridge that the scan does not find claims
a number of a bus behind this one. The bus itself has number `b`. -/
def PciBus.LinksClear : PciBus → Nat → Prop
  | .absent, _ => True
  | .bus config child, b =>
    LinksApart (fun c => (child c).size) (bridgeOrder config) (b + 1) ∧
    (∀ v, b < v → v < b + (PciBus.bus config child).size →
      ¬ HiddenClaims claimsSecondary config child (BitVec.ofNat 8 v)) ∧
    ∀ k c, (bridgeOrder config)[k]? = some c →
      (child c).LinksClear (nthNumber (fun c => (child c).size) (bridgeOrder config) (b + 1) k)

@[simp] theorem nthNumber_zero (size : DevFn → Nat) (cs : List DevFn) (n : Nat) :
    nthNumber size cs n 0 = n := rfl

theorem nthNumber_succ (size : DevFn → Nat) (c : DevFn) (cs : List DevFn) (n k : Nat) :
    nthNumber size (c :: cs) n (k + 1) = nthNumber size cs (n + size c) k := by
  rw [nthNumber, nthNumber, List.take_succ_cons, List.map_cons, List.sum_cons, Nat.add_assoc]

theorem le_nthNumber (size : DevFn → Nat) (cs : List DevFn) (n k : Nat) :
    n ≤ nthNumber size cs n k := Nat.le_add_right _ _

theorem waitingLink_succ (c : DevFn) (cs : List DevFn) (k : Nat) :
    waitingLink (c :: cs) (k + 1) = waitingLink cs k := rfl

theorem mem_links {cs : List DevFn} {l : BitVec 8} :
    l ∈ links cs ↔ ∃ k < cs.length, l = waitingLink cs k := by
  induction cs with
  | nil => simp [links]
  | cons c cs ih =>
    have hhead : cs.headD 0xff#8 = waitingLink (c :: cs) 0 := by cases cs <;> rfl
    rw [links, List.mem_cons, ih, hhead]
    constructor
    · rintro (hl | ⟨k, hk, hl⟩)
      · exact ⟨0, Nat.succ_pos _, hl⟩
      · exact ⟨k + 1, Nat.succ_lt_succ hk, hl⟩
    · rintro ⟨k, hk, hl⟩
      cases k with
      | zero => exact Or.inl hl
      | succ k => exact Or.inr ⟨k, Nat.lt_of_succ_lt_succ hk, hl⟩

/-- A bridge that waits claims its link and no other number. -/
theorem claimsSecondary_waiting (l v : BitVec 8) : claimsSecondary l 0#8 v = true ↔ v = l := by
  refine decide_eq_true_iff.trans (or_iff_left ?_)
  rintro ⟨hlt, hle⟩
  rw [BitVec.le_zero_iff] at hle
  subst hle
  exact absurd hlt BitVec.not_lt_zero

theorem not_blocked_iff {hidden blocked : BitVec 8 → Prop} {cs : List DevFn} {v : Nat}
    (hv : v < 256) :
    ¬ Blocked claimsSecondary hidden blocked cs (BitVec.ofNat 8 v) ↔
      ¬ blocked (BitVec.ofNat 8 v) ∧ ¬ hidden (BitVec.ofNat 8 v) ∧
        ∀ k < cs.length, (waitingLink cs k).toNat ≠ v := by
  have hnumber : ∀ l : BitVec 8, BitVec.ofNat 8 v = l ↔ l.toNat = v := by
    intro l
    rw [← BitVec.toNat_inj, BitVec.toNat_ofNat, Nat.mod_eq_of_lt hv, eq_comm]
  simp only [Blocked, claimsSecondary_waiting, mem_links, not_or, not_exists, not_and, hnumber]
  refine and_congr_right fun _ => and_congr_right fun _ => ⟨?_, ?_⟩
  · intro h k hk
    exact h _ ⟨k, hk, rfl⟩
  · rintro h l ⟨k, hk, rfl⟩
    exact h k hk

theorem linksApart_cons {size : DevFn → Nat} {c : DevFn} {cs : List DevFn} {n : Nat} :
    LinksApart size (c :: cs) n ↔
      (∀ v, n ≤ v → v < n + size c → ∀ k < cs.length, (waitingLink cs k).toNat ≠ v) ∧
        LinksApart size cs (n + size c) := by
  constructor
  · intro h
    have hlater : ∀ k < cs.length, ¬ (n ≤ (waitingLink cs k).toNat ∧
        (waitingLink cs k).toNat < nthNumber size cs (n + size c) k) := by
      intro k hk
      have hlink := h (k + 1) (Nat.succ_lt_succ hk)
      rwa [nthNumber_succ, waitingLink_succ] at hlink
    refine ⟨?_, ?_⟩
    · rintro v hle hlt k hk rfl
      exact hlater k hk ⟨hle, lt_of_lt_of_le hlt (le_nthNumber _ _ _ _)⟩
    · rintro k hk ⟨hle, hlt⟩
      exact hlater k hk ⟨le_trans (Nat.le_add_right _ _) hle, hlt⟩
  · rintro ⟨hfirst, hrest⟩ k hk ⟨hle, hlt⟩
    cases k with
    | zero => exact absurd hlt (Nat.not_lt.mpr hle)
    | succ k =>
      rw [nthNumber_succ] at hlt
      rw [waitingLink_succ] at hle hlt
      have hk : k < cs.length := Nat.lt_of_succ_lt_succ hk
      rcases Nat.lt_or_ge (waitingLink cs k).toNat (n + size c) with hin | hout
      · exact hfirst _ hle hin k hk rfl
      · exact hrest k hk ⟨hout, hlt⟩

/-- What holds behind each bridge, with the number of the bus behind it. -/
theorem forall_nthNumber_cons {inner : DevFn → Nat → Prop} {size : DevFn → Nat} {c : DevFn}
    {cs : List DevFn} {n : Nat} :
    (∀ k d, (c :: cs)[k]? = some d → inner d (nthNumber size (c :: cs) n k)) ↔
      inner c n ∧ ∀ k d, cs[k]? = some d → inner d (nthNumber size cs (n + size c) k) := by
  constructor
  · intro h
    refine ⟨h 0 c rfl, fun k d hk => ?_⟩
    have hnext := h (k + 1) d hk
    rwa [nthNumber_succ] at hnext
  · rintro ⟨hfirst, hrest⟩ k d hk
    cases k with
    | zero =>
      cases hk
      exact hfirst
    | succ k =>
      rw [nthNumber_succ]
      exact hrest k d hk

/-- The numbers behind the bridges `cs`, from `n` on, are in nobody else's use
exactly when the links are apart from them, and this holds behind each bridge. -/
theorem clearFrom_iff {below : DevFn → Nat → (BitVec 8 → Prop) → Prop}
    {inner : DevFn → Nat → Prop} {size : DevFn → Nat} {hidden blocked : BitVec 8 → Prop}
    {cs : List DevFn} {n : Nat} (hpos : ∀ c ∈ cs, 0 < size c)
    (hbelow : ∀ c ∈ cs, ∀ m (blocked : BitVec 8 → Prop), m + size c ≤ 256 →
      (below c m blocked ↔
        (∀ v, m < v → v < m + size c → ¬ blocked (BitVec.ofNat 8 v)) ∧ inner c m))
    (hfit : n + (cs.map size).sum ≤ 256) :
    ClearFrom claimsSecondary below size hidden blocked cs n ↔
      (∀ v, n ≤ v → v < n + (cs.map size).sum →
        ¬ blocked (BitVec.ofNat 8 v) ∧ ¬ hidden (BitVec.ofNat 8 v)) ∧
      LinksApart size cs n ∧
      ∀ k c, cs[k]? = some c → inner c (nthNumber size cs n k) := by
  induction cs generalizing n with
  | nil =>
    refine iff_of_true trivial ⟨fun v hle hlt => absurd hlt (Nat.not_lt.mpr hle), ?_, ?_⟩
    · intro k hk
      exact absurd hk (Nat.not_lt_zero k)
    · intro k c hk
      simp at hk
  | cons c cs ih =>
    rw [List.map_cons, List.sum_cons, ← Nat.add_assoc] at hfit ⊢
    have hsize := hpos c List.mem_cons_self
    have hhere : n + size c ≤ 256 := by omega
    -- the numbers of the bus behind `c` and of the buses behind that one
    have hfree : (¬ Blocked claimsSecondary hidden blocked cs (BitVec.ofNat 8 n) ∧
        below c n (Blocked claimsSecondary hidden blocked cs)) ↔
          (∀ v, n ≤ v → v < n + size c →
            ¬ Blocked claimsSecondary hidden blocked cs (BitVec.ofNat 8 v)) ∧ inner c n := by
      rw [hbelow c List.mem_cons_self n _ hhere]
      constructor
      · rintro ⟨hfirst, hrest, hinner⟩
        refine ⟨fun v hle hlt => ?_, hinner⟩
        rcases Nat.eq_or_lt_of_le hle with rfl | hgt
        · exact hfirst
        · exact hrest v hgt hlt
      · rintro ⟨hall, hinner⟩
        exact ⟨hall n le_rfl (by omega), fun v hgt hlt => hall v hgt.le hlt, hinner⟩
    rw [ClearFrom, ← and_assoc, hfree, forall_nthNumber_cons, linksApart_cons,
      ih (fun d hd => hpos d (by simp [hd])) (fun d hd => hbelow d (by simp [hd])) hfit]
    constructor
    · rintro ⟨⟨hnone, hinner⟩, hlater, hlinks, hrest⟩
      have hsplit : ∀ v, n ≤ v → v < n + size c → _ := fun v hle hlt =>
        (not_blocked_iff (by omega)).mp (hnone v hle hlt)
      refine ⟨fun v hle hlt => ?_, ⟨fun v hle hlt => (hsplit v hle hlt).2.2, hlinks⟩, hinner, hrest⟩
      rcases Nat.lt_or_ge v (n + size c) with hin | hout
      · exact ⟨(hsplit v hle hin).1, (hsplit v hle hin).2.1⟩
      · exact hlater v hout hlt
    · rintro ⟨hall, ⟨hfirst, hlinks⟩, hinner, hrest⟩
      refine ⟨⟨fun v hle hlt => ?_, hinner⟩, fun v hle hlt => ?_, hlinks, hrest⟩
      · obtain ⟨hblocked, hhidden⟩ := hall v hle (by omega)
        exact (not_blocked_iff (by omega)).mpr ⟨hblocked, hhidden, hfirst v hle hlt⟩
      · exact hall v (by omega) hlt

/-- The numbers given out in a tree are in nobody else's use exactly when no
bridge further up claims one of them and the links are clear. -/
theorem clear_iff_linksClear {t : PciBus} {b : Nat} {blocked : BitVec 8 → Prop}
    (hwf : t.WellFormed) (hfit : b + t.size ≤ 256) :
    t.Clear claimsSecondary b blocked ↔
      (∀ v, b < v → v < b + t.size → ¬ blocked (BitVec.ofNat 8 v)) ∧ t.LinksClear b := by
  induction t generalizing b blocked with
  | absent =>
    refine iff_of_true trivial ⟨fun v hgt hlt => ?_, trivial⟩
    exact absurd hgt (Nat.not_lt.mpr (Nat.le_of_lt_succ (Nat.lt_succ_of_lt hlt)))
  | bus config child ih =>
    have hsize : b + (PciBus.bus config child).size =
        b + 1 + ((bridgeOrder config).map fun c => (child c).size).sum := by
      rw [PciBus.size, ← Nat.add_assoc]
    have hbelow : ∀ c ∈ bridgeOrder config, ∀ m (blocked : BitVec 8 → Prop),
        m + (child c).size ≤ 256 → ((child c).Clear claimsSecondary m blocked ↔
          (∀ v, m < v → v < m + (child c).size → ¬ blocked (BitVec.ofNat 8 v)) ∧
            (child c).LinksClear m) := fun c _ m blocked hm => ih c (hwf.2 c) hm
    rw [PciBus.Clear, PciBus.LinksClear, hsize,
      clearFrom_iff (fun c hc => size_pos (isBus_of_mem hwf hc)) hbelow (hsize ▸ hfit)]
    constructor
    · rintro ⟨hnone, hlinks, hrest⟩
      exact ⟨fun v hgt hlt => (hnone v hgt hlt).1, hlinks, fun v hgt hlt => (hnone v hgt hlt).2,
        hrest⟩
    · rintro ⟨hblocked, hlinks, hhidden, hrest⟩
      exact ⟨fun v hgt hlt => ⟨hblocked v hgt hlt, hhidden v hgt hlt⟩, hlinks, hrest⟩

/-- Bridges in slots 1 to 3 of the root bus, and two more behind the one in
slot 3, each with a bus of its own. -/
def forkedRoot : PciBus := busWith [8#8, 16#8, 24#8] fun d =>
  if d = 24#8 then busWith [8#8, 16#8] fun _ => chain 0 else chain 0

def forked : PciTopology where
  root := forkedRoot
  isBus := rfl
  wellFormed := by
    have hboth : (busWith [8#8, 16#8] fun _ => chain 0).WellFormed :=
      wellFormed_busWith (fun _ _ => isBus_chain 0) fun _ _ => wellFormed_chain 0
    refine wellFormed_busWith (fun d _ => ?_) fun d _ => ?_
    · split
      · rfl
      · exact isBus_chain 0
    · split
      · exact hboth
      · exact wellFormed_chain 0

theorem bridgeOrder_three : bridgeOrder (bridgesAt [8#8, 16#8, 24#8]) = [24#8, 16#8, 8#8] := by
  decide +kernel

theorem bridgeOrder_two : bridgeOrder (bridgesAt [8#8, 16#8]) = [16#8, 8#8] := by
  decide +kernel

theorem busCount_forked : forkedRoot.busCount = 6 := by decide +kernel

/-- A bus where every bridge that is no child is found claims nothing. -/
theorem not_hiddenClaims_busWith {ds : List DevFn} {behind : DevFn → PciBus} {rule : BridgeRule}
    (hfound : ∀ d ∈ ds, d ∈ bridgeOrder (bridgesAt ds)) (v : BitVec 8) :
    ¬ HiddenClaims rule (bridgesAt ds) (fun d => if d ∈ ds then behind d else .absent) v := by
  rintro ⟨d, hd, hbus, -⟩
  have hnone : d ∉ ds := fun h => hd (hfound d h)
  simp [hnone, isBus] at hbus

instance (size : DevFn → Nat) (cs : List DevFn) (n : Nat) : Decidable (LinksApart size cs n) :=
  inferInstanceAs (Decidable (∀ k < cs.length, ¬ (_ ∧ _)))

theorem linksClear_busWith {ds cs : List DevFn} {behind : DevFn → PciBus} {b : Nat}
    (horder : bridgeOrder (bridgesAt ds) = cs) (hfound : ∀ d ∈ ds, d ∈ cs)
    (hlinks : LinksApart (fun c => (if c ∈ ds then behind c else .absent).size) cs (b + 1))
    (hbehind : ∀ k c, cs[k]? = some c → c ∈ ds ∧ (behind c).LinksClear
      (nthNumber (fun c => (if c ∈ ds then behind c else .absent).size) cs (b + 1) k)) :
    (busWith ds behind).LinksClear b := by
  rw [busWith, PciBus.LinksClear, horder]
  refine ⟨hlinks, fun v _ _ => not_hiddenClaims_busWith (horder ▸ hfound) _, fun k c hk => ?_⟩
  obtain ⟨hc, hclear⟩ := hbehind k c hk
  simp only [hc, if_true]
  exact hclear

theorem linksClear_leaf (b : Nat) : (chain 0).LinksClear b :=
  linksClear_busWith bridgeOrder_none (fun _ h => h) (fun k hk => absurd hk (Nat.not_lt_zero k))
    fun k c hk => by simp at hk

theorem linksClear_forked : forkedRoot.LinksClear 0 := by
  have hpair : (busWith [8#8, 16#8] fun _ => chain 0).LinksClear 1 := by
    refine linksClear_busWith bridgeOrder_two (by decide) (by decide +kernel) fun k c hk => ?_
    have hsame : ∀ d ∈ [16#8, 8#8], d ∈ [8#8, 16#8] := by decide
    exact ⟨hsame c (List.mem_of_getElem? hk), linksClear_leaf _⟩
  refine linksClear_busWith bridgeOrder_three (by decide) (by decide +kernel) fun k c hk => ?_
  have hsame : ∀ d ∈ [24#8, 16#8, 8#8], d ∈ [8#8, 16#8, 24#8] := by decide
  refine ⟨hsame c (List.mem_of_getElem? hk), ?_⟩
  cases k with
  | zero =>
    cases hk
    exact hpair
  | succ k =>
    have hother : c ≠ 24#8 := by
      rcases k with - | - | k
      · cases hk
        decide
      · cases hk
        decide
      · simp at hk
    rw [if_neg hother]
    exact linksClear_leaf _

def sevenSlots : List DevFn := [8#8, 16#8, 24#8, 32#8, 40#8, 48#8, 56#8]

/-- Bridges in slots 1 to 3 of the root bus, and seven more behind the one in
slot 3. The last of these seven gets number 8, which is the link of the bridge
in slot 2. -/
def crowdedRoot : PciBus := busWith [8#8, 16#8, 24#8] fun d =>
  if d = 24#8 then busWith sevenSlots fun _ => chain 0 else chain 0

def crowded : PciTopology where
  root := crowdedRoot
  isBus := rfl
  wellFormed := by
    have hseven : (busWith sevenSlots fun _ => chain 0).WellFormed :=
      wellFormed_busWith (fun _ _ => isBus_chain 0) fun _ _ => wellFormed_chain 0
    refine wellFormed_busWith (fun d _ => ?_) fun d _ => ?_
    · split
      · rfl
      · exact isBus_chain 0
    · split
      · exact hseven
      · exact wellFormed_chain 0

theorem bridgeOrder_seven : bridgeOrder (bridgesAt sevenSlots) = sevenSlots.reverse := by
  decide +kernel

theorem busCount_crowded : crowdedRoot.busCount = 11 := by decide +kernel

theorem crowded_not_clear : ¬ crowdedRoot.Clear claimsSecondary 0 fun _ => False := by
  intro h
  rw [crowdedRoot, busWith, PciBus.Clear, bridgeOrder_three] at h
  obtain ⟨-, hbehind, -⟩ := h
  simp only [List.mem_cons, List.not_mem_nil, or_false, or_true, if_true] at hbehind
  rw [busWith, PciBus.Clear, bridgeOrder_seven] at hbehind
  obtain ⟨-, -, -, -, -, -, -, -, -, -, -, -, hlast, -⟩ := hbehind
  simp only [sevenSlots, List.mem_cons, List.not_mem_nil, or_false, or_true, if_true, true_or,
    size_chain] at hlast
  refine hlast (Or.inl (Or.inr (Or.inr ⟨8#8, List.mem_cons_self, ?_⟩)))
  decide

end Qboot
