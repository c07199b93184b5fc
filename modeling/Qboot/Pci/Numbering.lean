import Qboot.Pci.Scan

/-!
The numbers that `do_setup_pci_bus` gives to buses, as a function of the tree:
a bus is followed by the buses behind its bridges, the bridge that was found
last first. The second part says when this is what the program does: when no
bridge on the way claims a cycle that is meant for another bus.
-/

namespace Qboot

open Bytes ByteMemory PciBus

/-! ### The numbering of a tree -/

/-- The bridges of a bus in the order in which they get numbers: the list is
built by insertion at its head. -/
def bridgeOrder (config : DevFn → Config) : List DevFn :=
  ((scanOrder config).filter fun d => isBridgeClass (config d)).reverse

/-- The buses that get a number, the bus itself included. -/
def PciBus.size : PciBus → Nat
  | .absent => 0
  | .bus config child => 1 + ((bridgeOrder config).map fun c => (child c).size).sum

/-- All buses. -/
def PciBus.busCount : PciBus → Nat
  | .absent => 0
  | .bus _ child => 1 + (allDevFns.map fun c => (child c).busCount).sum

/-- The scan finds every bridge. -/
def PciBus.Found : PciBus → Prop
  | .absent => True
  | .bus config child => (∀ d, (child d).isBus = true → d ∈ bridgeOrder config) ∧
      ∀ d, (child d).Found

/-- The registers of a bus after its scan. -/
def scanned (i440fx : Bool) (addend : BitVec 16) (b : BitVec 8) (config : DevFn → Config) : Scan :=
  (scanOrder config).foldl (Scan.visit i440fx addend b) { config := config, head := 0xff#8, count := 0 }

/-- A bridge whose secondary bus is `first` and whose last bus is `last`. -/
def openBridge (first last : Nat) (c : Config) : Config :=
  store (store c PCI_SECONDARY_BUS [BitVec.ofNat 8 first]) PCI_SUBORDINATE_BUS
    [BitVec.ofNat 8 last]

/-- The bridges `cs` get numbers from `n` on; `below c n` is the bus behind
the bridge `c` once it has number `n`. -/
def numberBridges (below : DevFn → Nat → PciBus) (size : DevFn → Nat) :
    List DevFn → Nat → (DevFn → Config) → (DevFn → PciBus) →
      (DevFn → Config) × (DevFn → PciBus)
  | [], _, config, child => (config, child)
  | c :: cs, n, config, child =>
    numberBridges below size cs (n + size c)
      (Function.update config c (openBridge n (n + size c - 1) (config c)))
      (Function.update child c (below c n))

/-- `addend` for the bus behind bridge `c`. -/
def addDevice (addend : BitVec 16) (c : DevFn) : BitVec 16 := addend + BitVec.ofNat 16 (deviceOf c)

/-- The tree after `do_setup_pci_bus` for a bus with number `b`. -/
def PciBus.numbered (i440fx : Bool) : PciBus → Nat → BitVec 16 → PciBus
  | .absent, _, _ => .absent
  | .bus config child, b, addend =>
    let after := numberBridges (fun c n => (child c).numbered i440fx n (addDevice addend c))
      (fun c => (child c).size) (bridgeOrder config) (b + 1)
      (scanned i440fx addend (BitVec.ofNat 8 b) config).config child
    .bus after.1 after.2

/-- The calls of `do_setup_pci` for the buses behind the bridges `cs`. -/
def bridgeCalls (below : DevFn → Nat → List PciCall) (size : DevFn → Nat) :
    List DevFn → Nat → List PciCall
  | [], _ => []
  | c :: cs, n => below c n ++ bridgeCalls below size cs (n + size c)

/-- The calls of `do_setup_pci` for a tree. -/
def PciBus.setupCalls : PciBus → List DevFn → Nat → BitVec 16 → List PciCall
  | .absent, _, _, _ => []
  | .bus config child, path, b, addend =>
    ((scanOrder config).map fun d =>
      { target := .arrives path, devfn := d, bus := BitVec.ofNat 8 b, addend := addend }) ++
    bridgeCalls (fun c n => (child c).setupCalls (path ++ [c]) n (addDevice addend c))
      (fun c => (child c).size) (bridgeOrder config) (b + 1)

/-- Bridges are exactly the functions of the bridge class. -/
def PciBus.WellFormed : PciBus → Prop
  | .absent => True
  | .bus config child => (∀ d, (child d).isBus = isBridgeClass (config d)) ∧
      ∀ d, (child d).WellFormed

/-- The buses behind a root bus. -/
structure PciTopology where
  root : PciBus
  isBus : root.isBus = true
  wellFormed : root.WellFormed

/-! ### When cycles do not stray -/

/-- The secondary bus registers of bridges that wait for their number: each
holds the device and function of the next one. -/
def links : List DevFn → List (BitVec 8)
  | [] => []
  | _ :: cs => cs.headD 0xff#8 :: links cs

/-- A bridge that the scan does not find claims bus `v`. -/
def HiddenClaims (rule : BridgeRule) (config : DevFn → Config) (child : DevFn → PciBus)
    (v : BitVec 8) : Prop := ∃ d ∉ bridgeOrder config, Claims rule config child v d

/-- Numbers that another bridge claims while the bus behind a bridge is set
up: one of `waiting`, a hidden one, or one further up. -/
def Blocked (rule : BridgeRule) (hidden blocked : BitVec 8 → Prop) (waiting : List DevFn)
    (v : BitVec 8) : Prop :=
  blocked v ∨ hidden v ∨ ∃ l ∈ links waiting, rule l 0#8 v = true

/-- None of the numbers given out behind the bridges `cs`, from `n` on, is
claimed by another bridge at that time. -/
def ClearFrom (rule : BridgeRule) (below : DevFn → Nat → (BitVec 8 → Prop) → Prop)
    (size : DevFn → Nat) (hidden blocked : BitVec 8 → Prop) : List DevFn → Nat → Prop
  | [], _ => True
  | c :: cs, n => ¬ Blocked rule hidden blocked cs (BitVec.ofNat 8 n) ∧
      below c n (Blocked rule hidden blocked cs) ∧
      ClearFrom rule below size hidden blocked cs (n + size c)

/-- No number given out in the tree is claimed by another bridge while it is in
use. The bus itself has number `b`. -/
def PciBus.Clear (rule : BridgeRule) : PciBus → Nat → (BitVec 8 → Prop) → Prop
  | .absent, _, _ => True
  | .bus config child, b, blocked =>
    ClearFrom rule (fun c n blocked => (child c).Clear rule n blocked) (fun c => (child c).size)
      (HiddenClaims rule config child) blocked (bridgeOrder config) (b + 1)

open Classical in
/-- The first number that is left when the bridge `c` has got `n` and the buses
behind it have got theirs. Nothing is found behind a bridge whose number
another bridge claims. -/
noncomputable def nextBehind (rule : BridgeRule) (below : DevFn → Nat → (BitVec 8 → Prop) → Nat)
    (hidden blocked : BitVec 8 → Prop) (c : DevFn) (cs : List DevFn) (n : Nat) : Nat :=
  if Blocked rule hidden blocked cs (BitVec.ofNat 8 n) then n + 1
  else below c n (Blocked rule hidden blocked cs)

/-- The first number that is left when the bridges `cs` have got theirs, from
`n` on. -/
noncomputable def nextFrom (rule : BridgeRule) (below : DevFn → Nat → (BitVec 8 → Prop) → Nat)
    (hidden blocked : BitVec 8 → Prop) : List DevFn → Nat → Nat
  | [], n => n
  | c :: cs, n => nextFrom rule below hidden blocked cs
      (nextBehind rule below hidden blocked c cs n)

/-- The first number that is left when a tree has got its numbers. The bus
itself has number `b`. -/
noncomputable def PciBus.nextNumber (rule : BridgeRule) : PciBus → Nat → (BitVec 8 → Prop) → Nat
  | .absent, b, _ => b
  | .bus config child, b, blocked =>
    nextFrom rule (fun c n blocked => (child c).nextNumber rule n blocked)
      (HiddenClaims rule config child) blocked (bridgeOrder config) (b + 1)

/-- What any rule for bridges says about an open window and about a window
behind which all numbers are given out. -/
structure BridgeRule.Sound (rule : BridgeRule) : Prop where
  opens : ∀ n v : BitVec 8, n ≤ v → rule n 255#8 v = true
  closes : ∀ first last v : BitVec 8, first ≤ last → last < v → rule first last v = false

/-! ### How many numbers there are -/

section Count

variable {rule : BridgeRule} {hidden blocked : BitVec 8 → Prop}

theorem nextBehind_cases (below : DevFn → Nat → (BitVec 8 → Prop) → Nat) (c : DevFn)
    (cs : List DevFn) (n : Nat) :
    Blocked rule hidden blocked cs (BitVec.ofNat 8 n) ∧
        nextBehind rule below hidden blocked c cs n = n + 1 ∨
      ¬ Blocked rule hidden blocked cs (BitVec.ofNat 8 n) ∧
        nextBehind rule below hidden blocked c cs n = below c n (Blocked rule hidden blocked cs) := by
  by_cases h : Blocked rule hidden blocked cs (BitVec.ofNat 8 n)
  · exact Or.inl ⟨h, if_pos h⟩
  · exact Or.inr ⟨h, if_neg h⟩

theorem le_nextFrom {below : DevFn → Nat → (BitVec 8 → Prop) → Nat} {cs : List DevFn}
    (h : ∀ c ∈ cs, ∀ n blocked, n + 1 ≤ below c n blocked) (n : Nat) :
    n + cs.length ≤ nextFrom rule below hidden blocked cs n := by
  induction cs generalizing n with
  | nil => exact le_rfl
  | cons c cs ih =>
    have hrest := ih (fun d hd => h d (by simp [hd])) (nextBehind rule below hidden blocked c cs n)
    have hfirst := h c (by simp) n (Blocked rule hidden blocked cs)
    rw [nextFrom, List.length_cons]
    obtain ⟨-, heq⟩ | ⟨-, heq⟩ := @nextBehind_cases rule hidden blocked below c cs n
    · omega
    · omega

theorem nextFrom_le {below : DevFn → Nat → (BitVec 8 → Prop) → Nat} {size : DevFn → Nat}
    {cs : List DevFn} (hpos : ∀ c ∈ cs, 1 ≤ size c)
    (h : ∀ c ∈ cs, ∀ n blocked, below c n blocked ≤ n + size c) (n : Nat) :
    nextFrom rule below hidden blocked cs n ≤ n + (cs.map size).sum := by
  induction cs generalizing n with
  | nil => exact le_rfl
  | cons c cs ih =>
    have hrest := ih (fun d hd => hpos d (by simp [hd])) (fun d hd => h d (by simp [hd]))
      (nextBehind rule below hidden blocked c cs n)
    have hsize := hpos c (by simp)
    have hfirst := h c (by simp) n (Blocked rule hidden blocked cs)
    rw [nextFrom, List.map_cons, List.sum_cons]
    obtain ⟨-, heq⟩ | ⟨-, heq⟩ := @nextBehind_cases rule hidden blocked below c cs n
    · omega
    · omega

/-- If no number is claimed twice, every bus gets one. -/
theorem nextFrom_of_clear {below : DevFn → Nat → (BitVec 8 → Prop) → Nat}
    {clear : DevFn → Nat → (BitVec 8 → Prop) → Prop} {size : DevFn → Nat} {cs : List DevFn}
    (h : ∀ c ∈ cs, ∀ n blocked, clear c n blocked → below c n blocked = n + size c) {n : Nat}
    (hclear : ClearFrom rule clear size hidden blocked cs n) :
    nextFrom rule below hidden blocked cs n = n + (cs.map size).sum := by
  induction cs generalizing n with
  | nil => rfl
  | cons c cs ih =>
    obtain ⟨hfree, hbelow, hrest⟩ := hclear
    have hnext : nextBehind rule below hidden blocked c cs n = n + size c :=
      (if_neg hfree).trans (h c (by simp) n _ hbelow)
    rw [nextFrom, hnext, ih (fun d hd => h d (by simp [hd])) hrest, List.map_cons, List.sum_cons,
      Nat.add_assoc]

end Count

section Size

variable {rule : BridgeRule} {t : PciBus}

theorem size_pos (h : t.isBus = true) : 0 < t.size := by
  cases t with
  | absent => cases h
  | bus config child =>
    rw [PciBus.size]
    omega

theorem mem_bridgeOrder {config : DevFn → Config} {c : DevFn} :
    c ∈ bridgeOrder config ↔ Visible config c ∧ isBridgeClass (config c) = true := by
  rw [bridgeOrder, List.mem_reverse, List.mem_filter, mem_scanOrder]

/-- The bridges that get numbers have buses behind them. -/
theorem isBus_of_mem {config : DevFn → Config} {child : DevFn → PciBus}
    (hwf : (PciBus.bus config child).WellFormed) {c : DevFn} (hc : c ∈ bridgeOrder config) :
    (child c).isBus = true :=
  (hwf.1 c).trans (mem_bridgeOrder.mp hc).2

theorem lt_nextNumber (hwf : t.WellFormed) (hbus : t.isBus = true) (b : Nat)
    (blocked : BitVec 8 → Prop) : b + 1 ≤ t.nextNumber rule b blocked := by
  induction t generalizing b blocked with
  | absent => cases hbus
  | bus config child ih =>
    refine le_trans (Nat.le_add_right _ _) (le_nextFrom ?_ (b + 1))
    intro c hc n blocked
    exact ih c (hwf.2 c) (isBus_of_mem hwf hc) n blocked

theorem nextNumber_le (hwf : t.WellFormed) (b : Nat) (blocked : BitVec 8 → Prop) :
    t.nextNumber rule b blocked ≤ b + t.size := by
  induction t generalizing b blocked with
  | absent => exact le_rfl
  | bus config child ih =>
    rw [PciBus.size, ← Nat.add_assoc]
    refine nextFrom_le ?_ (fun c _ n blocked => ih c (hwf.2 c) n blocked) (b + 1)
    intro c hc
    exact size_pos (isBus_of_mem hwf hc)

theorem nextNumber_of_clear {b : Nat} {blocked : BitVec 8 → Prop} (h : t.Clear rule b blocked) :
    t.nextNumber rule b blocked = b + t.size := by
  induction t generalizing b blocked with
  | absent => rfl
  | bus config child ih =>
    rw [PciBus.size, ← Nat.add_assoc]
    exact nextFrom_of_clear (fun c _ n blocked => ih c) h

theorem nodup_bridgeOrder (config : DevFn → Config) : (bridgeOrder config).Nodup :=
  List.nodup_reverse.mpr ((nodup_scanOrder config).filter _)

/-- The bridges of a bus are some of its functions. -/
theorem perm_bridgeOrder (config : DevFn → Config) :
    (allDevFns.filter (· ∈ bridgeOrder config)).Perm (bridgeOrder config) := by
  refine (List.perm_ext_iff_of_nodup (nodup_allDevFns.filter _) (nodup_bridgeOrder config)).mpr ?_
  intro d
  rw [List.mem_filter, decide_eq_true_iff]
  exact and_iff_right (mem_allDevFns d)

theorem sum_bridgeOrder (config : DevFn → Config) (f : DevFn → Nat) :
    ((bridgeOrder config).map f).sum =
      ((allDevFns.filter (· ∈ bridgeOrder config)).map f).sum :=
  ((perm_bridgeOrder config).map f).sum_eq.symm

theorem size_le_busCount (t : PciBus) : t.size ≤ t.busCount := by
  induction t with
  | absent => exact le_rfl
  | bus config child ih =>
    rw [PciBus.size, PciBus.busCount]
    refine Nat.add_le_add_left (le_trans (List.sum_le_sum fun c _ => ih c) ?_) 1
    rw [sum_bridgeOrder]
    exact (List.filter_sublist.map _).sum_le_sum fun _ _ => Nat.zero_le _

theorem busCount_of_not_isBus (h : t.isBus = false) : t.busCount = 0 := by
  cases t with
  | absent => rfl
  | bus config child => cases h

theorem size_of_found (hfound : t.Found) : t.size = t.busCount := by
  induction t with
  | absent => rfl
  | bus config child ih =>
    have hother : ∀ ds : List DevFn,
        ((ds.filter (· ∈ bridgeOrder config)).map fun c => (child c).busCount).sum =
          (ds.map fun c => (child c).busCount).sum := by
      intro ds
      induction ds with
      | nil => rfl
      | cons d ds ihd =>
        by_cases hd : d ∈ bridgeOrder config
        · simp [hd, ihd]
        · have hnone : (child d).isBus = false :=
            Bool.eq_false_iff.mpr fun hbus => hd (hfound.1 d hbus)
          simp [hd, ihd, busCount_of_not_isBus hnone]
    have hsize : (fun c => (child c).size) = fun c => (child c).busCount :=
      funext fun c => ih c (hfound.2 c)
    rw [PciBus.size, PciBus.busCount, hsize, sum_bridgeOrder, hother]

end Size

end Qboot
