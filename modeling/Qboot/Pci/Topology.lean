import Qboot.Lib.ByteMemory

/-!
A tree of PCI buses and the way a configuration cycle takes through it. Every
function has 256 bytes of configuration registers; a function that is a bridge
has a bus behind it. A cycle for a bus other than the root bus passes the
bridges that claim its bus number; two claims on one bus are a contention.
-/

namespace Qboot

open Bytes ByteMemory

/-- Device and function number: five and three bits. -/
abbrev DevFn := BitVec 8

/-- The configuration registers of a function. -/
abbrev Config := Memory 8

/-- A bus with its functions, and for each of them the bus behind it. A
function that is not there reads as ones. -/
inductive PciBus where
  | absent
  | bus (config : DevFn → Config) (child : DevFn → PciBus)

def PCI_VENDOR_ID : BitVec 8 := 0x00#8
def PCI_CLASS_DEVICE : BitVec 8 := 0x0a#8
def PCI_HEADER_TYPE : BitVec 8 := 0x0e#8
def PCI_PRIMARY_BUS : BitVec 8 := 0x18#8
def PCI_SECONDARY_BUS : BitVec 8 := 0x19#8
def PCI_SUBORDINATE_BUS : BitVec 8 := 0x1a#8
def PCI_INTERRUPT_LINE : BitVec 8 := 0x3c#8
def PCI_INTERRUPT_PIN : BitVec 8 := 0x3d#8
def PCI_BRIDGE_CONTROL : BitVec 8 := 0x3e#8

/-- When a bridge with these secondary and subordinate registers claims a
cycle for a bus. -/
abbrev BridgeRule := (secondary subordinate bus : BitVec 8) → Bool

/-- Where a cycle ends: on the bus behind the bridges `path`, or on the way. -/
inductive Route where
  | arrives (path : List DevFn)
  | unclaimed
  | contention
deriving DecidableEq

/-- A route that first passes the bridges `path`. -/
def Route.under (path : List DevFn) : Route → Route
  | .arrives rest => .arrives (path ++ rest)
  | .unclaimed => .unclaimed
  | .contention => .contention

def allDevFns : List DevFn := (List.range 256).map (BitVec.ofNat 8)

namespace PciBus

def isBus : PciBus → Bool
  | absent => false
  | bus _ _ => true

/-- The bridges of a bus that claim a cycle for bus `b`. -/
def claimers (rule : BridgeRule) (config : DevFn → Config) (child : DevFn → PciBus)
    (b : BitVec 8) : List DevFn :=
  allDevFns.filter fun df =>
    (child df).isBus && rule (config df PCI_SECONDARY_BUS) (config df PCI_SUBORDINATE_BUS) b

/-- A cycle for bus `b` on a bus with another number. A bridge delivers it if
`b` is its secondary bus and passes it on otherwise. -/
def forward (rule : BridgeRule) : PciBus → BitVec 8 → Route
  | absent, _ => .unclaimed
  | bus config child, b =>
    match claimers rule config child b with
    | [] => .unclaimed
    | [df] =>
      if config df PCI_SECONDARY_BUS = b then .arrives [df]
      else (forward rule (child df) b).under [df]
    | _ => .contention

/-- A cycle for bus `b` from the processor; the root bus is bus 0. -/
def route (rule : BridgeRule) (root : PciBus) (b : BitVec 8) : Route :=
  if b = 0#8 then .arrives [] else root.forward rule b

/-- The registers of function `df` on the bus behind the bridges `path`. -/
def configAt : PciBus → List DevFn → DevFn → Config
  | absent, _, _ => fun _ => 0xff#8
  | bus config _, [], df => config df
  | bus _ child, d :: path, df => (child d).configAt path df

/-- The tree with another bus behind the bridges `path`. -/
def replace : PciBus → List DevFn → PciBus → PciBus
  | _, [], t => t
  | absent, _ :: _, _ => absent
  | bus config child, d :: path, t =>
    bus config (Function.update child d ((child d).replace path t))

/-- The tree with other registers in function `df` behind the bridges `path`. -/
def setConfig : PciBus → List DevFn → DevFn → Config → PciBus
  | absent, _, _, _ => absent
  | bus config child, [], df, c => bus (Function.update config df c) child
  | bus config child, d :: path, df, c =>
    bus config (Function.update child d ((child d).setConfig path df c))

/-- The bus behind the bridges `path`. -/
def subtree : PciBus → List DevFn → PciBus
  | t, [] => t
  | absent, _ :: _ => absent
  | bus _ child, d :: path => (child d).subtree path

/-! ### Buses behind a path -/

section Path

variable {root t u : PciBus} {path : List DevFn} {d : DevFn}

@[simp] theorem replace_nil : root.replace [] t = t := by
  cases root <;> rfl

@[simp] theorem subtree_nil : root.subtree [] = root := by
  cases root <;> rfl

/-- Replacing a bus one bridge further down. -/
theorem replace_concat {config : DevFn → Config} {child : DevFn → PciBus} :
    (root.replace path (bus config child)).replace (path ++ [d]) u =
      root.replace path (bus config (Function.update child d u)) := by
  induction path generalizing root with
  | nil => simp [replace]
  | cons e path ih =>
    cases root with
    | absent => rfl
    | bus config' child' => simp [replace, ih]

theorem subtree_concat {config : DevFn → Config} {child : DevFn → PciBus}
    (h : root.subtree path = bus config child) : root.subtree (path ++ [d]) = child d := by
  induction path generalizing root with
  | nil =>
    rw [subtree_nil] at h
    simp [h, subtree]
  | cons e path ih =>
    cases root with
    | absent => cases h
    | bus config' child' => exact ih h

theorem subtree_replace (h : (root.subtree path).isBus = true) :
    (root.replace path t).subtree path = t := by
  induction path generalizing root with
  | nil => simp
  | cons e path ih =>
    cases root with
    | absent => cases h
    | bus config child => simpa [replace, subtree] using ih h

variable {config : DevFn → Config} {child : DevFn → PciBus}

theorem configAt_replace (h : (root.subtree path).isBus = true) :
    (root.replace path (bus config child)).configAt path d = config d := by
  induction path generalizing root with
  | nil => simp [configAt]
  | cons e path ih =>
    cases root with
    | absent => cases h
    | bus config' child' => simpa [replace, configAt] using ih h

theorem setConfig_replace (h : (root.subtree path).isBus = true) (c : Config) :
    (root.replace path (bus config child)).setConfig path d c =
      root.replace path (bus (Function.update config d c) child) := by
  induction path generalizing root with
  | nil => simp [setConfig]
  | cons e path ih =>
    cases root with
    | absent => cases h
    | bus config' child' =>
      simp only [replace, setConfig, Function.update_self, Function.update_idem]
      rw [ih h]

end Path

/-! ### Claims -/

theorem mem_allDevFns (d : DevFn) : d ∈ allDevFns := by
  refine List.mem_map.mpr ⟨d.toNat, List.mem_range.mpr d.isLt, ?_⟩
  rw [BitVec.ofNat_toNat, BitVec.setWidth_eq]

theorem nodup_allDevFns : allDevFns.Nodup := by
  refine List.Nodup.map_on ?_ List.nodup_range
  intro x hx y hy hxy
  have h := congrArg BitVec.toNat hxy
  rwa [BitVec.toNat_ofNat, BitVec.toNat_ofNat, Nat.mod_eq_of_lt (List.mem_range.mp hx),
    Nat.mod_eq_of_lt (List.mem_range.mp hy)] at h

section Claims

variable {rule : BridgeRule} {config : DevFn → Config} {child : DevFn → PciBus} {b : BitVec 8}
  {c d : DevFn}

/-- The bridge `d` claims a cycle for bus `b`. -/
def Claims (rule : BridgeRule) (config : DevFn → Config) (child : DevFn → PciBus) (b : BitVec 8)
    (d : DevFn) : Prop :=
  (child d).isBus = true ∧
    rule (config d PCI_SECONDARY_BUS) (config d PCI_SUBORDINATE_BUS) b = true

theorem mem_claimers : d ∈ claimers rule config child b ↔ Claims rule config child b d := by
  simp [claimers, Claims, mem_allDevFns]

/-- One bridge claims the cycle. -/
theorem claimers_of_unique (hc : Claims rule config child b c)
    (hother : ∀ d ≠ c, ¬ Claims rule config child b d) :
    claimers rule config child b = [c] := by
  have hperm : (claimers rule config child b).Perm [c] := by
    have hnodup : (claimers rule config child b).Nodup := nodup_allDevFns.filter _
    refine (List.perm_ext_iff_of_nodup hnodup (List.nodup_singleton c)).mpr fun d => ?_
    rw [mem_claimers, List.mem_singleton]
    constructor
    · intro hd
      by_contra hne
      exact hother d hne hd
    · rintro rfl
      exact hc
  exact List.perm_singleton.mp hperm

theorem forward_of_unique (hc : Claims rule config child b c)
    (hother : ∀ d ≠ c, ¬ Claims rule config child b d) :
    (bus config child).forward rule b =
      if config c PCI_SECONDARY_BUS = b then .arrives [c]
      else ((child c).forward rule b).under [c] := by
  rw [forward, claimers_of_unique hc hother]

/-- Two bridges claim the cycle. -/
theorem forward_of_two (hc : Claims rule config child b c) (hd : Claims rule config child b d)
    (hne : d ≠ c) : (bus config child).forward rule b = .contention := by
  rw [forward]
  split
  · rename_i hnil
    have h := mem_claimers.mpr hc
    rw [hnil] at h
    cases h
  · rename_i e hone
    have h1 := mem_claimers.mpr hc
    have h2 := mem_claimers.mpr hd
    rw [hone, List.mem_singleton] at h1 h2
    exact absurd (h2.trans h1.symm) hne
  · rfl

end Claims

/-! ### Buses that cycles reach -/

@[simp] theorem Route_under_nil (r : Route) : r.under [] = r := by
  cases r <;> rfl

theorem Route_under_under (r : Route) (p q : List DevFn) :
    (r.under p).under q = r.under (q ++ p) := by
  cases r <;> simp [Route.under]

/-- Cycles for bus `b` reach the bus behind `path`, whatever is there, and
cycles for later buses go on from there, unless the number is blocked: another
bridge on the way claims it as well. -/
structure Leads (rule : BridgeRule) (root : PciBus) (path : List DevFn) (b : BitVec 8)
    (blocked : BitVec 8 → Prop) : Prop where
  isBus : (root.subtree path).isBus = true
  here : ∀ t, t.isBus = true → route rule (root.replace path t) b = .arrives path
  below : ∀ t b', t.isBus = true → b < b' → ¬ blocked b' →
    route rule (root.replace path t) b' = (t.forward rule b').under path
  lost : ∀ t b', t.isBus = true → b < b' → blocked b' →
    ∀ q, route rule (root.replace path t) b' ≠ .arrives q

theorem Leads.congr {rule : BridgeRule} {root : PciBus} {path : List DevFn} {b : BitVec 8}
    {blocked blocked' : BitVec 8 → Prop} (h : Leads rule root path b blocked)
    (hiff : ∀ v, b < v → (blocked v ↔ blocked' v)) : Leads rule root path b blocked' where
  isBus := h.isBus
  here := h.here
  below t v ht hv hfree := h.below t v ht hv fun hb => hfree ((hiff v hv).mp hb)
  lost t v ht hv hlost := h.lost t v ht hv ((hiff v hv).mpr hlost)

theorem leads_root (rule : BridgeRule) {root : PciBus} (h : root.isBus = true) :
    Leads rule root [] 0#8 fun _ => False where
  isBus := by rwa [subtree_nil]
  here := by simp [route]
  below := by
    intro t b' _ hb' _
    have hne : b' ≠ 0#8 := by
      rintro rfl
      exact absurd hb' (by simp)
    simp [route, hne]
  lost := by simp

section Child

variable {rule : BridgeRule} {root u : PciBus} {path : List DevFn} {b n : BitVec 8}
  {blocked : BitVec 8 → Prop} {config : DevFn → Config} {child : DevFn → PciBus} {c d : DevFn}

/-- Who claims a cycle does not depend on what is behind a bridge. -/
theorem claims_update (hc : (child c).isBus = true) (hu : u.isBus = true) {v : BitVec 8} :
    Claims rule config (Function.update child c u) v d ↔ Claims rule config child v d := by
  unfold Claims
  by_cases hd : d = c
  · subst hd
    rw [Function.update_self, hu, hc]
  · rw [Function.update_of_ne hd]

/-- The bus behind a bridge with an open window is reached if no other bridge
of its bus claims its number. -/
theorem leads_child (h : Leads rule root path b blocked) (hb : b < n) (hn : ¬ blocked n)
    (hc : (child c).isBus = true) (hsec : config c PCI_SECONDARY_BUS = n)
    (hopen : ∀ v, n ≤ v → rule n (config c PCI_SUBORDINATE_BUS) v = true)
    (hquiet : ∀ d ≠ c, ¬ Claims rule config child n d) :
    Leads rule (root.replace path (bus config child)) (path ++ [c]) n
      fun v => blocked v ∨ ∃ d ≠ c, Claims rule config child v d := by
  have hclaims {v : BitVec 8} (u : PciBus) (hu : u.isBus = true) (hv : n ≤ v) :
      Claims rule config (Function.update child c u) v c := by
    rw [claims_update hc hu]
    exact ⟨hc, by rw [hsec]; exact hopen v hv⟩
  constructor
  · rw [subtree_concat (subtree_replace h.isBus)]
    exact hc
  · intro u hu
    have hother : ∀ d ≠ c, ¬ Claims rule config (Function.update child c u) n d :=
      fun d hd hclaim => hquiet d hd ((claims_update hc hu).mp hclaim)
    rw [replace_concat, h.below _ _ rfl hb hn, forward_of_unique (hclaims u hu (BitVec.le_refl n)) hother,
      if_pos hsec]
    rfl
  · intro u v hu hv hfree
    rw [not_or] at hfree
    have hother : ∀ d ≠ c, ¬ Claims rule config (Function.update child c u) v d :=
      fun d hd hclaim => hfree.2 ⟨d, hd, (claims_update hc hu).mp hclaim⟩
    have hne : config c PCI_SECONDARY_BUS ≠ v := by
      rw [hsec]
      exact BitVec.ne_of_lt hv
    rw [replace_concat, h.below _ _ rfl (BitVec.lt_trans hb hv) hfree.1,
      forward_of_unique (hclaims u hu (BitVec.le_of_lt hv)) hother, if_neg hne, Function.update_self,
      Route_under_under]
  · intro u v hu hv hblocked q
    rw [replace_concat]
    by_cases hlost : blocked v
    · exact h.lost _ _ rfl (BitVec.lt_trans hb hv) hlost q
    · obtain ⟨d, hd, hclaim⟩ := hblocked.resolve_left hlost
      rw [h.below _ _ rfl (BitVec.lt_trans hb hv) hlost,
        forward_of_two (hclaims u hu (BitVec.le_of_lt hv)) ((claims_update hc hu).mpr hclaim) hd]
      simp [Route.under]

/-- A number that is blocked, or that another bridge of the bus claims as
well, does not lead to the bus it was given to. -/
theorem route_lost (h : Leads rule root path b blocked) (hb : b < n)
    (hc : Claims rule config child n c)
    (hlost : blocked n ∨ ∃ d ≠ c, Claims rule config child n d) (q : List DevFn) :
    route rule (root.replace path (bus config child)) n ≠ .arrives q := by
  by_cases hn : blocked n
  · exact h.lost _ _ rfl hb hn q
  · obtain ⟨d, hd, hclaim⟩ := hlost.resolve_left hn
    rw [h.below _ _ rfl hb hn, forward_of_two hc hclaim hd]
    simp [Route.under]

end Child

end PciBus

end Qboot
