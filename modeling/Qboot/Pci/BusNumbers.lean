import Qboot.Pci.Enumeration

/-!
The bus numbers of a tree. A bus and the buses behind its bridges have
consecutive numbers, so that the two bus registers of a bridge describe the
part of the tree behind it.
-/

namespace Qboot

open Bytes ByteMemory PciBus

/-! ### Numbers of the bridges of a bus -/

/-- The number of the bus behind `d`, when the bridges get numbers from `n` on. -/
def firstNumber (size : DevFn → Nat) : List DevFn → Nat → DevFn → Nat
  | [], n, _ => n
  | c :: cs, n, d => if d = c then n else firstNumber size cs (n + size c) d

section First

variable {size : DevFn → Nat} {cs : List DevFn} {n m : Nat} {c d : DevFn}

theorem firstNumber_within (hd : d ∈ cs) : n ≤ firstNumber size cs n d ∧
    firstNumber size cs n d + size d ≤ n + (cs.map size).sum := by
  induction cs generalizing n with
  | nil => cases hd
  | cons c cs ih =>
    rw [firstNumber, List.map_cons, List.sum_cons]
    split
    · rename_i heq
      subst heq
      omega
    · rename_i hne
      have hrest := @ih (n + size c) ((List.mem_cons.mp hd).resolve_left hne)
      omega

/-- The numbers behind different bridges lie apart. -/
theorem firstNumber_apart (hc : c ∈ cs) (hd : d ∈ cs) (hne : c ≠ d) :
    firstNumber size cs n c + size c ≤ firstNumber size cs n d ∨
      firstNumber size cs n d + size d ≤ firstNumber size cs n c := by
  induction cs generalizing n with
  | nil => cases hc
  | cons e cs ih =>
    rw [firstNumber, firstNumber]
    by_cases hce : c = e
    · subst hce
      have hrest : d ∈ cs := (List.mem_cons.mp hd).resolve_left (Ne.symm hne)
      rw [if_pos rfl, if_neg (Ne.symm hne)]
      exact Or.inl (firstNumber_within hrest).1
    · have hrest : c ∈ cs := (List.mem_cons.mp hc).resolve_left hce
      rw [if_neg hce]
      by_cases hde : d = e
      · subst hde
        rw [if_pos rfl]
        exact Or.inr (firstNumber_within hrest).1
      · rw [if_neg hde]
        exact ih hrest ((List.mem_cons.mp hd).resolve_left hde)

theorem exists_firstNumber (hnodup : cs.Nodup) (hlo : n ≤ m) (hhi : m < n + (cs.map size).sum) :
    ∃ c ∈ cs, firstNumber size cs n c ≤ m ∧ m < firstNumber size cs n c + size c := by
  induction cs generalizing n with
  | nil => exact absurd hhi (Nat.not_lt.mpr hlo)
  | cons c cs ih =>
    obtain ⟨hc, hrest⟩ := List.nodup_cons.mp hnodup
    rw [List.map_cons, List.sum_cons] at hhi
    obtain hlt | hge := Nat.lt_or_ge m (n + size c)
    · refine ⟨c, by simp, ?_⟩
      rw [firstNumber, if_pos rfl]
      exact ⟨hlo, hlt⟩
    · obtain ⟨d, hd, hwithin⟩ := ih hrest hge (by omega)
      have hne : d ≠ c := by
        rintro rfl
        exact hc hd
      refine ⟨d, by simp [hd], ?_⟩
      rwa [firstNumber, if_neg hne]

end First

/-! ### Numbers of the buses of a tree -/

/-- The number of the bus behind `path` when the tree gets numbers from `b` on. -/
def PciBus.numberAt : PciBus → Nat → List DevFn → Nat
  | .absent, b, _ => b
  | .bus _ _, b, [] => b
  | .bus config child, b, d :: path =>
    (child d).numberAt (firstNumber (fun c => (child c).size) (bridgeOrder config) (b + 1) d) path

@[simp] theorem numberAt_nil (t : PciBus) (b : Nat) : t.numberAt b [] = b := by
  cases t <;> rfl

theorem subtree_absent (path : List DevFn) : subtree .absent path = .absent := by
  cases path <;> rfl

theorem isBus_of_subtree {t : PciBus} {path : List DevFn} (h : (t.subtree path).isBus = true) :
    t.isBus = true := by
  cases t with
  | absent =>
    rw [subtree_absent] at h
    cases h
  | bus config child => rfl

section Numbers

variable {t : PciBus} {b m : Nat} {p q : List DevFn}

/-- The numbers of a part of the tree are numbers of the tree. -/
theorem numberAt_within (hfound : t.Found) (hp : (t.subtree p).isBus = true) :
    b ≤ t.numberAt b p ∧ t.numberAt b p + (t.subtree p).size ≤ b + t.size := by
  induction t generalizing b p with
  | absent =>
    rw [subtree_absent] at hp
    cases hp
  | bus config child ih =>
    cases p with
    | nil => exact ⟨le_rfl, le_rfl⟩
    | cons d p =>
      have hd := hfound.1 d (isBus_of_subtree hp)
      have hbehind := @ih d (firstNumber (fun c => (child c).size) (bridgeOrder config) (b + 1) d) p
        (hfound.2 d) hp
      have hfirst := @firstNumber_within (fun c => (child c).size) _ (b + 1) d hd
      rw [numberAt, subtree, PciBus.size]
      omega

/-- A bus is in a part of the tree exactly when its number is. -/
theorem prefix_iff_numberAt (hfound : t.Found) (hp : (t.subtree p).isBus = true)
    (hq : (t.subtree q).isBus = true) : p <+: q ↔
      t.numberAt b p ≤ t.numberAt b q ∧ t.numberAt b q < t.numberAt b p + (t.subtree p).size := by
  induction t generalizing b p q with
  | absent =>
    rw [subtree_absent] at hp
    cases hp
  | bus config child ih =>
    have hsize := size_pos hq
    have hqwithin := @numberAt_within _ b q hfound hq
    cases p with
    | nil =>
      rw [subtree_nil, numberAt_nil]
      exact iff_of_true List.nil_prefix (by omega)
    | cons c p =>
      have hc := hfound.1 c (isBus_of_subtree hp)
      have hcfirst := @firstNumber_within (fun c => (child c).size) _ (b + 1) c hc
      have hcwithin := @numberAt_within (child c)
        (firstNumber (fun c => (child c).size) (bridgeOrder config) (b + 1) c) p (hfound.2 c) hp
      cases q with
      | nil =>
        refine iff_of_false (by simp) ?_
        rw [numberAt_nil, numberAt]
        omega
      | cons d q =>
        by_cases hcd : c = d
        · subst hcd
          rw [List.cons_prefix_cons, and_iff_right rfl]
          exact ih c (hfound.2 c) hp hq
        · have hd := hfound.1 d (isBus_of_subtree hq)
          have hapart := @firstNumber_apart (fun c => (child c).size) _ (b + 1) c d hc hd hcd
          have hdwithin := @numberAt_within (child d)
            (firstNumber (fun c => (child c).size) (bridgeOrder config) (b + 1) d) q (hfound.2 d) hq
          have hdsize : 0 < ((child d).subtree q).size := hsize
          refine iff_of_false (fun h => hcd (List.cons_prefix_cons.mp h).1) ?_
          rw [numberAt, numberAt, subtree]
          omega

/-- Every number is given out. -/
theorem exists_numberAt (hwf : t.WellFormed) (hlo : b ≤ m) (hhi : m < b + t.size) :
    ∃ p, (t.subtree p).isBus = true ∧ t.numberAt b p = m := by
  induction t generalizing b with
  | absent => exact absurd hhi (Nat.not_lt.mpr hlo)
  | bus config child ih =>
    obtain rfl | hlt := Nat.eq_or_lt_of_le hlo
    · exact ⟨[], rfl, rfl⟩
    · rw [PciBus.size] at hhi
      obtain ⟨c, hc, hfirst, hlast⟩ := @exists_firstNumber (fun c => (child c).size) _ (b + 1) m
        (nodup_bridgeOrder config) hlt (by omega)
      obtain ⟨p, hp, hnumber⟩ := ih c (hwf.2 c) hfirst hlast
      exact ⟨c :: p, hp, hnumber⟩

theorem numberAt_injective (hfound : t.Found) (hp : (t.subtree p).isBus = true)
    (hq : (t.subtree q).isBus = true) (heq : t.numberAt b p = t.numberAt b q) : p = q := by
  have hpsize := size_pos hp
  have hqsize := size_pos hq
  have hpq : p <+: q := (prefix_iff_numberAt hfound hp hq).mpr ⟨heq.le, by omega⟩
  have hqp : q <+: p := (prefix_iff_numberAt hfound hq hp).mpr ⟨heq.ge, by omega⟩
  exact hpq.eq_of_length_le hqp.length_le

end Numbers

/-! ### The bus registers of the bridges -/

section Registers

variable {below : DevFn → Nat → PciBus} {size : DevFn → Nat} {cs : List DevFn} {n : Nat}
  {config : DevFn → Config} {child : DevFn → PciBus} {d : DevFn}

theorem numberBridges_of_not_mem (hd : d ∉ cs) :
    (numberBridges below size cs n config child).1 d = config d ∧
      (numberBridges below size cs n config child).2 d = child d := by
  induction cs generalizing n config child with
  | nil => exact ⟨rfl, rfl⟩
  | cons c cs ih =>
    rw [List.mem_cons, not_or] at hd
    rw [numberBridges]
    obtain ⟨hconfig, hchild⟩ := ih hd.2
    rw [hconfig, hchild, Function.update_of_ne hd.1, Function.update_of_ne hd.1]
    exact ⟨rfl, rfl⟩

theorem numberBridges_of_mem (hnodup : cs.Nodup) (hd : d ∈ cs) :
    (numberBridges below size cs n config child).1 d =
        openBridge (firstNumber size cs n d) (firstNumber size cs n d + size d - 1) (config d) ∧
      (numberBridges below size cs n config child).2 d = below d (firstNumber size cs n d) := by
  induction cs generalizing n config child with
  | nil => cases hd
  | cons c cs ih =>
    obtain ⟨hc, hrest⟩ := List.nodup_cons.mp hnodup
    rw [numberBridges, firstNumber]
    by_cases hdc : d = c
    · subst hdc
      obtain ⟨hconfig, hchild⟩ := @numberBridges_of_not_mem below size cs (n + size d)
        (Function.update config d (openBridge n (n + size d - 1) (config d)))
        (Function.update child d (below d n)) d hc
      rw [hconfig, hchild, Function.update_self, Function.update_self, if_pos rfl]
      exact ⟨rfl, rfl⟩
    · obtain ⟨hconfig, hchild⟩ := @ih (n + size c)
        (Function.update config c (openBridge n (n + size c - 1) (config c)))
        (Function.update child c (below c n)) hrest ((List.mem_cons.mp hd).resolve_left hdc)
      rw [hconfig, hchild, Function.update_of_ne hdc, if_neg hdc]
      exact ⟨rfl, rfl⟩

/-- The scan writes the number of the bus to the bridges that it finds. -/
theorem scanned_primary {i440fx : Bool} {addend : BitVec 16} {b : BitVec 8}
    (hd : d ∈ bridgeOrder config) :
    (scanned i440fx addend b config).config d PCI_PRIMARY_BUS = b := by
  obtain ⟨hvisible, hclass⟩ := mem_bridgeOrder.mp hd
  obtain ⟨head, hconfig⟩ := @visits_of_mem i440fx addend b (scanOrder config)
    { config := config, head := 0xff#8, count := 0 } d (nodup_scanOrder config)
    (mem_scanOrder.mpr hvisible)
  rw [scanned, hconfig, setupConfig_bridge hclass]
  exact (bridgeConfig_registers _ _ _ _).1

/-- The registers of a bridge hold the number of the bus that it is on, the
number of the bus behind it and the last number behind it. -/
theorem configAt_numbered {t : PciBus} {i440fx : Bool} {b : Nat} {addend : BitVec 16}
    {path : List DevFn} (hfound : t.Found) (hd : (t.subtree (path ++ [d])).isBus = true) :
    (t.numbered i440fx b addend).configAt path d PCI_PRIMARY_BUS =
        BitVec.ofNat 8 (t.numberAt b path) ∧
      (t.numbered i440fx b addend).configAt path d PCI_SECONDARY_BUS =
        BitVec.ofNat 8 (t.numberAt b (path ++ [d])) ∧
      (t.numbered i440fx b addend).configAt path d PCI_SUBORDINATE_BUS =
        BitVec.ofNat 8 (t.numberAt b (path ++ [d]) + (t.subtree (path ++ [d])).size - 1) := by
  induction t generalizing b addend path with
  | absent =>
    rw [subtree_absent] at hd
    cases hd
  | bus config child ih =>
    have hmem : ∀ c, (child c).isBus = true → c ∈ bridgeOrder config := hfound.1
    cases path with
    | nil =>
      rw [List.nil_append, subtree, subtree_nil] at hd
      obtain ⟨hconfig, -⟩ := numberBridges_of_mem (nodup_bridgeOrder config) (hmem d hd)
      obtain ⟨hpri, hsec, hsub⟩ := openBridge_registers _ _ _
      rw [PciBus.numbered, configAt, hconfig, List.nil_append, numberAt_nil, numberAt, numberAt_nil,
        subtree, subtree_nil, hpri, hsec, hsub, scanned_primary (hmem d hd)]
      exact ⟨rfl, rfl, rfl⟩
    | cons c path =>
      have hc : c ∈ bridgeOrder config := hmem c (isBus_of_subtree hd)
      obtain ⟨-, hchild⟩ := numberBridges_of_mem (nodup_bridgeOrder config) hc
      rw [PciBus.numbered, configAt, hchild]
      exact ih c (hfound.2 c) hd

end Registers

/-! ### Depth-first numbers -/

/-- The number of the bus behind `path`: the secondary bus register of the last
bridge on the way. The root bus has number 0. -/
def busNumber (root : PciBus) (path : List DevFn) : Nat :=
  match path.getLast? with
  | none => 0
  | some d => (root.configAt path.dropLast d PCI_SECONDARY_BUS).toNat

def primaryOf (root : PciBus) (path : List DevFn) (d : DevFn) : Nat :=
  (root.configAt path d PCI_PRIMARY_BUS).toNat

def subordinateOf (root : PciBus) (path : List DevFn) (d : DevFn) : Nat :=
  (root.configAt path d PCI_SUBORDINATE_BUS).toNat

/-- The bus registers in the tree `after` number the buses of the tree `before`
depth first. -/
structure DepthFirst (before after : PciBus) : Prop where
  distinct : ∀ p q, (before.subtree p).isBus = true → (before.subtree q).isBus = true →
    busNumber after p = busNumber after q → p = q
  covers : ∀ n, (∃ p ≠ [], (before.subtree p).isBus = true ∧ busNumber after p = n) ↔
    1 ≤ n ∧ n ≤ before.busCount - 1
  primary : ∀ p d, (before.subtree (p ++ [d])).isBus = true →
    primaryOf after p d = busNumber after p ∧ primaryOf after p d < busNumber after (p ++ [d])
  largest : ∀ p d, (before.subtree (p ++ [d])).isBus = true →
    ∃ q, (before.subtree q).isBus = true ∧ p ++ [d] <+: q ∧
      busNumber after q = subordinateOf after p d
  inside : ∀ p d q, (before.subtree (p ++ [d])).isBus = true → (before.subtree q).isBus = true →
    (p ++ [d] <+: q ↔
      busNumber after (p ++ [d]) ≤ busNumber after q ∧ busNumber after q ≤ subordinateOf after p d)
  nested : ∀ p d q e, (before.subtree (p ++ [d])).isBus = true →
    (before.subtree (q ++ [e])).isBus = true → p ++ [d] <+: q ++ [e] →
    busNumber after (p ++ [d]) ≤ busNumber after (q ++ [e]) ∧
      subordinateOf after q e ≤ subordinateOf after p d
  disjoint : ∀ p d e, (before.subtree (p ++ [d])).isBus = true →
    (before.subtree (p ++ [e])).isBus = true → d ≠ e →
    subordinateOf after p d < busNumber after (p ++ [e]) ∨
      subordinateOf after p e < busNumber after (p ++ [d])

/-- The bus numbers after a run for the root bus. -/
def NumbersBuses (rule : BridgeRule) (i440fx : Bool) (root : PciBus) : Prop :=
  ∃ k s', doSetupPciBus k [] (.initial rule i440fx root) = .ok () s' ∧
    s'.maxBus.toNat = root.busCount - 1 ∧ DepthFirst root s'.root

@[simp] theorem busNumber_nil (root : PciBus) : busNumber root [] = 0 := rfl

theorem busNumber_concat (root : PciBus) (p : List DevFn) (d : DevFn) :
    busNumber root (p ++ [d]) = (root.configAt p d PCI_SECONDARY_BUS).toNat := by
  rw [busNumber, List.getLast?_concat, List.dropLast_concat]

section Final

variable {t : PciBus} {i440fx : Bool} {addend : BitVec 16} {p q : List DevFn} {d e : DevFn}

theorem busNumber_numbered (hfound : t.Found) (hsize : t.size ≤ 256)
    (hp : (t.subtree p).isBus = true) :
    busNumber (t.numbered i440fx 0 addend) p = t.numberAt 0 p := by
  have hpsize := size_pos hp
  have hwithin := @numberAt_within t 0 p hfound hp
  obtain rfl | ⟨q, d, rfl⟩ := List.eq_nil_or_concat' p
  · cases t with
    | absent => cases hp
    | bus config child => rfl
  · obtain ⟨-, hsec, -⟩ := @configAt_numbered d t i440fx 0 addend q hfound hp
    rw [busNumber_concat, hsec]
    exact toNat_number (by omega)

theorem isBus_of_concat (h : (t.subtree (p ++ [d])).isBus = true) : (t.subtree p).isBus = true := by
  induction p generalizing t with
  | nil =>
    rw [subtree_nil]
    exact isBus_of_subtree h
  | cons c p ih =>
    cases t with
    | absent => cases h
    | bus config child => exact ih h

theorem primaryOf_numbered (hfound : t.Found) (hsize : t.size ≤ 256)
    (hd : (t.subtree (p ++ [d])).isBus = true) :
    primaryOf (t.numbered i440fx 0 addend) p d = t.numberAt 0 p := by
  have hp := isBus_of_concat hd
  have hpsize := size_pos hp
  have hwithin := @numberAt_within t 0 p hfound hp
  obtain ⟨hpri, -, -⟩ := @configAt_numbered d t i440fx 0 addend p hfound hd
  rw [primaryOf, hpri]
  exact toNat_number (by omega)

theorem subordinateOf_numbered (hfound : t.Found) (hsize : t.size ≤ 256)
    (hd : (t.subtree (p ++ [d])).isBus = true) :
    subordinateOf (t.numbered i440fx 0 addend) p d =
      t.numberAt 0 (p ++ [d]) + (t.subtree (p ++ [d])).size - 1 := by
  have hpsize := size_pos hd
  have hwithin := @numberAt_within t 0 _ hfound hd
  obtain ⟨-, -, hsub⟩ := @configAt_numbered d t i440fx 0 addend p hfound hd
  rw [subordinateOf, hsub]
  exact toNat_number (by omega)

/-- The bus with the last number of a part of the tree. -/
theorem exists_last (hwf : t.WellFormed) (hfound : t.Found) (hp : (t.subtree p).isBus = true) :
    ∃ q, (t.subtree q).isBus = true ∧ p <+: q ∧
      t.numberAt 0 q = t.numberAt 0 p + (t.subtree p).size - 1 := by
  have hpsize := size_pos hp
  have hwithin := @numberAt_within t 0 p hfound hp
  obtain ⟨q, hq, hnumber⟩ := @exists_numberAt t 0 (t.numberAt 0 p + (t.subtree p).size - 1) hwf
    (Nat.zero_le _) (by omega)
  refine ⟨q, hq, (@prefix_iff_numberAt t 0 _ _ hfound hp hq).mpr ?_, hnumber⟩
  omega

theorem depthFirst_numbered (hwf : t.WellFormed) (hfound : t.Found) (hsize : t.size ≤ 256) :
    DepthFirst t (t.numbered i440fx 0 addend) := by
  have hnumber {p : List DevFn} (hp : (t.subtree p).isBus = true) :=
    @busNumber_numbered t i440fx addend p hfound hsize hp
  have hsub {p : List DevFn} {d : DevFn} (hd : (t.subtree (p ++ [d])).isBus = true) :=
    @subordinateOf_numbered t i440fx addend p d hfound hsize hd
  constructor
  · intro p q hp hq heq
    rw [hnumber hp, hnumber hq] at heq
    exact numberAt_injective hfound hp hq heq
  · intro n
    rw [← size_of_found hfound]
    constructor
    · rintro ⟨p, hne, hp, rfl⟩
      have hpsize := size_pos hp
      have hwithin := @numberAt_within t 0 p hfound hp
      have hpos : t.numberAt 0 p ≠ 0 := fun hzero => hne (numberAt_injective hfound hp
        (by rw [subtree_nil]; exact isBus_of_subtree hp) (hzero.trans (numberAt_nil t 0).symm))
      rw [hnumber hp]
      omega
    · rintro ⟨hlo, hhi⟩
      obtain ⟨p, hp, hn⟩ := @exists_numberAt t 0 n hwf (Nat.zero_le n) (by omega)
      refine ⟨p, ?_, hp, (hnumber hp).trans hn⟩
      rintro rfl
      rw [numberAt_nil] at hn
      omega
  · intro p d hd
    have hp := isBus_of_concat hd
    rw [primaryOf_numbered hfound hsize hd, hnumber hp, hnumber hd]
    have hinside := (@prefix_iff_numberAt t 0 _ _ hfound hp hd).mp (List.prefix_append p [d])
    refine ⟨rfl, lt_of_le_of_ne hinside.1 fun heq => ?_⟩
    have hsame := congrArg List.length (numberAt_injective hfound hp hd heq)
    simp at hsame
  · intro p d hd
    obtain ⟨q, hq, hbehind, hlast⟩ := exists_last hwf hfound hd
    exact ⟨q, hq, hbehind, by rw [hnumber hq, hsub hd, hlast]⟩
  · intro p d q hd hq
    have hpsize := size_pos hd
    rw [@prefix_iff_numberAt t 0 _ _ hfound hd hq, hnumber hd, hnumber hq, hsub hd]
    omega
  · intro p d q e hd he hbehind
    have hpsize := size_pos hd
    obtain ⟨r, hr, hqr, hlast⟩ := exists_last hwf hfound he
    have hfirst := (@prefix_iff_numberAt t 0 _ _ hfound hd he).mp hbehind
    have hend := (@prefix_iff_numberAt t 0 _ _ hfound hd hr).mp (hbehind.trans hqr)
    rw [hnumber hd, hnumber he, hsub hd, hsub he]
    omega
  · intro p d e hd he hne
    have hdsize := size_pos hd
    have hesize := size_pos he
    have hde : ¬ p ++ [d] <+: p ++ [e] := fun h => hne (by simpa using h.eq_of_length (by simp))
    have hed : ¬ p ++ [e] <+: p ++ [d] := fun h =>
      hne (by simpa using (h.eq_of_length (by simp)).symm)
    rw [@prefix_iff_numberAt t 0 _ _ hfound hd he] at hde
    rw [@prefix_iff_numberAt t 0 _ _ hfound he hd] at hed
    rw [hnumber hd, hnumber he, hsub hd, hsub he]
    omega

end Final

theorem run_of_found (i440fx : Bool) (T : PciTopology) (hfound : T.root.Found)
    (hcount : T.root.busCount ≤ 256) :
    ∃ s', doSetupPciBus T.root.size [] (.initial claimsWithin i440fx T.root) = .ok () s' ∧
      s'.root = T.root.numbered i440fx 0 0#16 ∧ s'.maxBus = BitVec.ofNat 8 (T.root.size - 1) ∧
      s'.addend = 0#16 ∧ s'.calls = T.root.setupCalls [] 0 0#16 := by
  have hnext := (nextNumber_iff_busCount hfound).mpr hcount
  have hclear := clear_of_found T.wellFormed hfound (fun _ h => h.elim) hnext
  exact run_of_clear claimsWithin_sound i440fx T hclear ((size_le_busCount _).trans hcount)

/-- If the scan finds all bridges and they are at most 255, they get depth-first
numbers. -/
theorem numbers_buses (i440fx : Bool) (T : PciTopology) (hfound : T.root.Found)
    (hcount : T.root.busCount ≤ 256) : NumbersBuses claimsWithin i440fx T.root := by
  have hsize := size_of_found hfound
  obtain ⟨s', hrun, hroot, hmax, -, -⟩ := run_of_found i440fx T hfound hcount
  refine ⟨_, s', hrun, ?_, ?_⟩
  · rw [hmax, ← hsize]
    exact toNat_number (by omega)
  · rw [hroot]
    exact depthFirst_numbered T.wellFormed hfound (hsize.trans_le hcount)

theorem numbers_chain : (chainTopology 2).root.busCount = 3 ∧
    NumbersBuses claimsWithin true (chainTopology 2).root :=
  ⟨busCount_chain 2, numbers_buses true (chainTopology 2) (found_chain 2)
    ((busCount_chain 2).trans_le (by decide))⟩

/-! ### A bridge that is not found -/

/-- A bridge in function 1 of a device without function 0. Behind it there is
one more bridge. -/
def hiddenRoot : PciBus := busWith [9#8] fun _ => chain 1

def hiddenTopology : PciTopology where
  root := hiddenRoot
  isBus := rfl
  wellFormed := wellFormed_busWith (fun _ _ => isBus_chain 1) fun _ _ => wellFormed_chain 1

theorem scanOrder_hidden : scanOrder (bridgesAt [9#8]) = [] := by decide +kernel

theorem bridgeOrder_hidden : bridgeOrder (bridgesAt [9#8]) = [] := by
  rw [bridgeOrder, scanOrder_hidden]
  rfl

theorem busCount_hidden : hiddenRoot.busCount = 3 := by decide +kernel

/-- The setup of this tree changes nothing. -/
theorem run_hidden (i440fx : Bool) : ∃ k s',
    doSetupPciBus k [] (.initial claimsWithin i440fx hiddenTopology.root) = .ok () s' ∧
      s'.root = hiddenRoot ∧ s'.calls = [] := by
  have hclear : hiddenRoot.Clear claimsWithin 0 fun _ => False := by
    rw [hiddenRoot, busWith, PciBus.Clear, bridgeOrder_hidden]
    trivial
  have hsize : hiddenRoot.size ≤ 256 :=
    (size_le_busCount _).trans (busCount_hidden.trans_le (by decide))
  obtain ⟨s', hrun, hroot, -, -, hcalls⟩ := run_of_clear claimsWithin_sound i440fx hiddenTopology
    hclear hsize
  refine ⟨_, s', hrun, hroot.trans ?_, hcalls.trans ?_⟩
  · have hscanned : scanned i440fx 0#16 (BitVec.ofNat 8 0) (bridgesAt [9#8]) =
        { config := bridgesAt [9#8], head := 0xff#8, count := 0 } := by
      rw [scanned, scanOrder_hidden]
      rfl
    change hiddenRoot.numbered i440fx 0 0#16 = hiddenRoot
    rw [hiddenRoot, busWith, PciBus.numbered, hscanned, bridgeOrder_hidden]
    rfl
  · change hiddenRoot.setupCalls [] 0 0#16 = []
    rw [hiddenRoot, busWith, PciBus.setupCalls, scanOrder_hidden, bridgeOrder_hidden]
    rfl

/-- The bridge that is not found keeps its number, which is that of the root bus. -/
theorem not_always_numbers_buses : ¬ ∀ (i440fx : Bool) (T : PciTopology), T.root.busCount ≤ 256 →
    NumbersBuses claimsWithin i440fx T.root := by
  intro h
  obtain ⟨k, s', hrun, -, hnumbers⟩ := h true hiddenTopology (busCount_hidden.trans_le (by decide))
  obtain ⟨k', s, hrun', hroot, -⟩ := run_hidden true
  rw [doSetupPciBus_unique hrun hrun', hroot] at hnumbers
  have hsame : busNumber hiddenRoot [9#8] = busNumber hiddenRoot [] := by decide
  have hnone := hnumbers.distinct [9#8] [] rfl rfl hsame
  cases hnone

end Qboot
