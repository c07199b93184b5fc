import Qboot.Pci.BusNumbers

/-!
The calls of `do_setup_pci`: one for each function that `pci_foreach` can see,
on every bus of the tree, while the static variables belong to that bus.
-/

namespace Qboot

open Bytes ByteMemory PciBus

/-- The call for function `d` of the bus behind `path`. -/
def visitCall (path : List DevFn) (n : Nat) (addend : BitVec 16) (d : DevFn) : PciCall where
  target := .arrives path
  devfn := d
  bus := BitVec.ofNat 8 n
  addend := addend

/-- The function that a call sets up. -/
def callKey (c : PciCall) : Route × DevFn := (c.target, c.devfn)

section Calls

variable {below : DevFn → Nat → List PciCall} {size : DevFn → Nat} {cs : List DevFn} {n : Nat}
  {x : PciCall}

theorem mem_bridgeCalls (hnodup : cs.Nodup) : x ∈ bridgeCalls below size cs n ↔
    ∃ c ∈ cs, x ∈ below c (firstNumber size cs n c) := by
  induction cs generalizing n with
  | nil => simp [bridgeCalls]
  | cons c cs ih =>
    obtain ⟨hc, hrest⟩ := List.nodup_cons.mp hnodup
    have hlater {d : DevFn} (hd : d ∈ cs) :
        firstNumber size (c :: cs) n d = firstNumber size cs (n + size c) d := by
      refine if_neg ?_
      rintro rfl
      exact hc hd
    rw [bridgeCalls, List.mem_append, ih hrest]
    constructor
    · rintro (hx | ⟨d, hd, hx⟩)
      · exact ⟨c, by simp, by rwa [firstNumber, if_pos rfl]⟩
      · exact ⟨d, by simp [hd], by rwa [hlater hd]⟩
    · rintro ⟨d, hd, hx⟩
      obtain rfl | hd := List.mem_cons.mp hd
      · rw [firstNumber, if_pos rfl] at hx
        exact Or.inl hx
      · rw [hlater hd] at hx
        exact Or.inr ⟨d, hd, hx⟩

variable {t : PciBus} {path : List DevFn} {b : Nat} {addend : BitVec 16}

/-- The calls are those for the visible functions of all buses. -/
theorem mem_setupCalls (hfound : t.Found) : x ∈ t.setupCalls path b addend ↔
    ∃ rest d, (t.subtree rest).isBus = true ∧ Visible (t.configAt rest) d ∧
      x = visitCall (path ++ rest) (t.numberAt b rest) (rest.foldl addDevice addend) d := by
  induction t generalizing path b addend with
  | absent =>
    refine iff_of_false List.not_mem_nil ?_
    rintro ⟨rest, d, hbus, -⟩
    rw [subtree_absent] at hbus
    cases hbus
  | bus config child ih =>
    rw [PciBus.setupCalls, List.mem_append, List.mem_map, mem_bridgeCalls (nodup_bridgeOrder config)]
    constructor
    · rintro (⟨d, hd, rfl⟩ | ⟨c, hc, hx⟩)
      · refine ⟨[], d, rfl, mem_scanOrder.mp hd, ?_⟩
        rw [List.append_nil]
        rfl
      · obtain ⟨rest, d, hbus, hvisible, rfl⟩ := (ih c (hfound.2 c)).mp hx
        refine ⟨c :: rest, d, hbus, hvisible, ?_⟩
        rw [List.append_assoc]
        rfl
    · rintro ⟨rest, d, hbus, hvisible, rfl⟩
      cases rest with
      | nil =>
        refine Or.inl ⟨d, mem_scanOrder.mpr hvisible, ?_⟩
        rw [List.append_nil]
        rfl
      | cons c rest =>
        refine Or.inr ⟨c, hfound.1 c (isBus_of_subtree hbus), ?_⟩
        refine (ih c (hfound.2 c)).mpr ⟨rest, d, hbus, hvisible, ?_⟩
        rw [List.append_assoc]
        rfl

theorem nodup_bridgeCalls (hnodup : cs.Nodup)
    (hinside : ∀ c ∈ cs, ∀ n, ∀ x ∈ below c n, ∃ q, path ++ [c] <+: q ∧ x.target = .arrives q)
    (hbelow : ∀ c ∈ cs, ∀ n, ((below c n).map callKey).Nodup) :
    ((bridgeCalls below size cs n).map callKey).Nodup := by
  induction cs generalizing n with
  | nil => exact List.nodup_nil
  | cons c cs ih =>
    have hrest := (List.nodup_cons.mp hnodup).2
    rw [bridgeCalls, List.map_append]
    refine List.nodup_append'.mpr ⟨hbelow c (by simp) n, ih hrest
      (fun d hd => hinside d (by simp [hd])) (fun d hd => hbelow d (by simp [hd])), ?_⟩
    intro key hkey hkey'
    obtain ⟨x, hx, rfl⟩ := List.mem_map.mp hkey
    obtain ⟨y, hy, heq⟩ := List.mem_map.mp hkey'
    obtain ⟨d, hd, hy⟩ := (mem_bridgeCalls hrest).mp hy
    obtain ⟨q, hq, hxq⟩ := hinside c (by simp) n x hx
    obtain ⟨r, hr, hyr⟩ := hinside d (by simp [hd]) _ y hy
    have htarget : Route.arrives r = Route.arrives q :=
      hyr.symm.trans ((congrArg Prod.fst heq).trans hxq)
    cases htarget
    exact prefix_concat_apart hnodup q hq ⟨d, hd, hr⟩

/-- No function is set up twice. -/
theorem nodup_setupCalls (hfound : t.Found) :
    ((t.setupCalls path b addend).map callKey).Nodup := by
  induction t generalizing path b addend with
  | absent => exact List.nodup_nil
  | bus config child ih =>
    have hinside : ∀ c n, ∀ x ∈ (child c).setupCalls (path ++ [c]) n (addDevice addend c),
        ∃ q, path ++ [c] <+: q ∧ x.target = .arrives q := by
      intro c n x hx
      obtain ⟨rest, d, -, -, rfl⟩ := (mem_setupCalls (hfound.2 c)).mp hx
      exact ⟨_, List.prefix_append _ rest, rfl⟩
    rw [PciBus.setupCalls, List.map_append]
    refine List.nodup_append'.mpr ⟨?_, nodup_bridgeCalls (nodup_bridgeOrder config)
      (fun c _ => hinside c) fun c _ n => ih c (hfound.2 c), ?_⟩
    · rw [List.map_map]
      refine List.Nodup.map_on ?_ (nodup_scanOrder config)
      intro d _ e _ heq
      exact congrArg Prod.snd heq
    · intro key hkey hkey'
      rw [List.map_map] at hkey
      obtain ⟨d, -, rfl⟩ := List.mem_map.mp hkey
      obtain ⟨y, hy, heq⟩ := List.mem_map.mp hkey'
      obtain ⟨c, hc, hy⟩ := (mem_bridgeCalls (nodup_bridgeOrder config)).mp hy
      obtain ⟨q, hq, hyq⟩ := hinside c _ y hy
      have htarget : Route.arrives q = Route.arrives path :=
        hyq.symm.trans (congrArg Prod.fst heq)
      cases htarget
      exact scan_apart path path rfl ⟨c, hc, hq⟩

end Calls

/-! ### Every function once -/

theorem foldl_addDevice (path : List DevFn) (addend : BitVec 16) :
    path.foldl addDevice addend = addend + BitVec.ofNat 16 (path.map deviceOf).sum := by
  induction path generalizing addend with
  | nil => simp
  | cons c path ih =>
    rw [List.foldl_cons, ih, addDevice, List.map_cons, List.sum_cons, BitVec.ofNat_add,
      BitVec.add_assoc]

/-- The calls of `do_setup_pci` in a run that turns the tree `before` into the
tree of `s'`: one for each visible function and no others, while `bus` is the
number of its bus and `addend` the sum of the devices on the way to it. -/
structure SetUpOnce (before : PciBus) (s' : PciState) : Prop where
  once : (s'.calls.map callKey).Nodup
  visited : ∀ path d, (Route.arrives path, d) ∈ s'.calls.map callKey ↔
    (before.subtree path).isBus = true ∧ Visible (before.configAt path) d
  context : ∀ c ∈ s'.calls, ∃ path, c.target = .arrives path ∧
    c.bus.toNat = busNumber s'.root path ∧
    c.addend = BitVec.ofNat 16 (path.map deviceOf).sum
  restored : s'.addend = 0#16

def SetsUpOnce (rule : BridgeRule) (i440fx : Bool) (root : PciBus) : Prop :=
  ∃ k s', doSetupPciBus k [] (.initial rule i440fx root) = .ok () s' ∧ SetUpOnce root s'

/-- If the scan finds all bridges and they are at most 255, every function that
it can see is set up exactly once, in the context of its bus. -/
theorem sets_up_once (i440fx : Bool) (T : PciTopology) (hfound : T.root.Found)
    (hcount : T.root.busCount ≤ 256) : SetsUpOnce claimsWithin i440fx T.root := by
  obtain ⟨s', hrun, hroot, -, haddend, hcalls⟩ := run_of_found i440fx T hfound hcount
  have hsize : T.root.size ≤ 256 := (size_le_busCount _).trans hcount
  refine ⟨_, s', hrun, ?_, ?_, ?_, haddend⟩
  · rw [hcalls]
    exact nodup_setupCalls hfound
  · intro path d
    rw [hcalls, List.mem_map]
    constructor
    · rintro ⟨x, hx, hkey⟩
      obtain ⟨rest, e, hbus, hvisible, rfl⟩ := (mem_setupCalls hfound).mp hx
      cases hkey
      exact ⟨hbus, hvisible⟩
    · rintro ⟨hbus, hvisible⟩
      exact ⟨_, (mem_setupCalls hfound).mpr ⟨path, d, hbus, hvisible, rfl⟩, rfl⟩
  · intro c hc
    rw [hcalls] at hc
    obtain ⟨rest, d, hbus, -, rfl⟩ := (mem_setupCalls hfound).mp hc
    have hsub := size_pos hbus
    have hwithin := @numberAt_within T.root 0 rest hfound hbus
    refine ⟨rest, rfl, ?_, ?_⟩
    · rw [hroot, busNumber_numbered hfound hsize hbus]
      exact toNat_number (by omega)
    · exact (foldl_addDevice rest 0#16).trans (BitVec.zero_add _)

theorem chain_sets_up_once : (chainTopology 2).root.busCount = 3 ∧
    SetsUpOnce claimsWithin true (chainTopology 2).root :=
  ⟨busCount_chain 2, sets_up_once true (chainTopology 2) (found_chain 2)
    ((busCount_chain 2).trans_le (by decide))⟩

/-- Nothing is set up behind a bridge that is not found. -/
theorem not_always_sets_up_once : ¬ ∀ (i440fx : Bool) (T : PciTopology), T.root.busCount ≤ 256 →
    SetsUpOnce claimsWithin i440fx T.root := by
  intro h
  obtain ⟨k, s', hrun, hvisits⟩ := h true hiddenTopology (busCount_hidden.trans_le (by decide))
  obtain ⟨k', s, hrun', -, hcalls⟩ := run_hidden true
  have hbridge : 8#8 ∈ bridgeOrder (bridgesAt [8#8]) := by
    rw [bridgeOrder_one]
    exact List.mem_singleton_self _
  have hvisible : Visible (hiddenRoot.configAt [9#8]) 8#8 := (mem_bridgeOrder.mp hbridge).1
  have hmem := (hvisits.visited [9#8] 8#8).mpr ⟨rfl, hvisible⟩
  rw [doSetupPciBus_unique hrun hrun', hcalls] at hmem
  cases hmem

end Qboot
