import Qboot.Acpi.Plan
import Qboot.FwCfg.Reread

/-!
The table loader on the directory in memory. While the pointer commands stay in
their files and the blocks do not wrap, the directory is what it was when the
loader started, and the run goes as planned.
-/

namespace Qboot

open Bytes ByteMemory

/-! ### Runs that look at memory -/

/-- The command loop. All lookups of a command come before it writes, so they see
the records as they are when it starts. -/
def runScriptReread (d : FileTable) : List LoaderCmd → Fw Unit
  | [] => pure ()
  | .quit :: _ => pure ()
  | cmd :: rest => do
    rereadFiles d
    cmd.run
    runScriptReread d rest

/-- `extract_acpi`, with every lookup in memory. -/
def extractAcpiReread (d : FileTable) : Fw Unit := do
  rereadFiles d
  withScript (runScriptReread d)

/-- The machine once a lookup has seen the directory. -/
def Firmware.reread (s : Firmware) (d : FileTable) : Firmware := { s with files := d.read s.mem }

/-- In the run of a script from a state, the command is about to run in the
state `t`, and its lookups see the directory of that state. -/
inductive RereadReaches (d : FileTable) :
    List LoaderCmd → Firmware → LoaderCmd → Firmware → Prop where
  | here {cmd : LoaderCmd} {rest : List LoaderCmd} {s : Firmware} :
    cmd ≠ .quit → RereadReaches d (cmd :: rest) s cmd (s.reread d)
  | next {cmd later : LoaderCmd} {rest : List LoaderCmd} {s s' t : Firmware} :
    cmd ≠ .quit → cmd.run (s.reread d) = .ok () s' → RereadReaches d rest s' later t →
      RereadReaches d (cmd :: rest) s later t

/-- `extractAcpiReread` reaches the command in the state `t`. -/
def Firmware.AcpiRereads (s : Firmware) (d : FileTable) (cmd : LoaderCmd) (t : Firmware) : Prop :=
  (s.reread d).ScriptWhole ∧
    RereadReaches d (s.reread d).loaderScript (s.reread d).loaderStart cmd t

theorem runScriptReread_cons (d : FileTable) {cmd : LoaderCmd} (h : cmd ≠ .quit)
    (rest : List LoaderCmd) (s : Firmware) :
    runScriptReread d (cmd :: rest) s =
      (cmd.run >>= fun _ => runScriptReread d rest) (s.reread d) := by
  have hloop : runScriptReread d (cmd :: rest) =
      rereadFiles d >>= fun _ => cmd.run >>= fun _ => runScriptReread d rest := by
    cases cmd with
    | quit => exact absurd rfl h
    | unknown _ => rfl
    | alloc file align zone => rfl
    | ptr dest src offset size => rfl
    | checksum file offset start len => rfl
  rw [hloop, StateRun.bind_of_ok (rereadFiles_apply d s)]
  rfl

/-- A script stops where the last command it reaches stops. -/
theorem runScriptReread_error {d : FileTable} {script : List LoaderCmd} {s s' : Firmware}
    {e : Stop} : runScriptReread d script s = .error e s' ↔
      ∃ cmd t, RereadReaches d script s cmd t ∧ cmd.run t = .error e s' := by
  induction script generalizing s with
  | nil =>
    constructor
    · intro h
      cases h
    · rintro ⟨cmd, t, hreach, -⟩
      cases hreach
  | cons cmd rest ih =>
    by_cases hquit : cmd = .quit
    · subst hquit
      constructor
      · intro h
        cases h
      · rintro ⟨cmd, t, hreach, -⟩
        cases hreach with
        | here hne => exact absurd rfl hne
        | next hne => exact absurd rfl hne
    · rw [runScriptReread_cons d hquit, StateRun.bind_error]
      constructor
      · rintro (hstop | ⟨u, t, hcmd, hrest⟩)
        · exact ⟨cmd, _, .here hquit, hstop⟩
        · obtain ⟨later, t', hreach, hstop⟩ := ih.mp hrest
          exact ⟨later, t', .next hquit hcmd hreach, hstop⟩
      · rintro ⟨later, t, hreach, hstop⟩
        cases hreach with
        | here => exact Or.inl hstop
        | next _ hcmd hreach => exact Or.inr ⟨(), _, hcmd, ih.mpr ⟨later, t, hreach, hstop⟩⟩

theorem extractAcpiReread_eq {d : FileTable} {s : Firmware} (hwhole : (s.reread d).ScriptWhole) :
    extractAcpiReread d s =
      runScriptReread d (s.reread d).loaderScript (s.reread d).loaderStart :=
  (StateRun.bind_of_ok (rereadFiles_apply d s)).trans (withScript_eq rfl hwhole)

theorem extractAcpiReread_overruns {d : FileTable} {s : Firmware}
    (hpart : ¬ (s.reread d).ScriptWhole) :
    extractAcpiReread d s = .error (.fault .stackBuffer) (s.reread d) :=
  (StateRun.bind_of_ok (rereadFiles_apply d s)).trans (withScript_overruns _ hpart)

/-! ### Memory ahead of the allocators -/

/-- The pointers of the allocators have not passed the byte. -/
def Firmware.Ahead (s : Firmware) (a : BitVec 32) : Prop :=
  a.toNat < s.mallocTop.toNat ∨ s.fsegBase.toNat ≤ a.toNat

/-- The machine after the allocations of some requests. -/
def Firmware.takes (s : Firmware) : List Request → Firmware
  | [] => s
  | r :: rs => (s.allocate (s.request r.zone r.size r.align)).takes rs

section Ahead

variable {s t : Firmware}

theorem request_congr (h : s.heap = t.heap) (zone : Zone) (n align : BitVec 32) :
    s.request zone n align = t.request zone n align := by
  obtain ⟨htop, hbase, -⟩ : s.mallocTop = t.mallocTop ∧ s.fsegBase = t.fsegBase ∧
      s.allocs = t.allocs := by simpa [Firmware.heap] using h
  cases zone <;> simp [Firmware.request, htop, hbase]

theorem heap_allocate_congr (h : s.heap = t.heap) (a : Alloc) :
    (s.allocate a).heap = (t.allocate a).heap := by
  obtain ⟨htop, hbase, hallocs⟩ : s.mallocTop = t.mallocTop ∧ s.fsegBase = t.fsegBase ∧
      s.allocs = t.allocs := by simpa [Firmware.heap] using h
  cases hzone : a.zone <;> simp [Firmware.heap, Firmware.allocate, hzone, htop, hbase, hallocs]

/-- Allocations depend on the allocators only. -/
theorem blocks_congr (h : s.heap = t.heap) (rs : List Request) : s.blocks rs = t.blocks rs := by
  induction rs generalizing s t with
  | nil => rfl
  | cons r rs ih =>
    rw [Firmware.blocks, Firmware.blocks, request_congr h]
    exact congrArg _ (ih (heap_allocate_congr h _))

theorem heap_takes_congr (h : s.heap = t.heap) (rs : List Request) :
    (s.takes rs).heap = (t.takes rs).heap := by
  induction rs generalizing s t with
  | nil => exact h
  | cons r rs ih =>
    rw [Firmware.takes, Firmware.takes, request_congr h]
    exact ih (heap_allocate_congr h _)

theorem ahead_congr (h : s.heap = t.heap) (a : BitVec 32) : s.Ahead a ↔ t.Ahead a := by
  obtain ⟨htop, hbase, -⟩ : s.mallocTop = t.mallocTop ∧ s.fsegBase = t.fsegBase ∧
      s.allocs = t.allocs := by simpa [Firmware.heap] using h
  rw [Firmware.Ahead, Firmware.Ahead, htop, hbase]

/-- A block that does not wrap comes out of the memory ahead, and is passed. -/
theorem request_ahead {zone : Zone} {n align : BitVec 32}
    (hzones : s.mallocTop.toNat ≤ s.fsegBase.toNat) (ha : 0 < align.toNat)
    (hwrap : (s.request zone n align).NoWrap) :
    let b := s.request zone n align
    let t := s.allocate b
    t.mallocTop.toNat ≤ t.fsegBase.toNat ∧
      (∀ a, Within b.base n.toNat a → s.Ahead a ∧ ¬ t.Ahead a) ∧ ∀ a, t.Ahead a → s.Ahead a := by
  intro b t
  have htop := s.mallocTop.isLt
  rcases allocate_cases ha hwrap with ⟨hend, hnew, hbase⟩ | ⟨hstart, hnew, hbase⟩
  · have hlow : b.base.toNat + n.toNat ≤ s.mallocTop.toNat := hend
    have hnew' : t.mallocTop = b.base := hnew
    have hbase' : t.fsegBase = s.fsegBase := hbase
    refine ⟨by rw [hnew', hbase']; omega, fun a hin => ?_, fun a h => ?_⟩
    · have hrange := (within_iff (p := b.base) (n := n.toNat) (by omega)).mp hin
      rw [Firmware.Ahead, Firmware.Ahead, hnew', hbase']
      omega
    · rw [Firmware.Ahead, hnew', hbase'] at h
      rw [Firmware.Ahead]
      omega
  · have hlow : s.fsegBase.toNat ≤ b.base.toNat := hstart
    have hnew' : t.fsegBase.toNat = b.base.toNat + n.toNat := hnew
    have hbase' : t.mallocTop = s.mallocTop := hbase
    have hlt := t.fsegBase.isLt
    refine ⟨by rw [hnew', hbase']; omega, fun a hin => ?_, fun a h => ?_⟩
    · have hrange := (within_iff (p := b.base) (n := n.toNat) (by omega)).mp hin
      rw [Firmware.Ahead, Firmware.Ahead, hnew', hbase']
      omega
    · rw [Firmware.Ahead, hnew', hbase'] at h
      rw [Firmware.Ahead]
      omega

end Ahead

/-! ### What a run keeps -/

/-- The table loader may start: the allocators have passed the directory, and no
file has an address. -/
structure LoaderReady (d : FileTable) (s : Firmware) : Prop where
  zones : s.mallocTop.toNat ≤ s.fsegBase.toNat
  fits : fwCfgFileBytes * d.filecnt ≤ 2 ^ 32
  passed : ∀ a, d.Holds a → ¬ s.Ahead a
  fresh : ∀ i, s.fileAddress i = 0#32

/-- State `s` of a run that started in `s₀` and has allocated `new`: each placed
file has a block of its own out of the memory that was ahead, and nothing else
has changed. -/
structure LoaderState (d : FileTable) (s₀ : Firmware) (placed : Fin 20 → Bool) (s : Firmware)
    (new : List Alloc) : Prop where
  zones : s.mallocTop.toNat ≤ s.fsegBase.toNat
  shrinks : ∀ a, s.Ahead a → s₀.Ahead a
  allocs : s.allocs = new ++ s₀.allocs
  entry : s.dev.entry = s₀.dev.entry
  placed : s.Placed placed
  owned : ∀ b ∈ new, ∀ a, Within b.base b.size.toNat a → s₀.Ahead a ∧ ¬ s.Ahead a
  block : ∀ i, s.fileAddress i ≠ 0#32 →
    ∃ b ∈ new, b.base = s.fileAddress i ∧ b.size = sizeAt (d.read s₀.mem) i.val
  apart : ∀ i j, i ≠ j → s.fileAddress i ≠ 0#32 → s.fileAddress j ≠ 0#32 →
    ∀ a, Within (s.fileAddress i) (sizeAt (d.read s₀.mem) i.val).toNat a →
      ¬ Within (s.fileAddress j) (sizeAt (d.read s₀.mem) j.val).toNat a
  frame : ∀ a, (∀ b ∈ new, ¬ Within b.base b.size.toNat a) → s.mem a = s₀.mem a

/-- Blocks that do not wrap, none of them at address zero. -/
def Firmware.BlocksUsable (s : Firmware) (rs : List Request) : Prop :=
  ∀ b ∈ s.blocks rs, b.NoWrap ∧ b.base ≠ 0#32

instance (s : Firmware) (rs : List Request) : Decidable (s.BlocksUsable rs) :=
  inferInstanceAs (Decidable (∀ b ∈ s.blocks rs, b.NoWrap ∧ b.base ≠ 0#32))

theorem blocksUsable_congr {s t : Firmware} (h : s.heap = t.heap) {rs : List Request} :
    s.BlocksUsable rs ↔ t.BlocksUsable rs := by
  rw [Firmware.BlocksUsable, blocks_congr h, Firmware.BlocksUsable]

theorem blocksUsable_cons {s : Firmware} {r : Request} {rs : List Request} :
    s.BlocksUsable (r :: rs) ↔
      ((s.request r.zone r.size r.align).NoWrap ∧ (s.request r.zone r.size r.align).base ≠ 0#32) ∧
        (s.allocate (s.request r.zone r.size r.align)).BlocksUsable rs :=
  List.forall_mem_cons

namespace LoaderState

variable {d : FileTable} {s₀ s t : Firmware} {placed : Fin 20 → Bool} {new : List Alloc}

theorem start (h : LoaderReady d s₀) : LoaderState d s₀ (fun _ => false) s₀ [] where
  zones := h.zones
  shrinks _ ha := ha
  allocs := rfl
  entry := rfl
  placed i := iff_of_false Bool.false_ne_true (not_not.mpr (h.fresh i))
  owned _ hb := absurd hb List.not_mem_nil
  block i hi := absurd (h.fresh i) hi
  apart i _ _ hi := absurd (h.fresh i) hi
  frame _ _ := rfl

/-- The state is a matter of everything but `files` and the place in the
device. -/
theorem congr (h : LoaderState d s₀ placed s new) (hheap : t.heap = s.heap)
    (hentry : t.dev.entry = s.dev.entry) (haddress : t.fileAddress = s.fileAddress)
    (hmem : t.mem = s.mem) : LoaderState d s₀ placed t new := by
  obtain ⟨htop, hbase, hallocs⟩ : t.mallocTop = s.mallocTop ∧ t.fsegBase = s.fsegBase ∧
      t.allocs = s.allocs := by simpa [Firmware.heap] using hheap
  constructor
  · rw [htop, hbase]
    exact h.zones
  · exact fun a ha => h.shrinks a ((ahead_congr hheap a).mp ha)
  · rw [hallocs, h.allocs]
  · rw [hentry, h.entry]
  · intro i
    rw [haddress]
    exact h.placed i
  · intro b hb a ha
    rw [ahead_congr hheap]
    exact h.owned b hb a ha
  · rw [haddress]
    exact h.block
  · rw [haddress]
    exact h.apart
  · rw [hmem]
    exact h.frame

theorem reread (h : LoaderState d s₀ placed s new) : LoaderState d s₀ placed (s.reread d) new :=
  h.congr rfl rfl rfl rfl

/-- Memory that was not ahead of the allocators is as it was. -/
theorem kept (h : LoaderState d s₀ placed s new) {a : BitVec 32} (ha : ¬ s₀.Ahead a) :
    s.mem a = s₀.mem a := h.frame a fun b hb hin => ha (h.owned b hb a hin).1

/-- The directory is as it was. -/
theorem intact (h : LoaderState d s₀ placed s new) (hready : LoaderReady d s₀) :
    d.read s.mem = d.read s₀.mem :=
  FileTable.read_congr hready.fits fun a ha => h.kept (hready.passed a ha)

/-- A placed file gets a block that no other file has. -/
theorem place (h : LoaderState d s₀ placed s new) {i : Fin 20} {r : Request}
    (hstep : Places i r s t) (hfiles : s.files = d.read s₀.mem)
    (hwrap : (s.request r.zone r.size r.align).NoWrap)
    (hzero : (s.request r.zone r.size r.align).base ≠ 0#32) :
    LoaderState d s₀ (Function.update placed i true) t
      (s.request r.zone r.size r.align :: new) := by
  let b := s.request r.zone r.size r.align
  have hsize : b.size = r.size := by cases hz : r.zone <;> simp [b, Firmware.request, hz]
  have hfile : r.size = sizeAt (d.read s₀.mem) i.val := hstep.size.trans (by rw [hfiles])
  obtain ⟨hzones, hblock, hshrinks⟩ := request_ahead h.zones hstep.align hwrap
  obtain ⟨htop, hbase, hallocs⟩ : t.mallocTop = (s.allocate b).mallocTop ∧
      t.fsegBase = (s.allocate b).fsegBase ∧ t.allocs = (s.allocate b).allocs := by
    simpa [Firmware.heap] using hstep.heap
  have hself : t.fileAddress i = b.base := by rw [hstep.address, Function.update_self]
  have hother : ∀ j, j ≠ i → t.fileAddress j = s.fileAddress j := fun j hj => by
    rw [hstep.address, Function.update_of_ne hj]
  -- a byte of an earlier block is no byte of this one
  have hnew : ∀ j, j ≠ i → s.fileAddress j ≠ 0#32 → ∀ a, Within b.base r.size.toNat a →
      ¬ Within (s.fileAddress j) (sizeAt (d.read s₀.mem) j.val).toNat a := by
    intro j _ hj a ha hin
    obtain ⟨c, hc, hcbase, hcsize⟩ := h.block j hj
    rw [← hcbase, ← hcsize] at hin
    exact (h.owned c hc a hin).2 (hblock a ha).1
  constructor
  · rw [htop, hbase]
    exact hzones
  · exact fun a ha => h.shrinks a (hshrinks a ((ahead_congr hstep.heap a).mp ha))
  · rw [hallocs, allocate_allocs, h.allocs, List.cons_append]
  · rw [hstep.entry, h.entry]
  · intro j
    by_cases hj : j = i
    · subst hj
      rw [Function.update_self, hself]
      exact iff_of_true rfl hzero
    · rw [Function.update_of_ne hj, hother j hj]
      exact h.placed j
  · intro c hc a ha
    rw [ahead_congr hstep.heap]
    rcases List.mem_cons.mp hc with rfl | hc
    · rw [hsize] at ha
      exact ⟨h.shrinks a (hblock a ha).1, (hblock a ha).2⟩
    · exact ⟨(h.owned c hc a ha).1, fun hahead => (h.owned c hc a ha).2 (hshrinks a hahead)⟩
  · intro j hj
    by_cases hji : j = i
    · subst hji
      exact ⟨b, List.mem_cons_self, hself.symm, hsize.trans hfile⟩
    · rw [hother j hji] at hj ⊢
      obtain ⟨c, hc, hcblock⟩ := h.block j hj
      exact ⟨c, List.mem_cons_of_mem _ hc, hcblock⟩
  · intro j k hjk hj hk a hja hka
    by_cases hji : j = i
    · subst hji
      rw [hself, ← hfile] at hja
      rw [hother k (Ne.symm hjk)] at hk hka
      exact hnew k (Ne.symm hjk) hk a hja hka
    · rw [hother j hji] at hj hja
      by_cases hki : k = i
      · subst hki
        rw [hself, ← hfile] at hka
        exact hnew j hji hj a hka hja
      · rw [hother k hki] at hk hka
        exact h.apart j k hjk hj hk a hja hka
  · intro a ha
    have hout := ha b List.mem_cons_self
    rw [hsize] at hout
    rw [hstep.frame a hout, h.frame a fun c hc => ha c (List.mem_cons_of_mem _ hc)]

/-- A changed file changes in its block. -/
theorem patch (h : LoaderState d s₀ placed s new) {i : Fin 20} (hstep : Patches i s t)
    (hfiles : s.files = d.read s₀.mem) : LoaderState d s₀ placed t new := by
  obtain ⟨m, rfl⟩ := hstep.only
  obtain ⟨b, hb, hbase, hsize⟩ := h.block i hstep.placed
  refine ⟨h.zones, h.shrinks, h.allocs, h.entry, h.placed, h.owned, h.block, h.apart,
    fun a ha => ?_⟩
  rw [← h.frame a ha]
  apply hstep.frame
  rw [hfiles, ← hbase, ← hsize]
  exact ha b hb

end LoaderState

/-! ### Runs that go as planned -/

/-- A result is the end that was planned; a run that returns or panics leaves a
state with the property. -/
def Ending.Reached (x : EStateM.Result Stop Firmware Unit) (P : Firmware → Prop) : Ending → Prop
  | .returns => ∃ t, x = .ok () t ∧ P t
  | .panics => ∃ t, x = .error .panic t ∧ P t
  | .indexes => ∃ t, x = .error (.fault .addressTable) t
  | .strays => True
  | .overruns => True

/-- The state when a plan from `s` is done. -/
def LoaderDone (d : FileTable) (s₀ s : Firmware) (rs : List Request) (t : Firmware) : Prop :=
  (∃ placed new, LoaderState d s₀ placed t new) ∧ t.heap = (s.takes rs).heap

theorem Ending.Reached.mono {x : EStateM.Result Stop Firmware Unit} {P Q : Firmware → Prop}
    {e : Ending} (h : e.Reached x P) (hPQ : ∀ t, P t → Q t) : e.Reached x Q := by
  cases e with
  | returns =>
    obtain ⟨t, hx, ht⟩ := h
    exact ⟨t, hx, hPQ t ht⟩
  | panics =>
    obtain ⟨t, hx, ht⟩ := h
    exact ⟨t, hx, hPQ t ht⟩
  | indexes => exact h
  | strays => trivial
  | overruns => trivial

section Run

variable {d : FileTable} {s₀ s t : Firmware} {placed : Fin 20 → Bool} {new : List Alloc}
  {cmd : LoaderCmd} {rest script : List LoaderCmd}

/-- A look at the directory is no matter for the allocators. -/
theorem Places.heap_reread {i : Fin 20} {r : Request} (h : Places i r (s.reread d) t) :
    t.heap = (s.allocate (s.request r.zone r.size r.align)).heap := by
  rw [h.heap, request_congr (s := s.reread d) (t := s) rfl]
  exact heap_allocate_congr (s := s.reread d) (t := s) rfl _

theorem Patches.heap_reread {i : Fin 20} (h : Patches i (s.reread d) t) : t.heap = s.heap := by
  obtain ⟨m, rfl⟩ := h.only
  rfl

theorem Patches.files {i : Fin 20} (h : Patches i s t) : t.files = s.files := by
  obtain ⟨m, rfl⟩ := h.only
  rfl

/-- A command leads from a state of a run to the next one, or has the result `x`
of its end. -/
def LoaderAction.Leads (d : FileTable) (s₀ s : Firmware) (placed : Fin 20 → Bool) (new : List Alloc)
    (x : EStateM.Result Stop Firmware Unit) : LoaderAction → Prop
  | .place i r => ∃ t, x = .ok () t ∧ 0 < r.align.toNat ∧ t.files = d.read s₀.mem ∧
      t.heap = (s.allocate (s.request r.zone r.size r.align)).heap ∧
      ((s.request r.zone r.size r.align).NoWrap ∧ (s.request r.zone r.size r.align).base ≠ 0#32 →
        LoaderState d s₀ (Function.update placed i true) t
          (s.request r.zone r.size r.align :: new))
  | .patch _ => ∃ t, x = .ok () t ∧ t.files = d.read s₀.mem ∧ t.heap = s.heap ∧
      LoaderState d s₀ placed t new
  | .stop e => (LoaderAction.stop e).Does (s.reread d) x

/-- What the next command does in a run. -/
theorem LoaderState.leads (h : LoaderState d s₀ placed s new) (hready : LoaderReady d s₀)
    (cmd : LoaderCmd) :
    (cmd.action (d.read s₀.mem) placed).Leads d s₀ s placed new (cmd.run (s.reread d)) := by
  have hfiles : (s.reread d).files = d.read s₀.mem := h.intact hready
  have hdoes := run_action (s := s.reread d) h.placed cmd
  rw [hfiles] at hdoes
  cases haction : cmd.action (d.read s₀.mem) placed with
  | place i r =>
    rw [haction] at hdoes
    obtain ⟨t, hrun, hstep⟩ := hdoes
    exact ⟨t, hrun, hstep.align, hstep.files.trans hfiles, hstep.heap_reread, fun hblock =>
      h.reread.place hstep hfiles hblock.1 hblock.2⟩
  | patch i =>
    rw [haction] at hdoes
    obtain ⟨t, hrun, hstep⟩ := hdoes
    exact ⟨t, hrun, hstep.files.trans hfiles, hstep.heap_reread, h.reread.patch hstep hfiles⟩
  | stop e =>
    rw [haction] at hdoes
    exact hdoes

/-- The script runs as planned: its blocks are those of the plan, and it ends
where the plan ends. -/
theorem runScriptReread_ends (hready : LoaderReady d s₀) (h : LoaderState d s₀ placed s new)
    (hblocks : s.BlocksUsable (scriptPlan (d.read s₀.mem) script placed).requests) :
    (scriptPlan (d.read s₀.mem) script placed).ending.Reached (runScriptReread d script s)
      (LoaderDone d s₀ s (scriptPlan (d.read s₀.mem) script placed).requests) := by
  induction script generalizing s placed new with
  | nil => exact ⟨s, rfl, ⟨placed, new, h⟩, rfl⟩
  | cons cmd rest ih =>
    by_cases hquit : cmd = .quit
    · subst hquit
      exact ⟨s, rfl, ⟨placed, new, h⟩, rfl⟩
    have hleads := h.leads hready cmd
    rw [scriptPlan] at hblocks ⊢
    rw [runScriptReread_cons d hquit]
    cases haction : cmd.action (d.read s₀.mem) placed with
    | place i r =>
      rw [haction] at hleads hblocks
      obtain ⟨t, hrun, -, -, hheap, hnext⟩ := hleads
      obtain ⟨hblock, hlater⟩ := blocksUsable_cons.mp hblocks
      rw [StateRun.bind_of_ok hrun]
      refine (ih (hnext hblock) ((blocksUsable_congr hheap).mpr hlater)).mono fun u hu => ?_
      exact ⟨hu.1, hu.2.trans (heap_takes_congr hheap _)⟩
    | patch i =>
      rw [haction] at hleads hblocks
      obtain ⟨t, hrun, -, hheap, hnext⟩ := hleads
      rw [StateRun.bind_of_ok hrun]
      refine (ih hnext ((blocksUsable_congr hheap).mpr hblocks)).mono fun u hu => ?_
      exact ⟨hu.1, hu.2.trans (heap_takes_congr hheap _)⟩
    | stop e =>
      rw [haction] at hleads
      cases e with
      | returns => exact absurd (action_returns haction) hquit
      | panics => exact ⟨_, StateRun.bind_of_error hleads, ⟨placed, new, h.reread⟩, rfl⟩
      | indexes =>
        obtain ⟨t, hrun, -⟩ := hleads
        exact ⟨t, StateRun.bind_of_error hrun⟩
      | strays => trivial
      | overruns => trivial

/-- Every command of a run that goes as planned is reached in a state of the
run, and neither indexes out of range nor strays. -/
theorem RereadReaches.state (hreach : RereadReaches d script s cmd t) (hready : LoaderReady d s₀)
    (h : LoaderState d s₀ placed s new)
    (hmeant : (scriptPlan (d.read s₀.mem) script placed).ending.Meant)
    (hblocks : s.BlocksUsable (scriptPlan (d.read s₀.mem) script placed).requests) :
    ∃ placed' new', LoaderState d s₀ placed' t new' ∧ t.files = d.read s₀.mem ∧
      ∀ e, cmd.action (d.read s₀.mem) placed' = .stop e → e.Meant := by
  induction hreach generalizing placed new with
  | @here cmd rest s hne =>
    refine ⟨placed, new, h.reread, h.intact hready, fun e haction => ?_⟩
    rwa [scriptPlan, haction] at hmeant
  | @next cmd later rest s s' t hne hrun hlater ih =>
    have hleads := h.leads hready cmd
    rw [scriptPlan] at hmeant hblocks
    cases haction : cmd.action (d.read s₀.mem) placed with
    | place i r =>
      rw [haction] at hleads hmeant hblocks
      obtain ⟨u, hdone, -, -, hheap, hnext⟩ := hleads
      obtain rfl : s' = u := (EStateM.Result.ok.inj (hrun.symm.trans hdone)).2
      obtain ⟨hblock, hlater⟩ := blocksUsable_cons.mp hblocks
      exact ih (hnext hblock) hmeant ((blocksUsable_congr hheap).mpr hlater)
    | patch i =>
      rw [haction] at hleads hmeant hblocks
      obtain ⟨u, hdone, -, hheap, hnext⟩ := hleads
      obtain rfl : s' = u := (EStateM.Result.ok.inj (hrun.symm.trans hdone)).2
      exact ih hnext hmeant ((blocksUsable_congr hheap).mpr hblocks)
    | stop e =>
      rw [haction] at hleads hmeant
      rcases hmeant with rfl | rfl
      · exact absurd (action_returns haction) hne
      · have hpanics : cmd.run (s.reread d) = .error .panic (s.reread d) := hleads
        rw [hpanics] at hrun
        cases hrun

end Run

/-! ### `extract_acpi` -/

/-- What the table loader does with the directory in memory. -/
def Firmware.loaderPlan (s : Firmware) (d : FileTable) : Plan :=
  acpiPlan (d.read s.mem) s.dev.entry

theorem loaderPlan_of_whole {d : FileTable} {s : Firmware} (hwhole : (s.reread d).ScriptWhole) :
    s.loaderPlan d = scriptPlan (d.read s.mem) (s.reread d).loaderScript fun _ => false := by
  have hfiles : (s.reread d).files = d.read s.mem := rfl
  rw [Firmware.loaderPlan, acpiPlan, Firmware.loaderScript, hfiles]
  cases hfound : fileIndex (d.read s.mem) tableLoaderName with
  | none =>
    rw [fileNamed_none hfound]
    rfl
  | some i =>
    have hlt : i < (s.reread d).files.length := fileIndex_lt hfound
    have hdvd := hwhole i hfound
    rw [fileSize_eq hlt] at hdvd
    simp only [fileNamed_some hfound hlt, fileContent_eq hlt]
    exact if_pos hdvd

theorem loaderPlan_of_part {d : FileTable} {s : Firmware} (hpart : ¬ (s.reread d).ScriptWhole) :
    s.loaderPlan d = { requests := [], ending := .overruns } := by
  unfold Firmware.ScriptWhole at hpart
  push Not at hpart
  obtain ⟨i, hfound, hdvd⟩ := hpart
  have hlt : i < (s.reread d).files.length := fileIndex_lt hfound
  have hnamed : fileNamed (d.read s.mem) tableLoaderName = some (s.reread d).files[i] :=
    fileNamed_some hfound hlt
  rw [fileSize_eq hlt] at hdvd
  simp only [Firmware.loaderPlan, acpiPlan, hnamed, if_neg hdvd]

end Qboot
