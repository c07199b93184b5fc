import Qboot.Main

/-!
What a program of the firmware writes: the blocks that it allocates, and an area
that is named in advance. Where the blocks lie is left to the allocators. The
same walk over the code shows which variables the program leaves alone.
-/

namespace Qboot

open Bytes ByteMemory

/-- A part of the state that does not change with memory, with the place in the
device, or with an allocation. -/
structure Settled {β : Type} (f : Firmware → β) : Prop where
  mem : ∀ (s : Firmware) (m : Mem), f { s with mem := m } = f s
  dev : ∀ (s : Firmware) (d : FwCfg), d.entry = s.dev.entry → f { s with dev := d } = f s
  allocate : ∀ (s : Firmware) (a : Alloc), f (s.allocate a) = f s

/-- From `s` to `t` the blocks `new` are allocated, no byte changes outside them
and `area`, and `f` stays the same. -/
structure Touched {β : Type} (f : Firmware → β) (area : BitVec 32 → Prop) (new : List Alloc)
    (s t : Firmware) : Prop where
  allocs : t.allocs = new ++ s.allocs
  frame : ∀ a, ¬ area a → (∀ b ∈ new, ¬ Within b.base b.size.toNat a) → t.mem a = s.mem a
  kept : f t = f s

/-- The program touches nothing but `area` and its blocks, whether it returns or
stops. -/
def Touches {α β : Type} (f : Firmware → β) (area : BitVec 32 → Prop) (x : Fw α) : Prop :=
  ∀ s, ∃ new, Touched f area new s (StateRun.final (x s))

section Rules

variable {α β γ : Type} {f : Firmware → γ} {area area' : BitVec 32 → Prop}
  {new new' : List Alloc} {s t u : Firmware}

namespace Touched

theorem refl (f : Firmware → γ) (area : BitVec 32 → Prop) (s : Firmware) : Touched f area [] s s :=
  ⟨rfl, fun _ _ _ => rfl, rfl⟩

theorem trans (h : Touched f area new s t) (h' : Touched f area new' t u) :
    Touched f area (new' ++ new) s u where
  allocs := by rw [h'.allocs, h.allocs, List.append_assoc]
  frame a ha hblocks := by
    have hfirst := h.frame a ha fun b hb => hblocks b (List.mem_append_right _ hb)
    have hsecond := h'.frame a ha fun b hb => hblocks b (List.mem_append_left _ hb)
    exact hsecond.trans hfirst
  kept := h'.kept.trans h.kept

theorem mono (h : Touched f area new s t) (harea : ∀ a, area a → area' a) :
    Touched f area' new s t :=
  ⟨h.allocs, fun a ha => h.frame a fun hin => ha (harea a hin), h.kept⟩

/-- A new memory that differs only in the area. -/
theorem of_mem (hf : Settled f) (s : Firmware) {m : Mem} (h : ∀ a, ¬ area a → m a = s.mem a) :
    Touched f area [] s { s with mem := m } :=
  ⟨rfl, fun a ha _ => h a ha, hf.mem s m⟩

theorem of_dev (hf : Settled f) (s : Firmware) {d : FwCfg} (h : d.entry = s.dev.entry) :
    Touched f area [] s { s with dev := d } :=
  ⟨rfl, fun _ _ _ => rfl, hf.dev s d h⟩

/-- What the rest of a program does to its block belongs to the block. -/
theorem allocate (hf : Settled f) {a : Alloc}
    (h : Touched f (fun x => area x ∨ Within a.base a.size.toNat x) new (s.allocate a) t) :
    Touched f area (new ++ [a]) s t where
  allocs := by rw [h.allocs, allocate_allocs, List.append_assoc, List.singleton_append]
  frame x hx hblocks := by
    have hin : ¬ Within a.base a.size.toNat x := hblocks a (by simp)
    have hframe := h.frame x (not_or.mpr ⟨hx, hin⟩) fun b hb =>
      hblocks b (List.mem_append_left _ hb)
    rw [hframe, allocate_mem]
  kept := h.kept.trans (hf.allocate s a)

end Touched

namespace Touches

theorem pure (a : α) : Touches f area (Pure.pure a : Fw α) := fun s => ⟨[], Touched.refl f area s⟩

theorem get : Touches f area (MonadState.get : Fw Firmware) := fun s => ⟨[], Touched.refl f area s⟩

theorem throw (e : Stop) : Touches f area (MonadExcept.throw e : Fw α) :=
  fun s => ⟨[], Touched.refl f area s⟩

theorem bind {x : Fw α} {g : α → Fw β} (hx : Touches f area x) (hg : ∀ a, Touches f area (g a)) :
    Touches f area (x >>= g) := by
  intro s
  obtain ⟨new, h⟩ := hx s
  rw [StateRun.bind_apply]
  cases hrun : x s with
  | ok a t =>
    rw [hrun] at h
    obtain ⟨new', h'⟩ := hg a t
    exact ⟨new' ++ new, h.trans h'⟩
  | error e t =>
    rw [hrun] at h
    exact ⟨new, h⟩

theorem ite {c : Prop} [Decidable c] {x y : Fw α} (hx : Touches f area x) (hy : Touches f area y) :
    Touches f area (if c then x else y) := by
  split
  · exact hx
  · exact hy

theorem forM {ι : Type} {g : ι → Fw PUnit} (l : List ι) (hg : ∀ i ∈ l, Touches f area (g i)) :
    Touches f area (forM l g) := by
  induction l with
  | nil => exact pure _
  | cons i l ih =>
    rw [List.forM_cons]
    exact (hg i (by simp)).bind fun _ => ih fun j hj => hg j (by simp [hj])

/-- A variable that `f` does not see. -/
theorem modify {g : Firmware → Firmware} (hallocs : ∀ s, (g s).allocs = s.allocs)
    (hmem : ∀ s, (g s).mem = s.mem) (hkept : ∀ s, f (g s) = f s) :
    Touches f area (modify g : Fw PUnit) :=
  fun s => ⟨[], hallocs s, fun a _ _ => congrFun (hmem s) a, hkept s⟩

variable (hf : Settled f)

include hf

theorem poke {p : BitVec 32} {bs : List Byte} (h : ∀ a, Within p bs.length a → area a) :
    Touches f area (poke p bs) :=
  fun s => ⟨[], Touched.of_mem hf s fun a ha =>
    store_of_not_within s.mem fun hin => ha (h a hin)⟩

/-- A write to a part of a block. -/
theorem poke_part {p : BitVec 32} {k n : Nat} {bs : List Byte} (hk : k + bs.length ≤ n)
    (hn : n ≤ 2 ^ 32) (h : ∀ a, Within p n a → area a) :
    Touches f area (Qboot.poke (p + BitVec.ofNat 32 k) bs) := by
  apply poke hf
  intro a ha
  apply h a
  have hpos : 0 < bs.length := by
    unfold Within at ha
    omega
  have hshift := (within_shift (by omega) hpos).mp ha
  unfold Within
  omega

omit hf in
theorem peek (p : BitVec 32) (n : Nat) : Touches f area (peek p n) := get.bind fun _ => pure _

omit hf in
theorem panicIf (c : Prop) [Decidable c] : Touches f area (panicIf c) := ite (throw _) (pure _)

theorem of_mem {x : Fw α} {v : Firmware → α} {m : Firmware → Mem}
    (hx : ∀ s, x s = .ok (v s) { s with mem := m s })
    (h : ∀ s a, ¬ area a → m s a = s.mem a) : Touches f area x := by
  intro s
  rw [hx s]
  exact ⟨[], Touched.of_mem hf s (h s)⟩

theorem select (key : BitVec 16) : Touches f area (fwCfgSelect key) :=
  fun s => ⟨[], Touched.of_dev hf s rfl⟩

theorem readlLe : Touches f area fwCfgReadlLe := by
  intro s
  rw [fwCfgReadlLe_apply]
  exact ⟨[], Touched.of_dev hf s rfl⟩

theorem readlBe : Touches f area fwCfgReadlBe := by
  intro s
  rw [fwCfgReadlBe_apply]
  exact ⟨[], Touched.of_dev hf s rfl⟩

theorem read {buf len : BitVec 32} (h : ∀ a, Within buf len.toNat a → area a) :
    Touches f area (fwCfgRead buf len) := by
  intro s
  rw [fwCfgRead_apply]
  have hmem : Touched f area [] s { s with mem := store s.mem buf (s.dev.next len.toNat) } :=
    Touched.of_mem hf s fun a ha => store_of_not_within s.mem (by
      rw [FwCfg.next, length_entryBytes]
      exact fun hin => ha (h a hin))
  exact ⟨[], hmem.trans (Touched.of_dev hf _ (d := s.dev.skip len.toNat) rfl)⟩

theorem readEntry {e buf len : BitVec 32} (h : ∀ a, Within buf len.toNat a → area a) :
    Touches f area (fwCfgReadEntry e buf len) := by
  intro s
  rw [fwCfgReadEntry_apply]
  have hmem : Touched f area [] s { s with
      mem := store s.mem buf (entryBytes (s.dev.entry (e.setWidth 16)) 0 len.toNat) } :=
    Touched.of_mem hf s fun a ha => store_of_not_within s.mem (by
      rw [length_entryBytes]
      exact fun hin => ha (h a hin))
  exact ⟨[], hmem.trans
    (Touched.of_dev hf _ (d := (s.dev.select (e.setWidth 16)).skip len.toNat) rfl)⟩

omit hf in
theorem fileId (name : List Byte) : Touches f area (fwCfgFileId name) := by
  refine get.bind fun s => ?_
  cases fileIndex s.files name with
  | none => exact pure _
  | some i => exact pure _

omit hf in
theorem fileAt (id : Int) : Touches f area (fileAt id) := by
  refine get.bind fun s => ite ?_ (throw _)
  cases s.files[id.toNat]? with
  | none => exact throw _
  | some file => exact pure _

omit hf in
theorem fileSize (id : Int) : Touches f area (fwCfgFileSize id) :=
  ite (pure _) ((fileAt id).bind fun _ => pure _)

theorem readFile {id : Int} {buf len : BitVec 32} (h : ∀ a, Within buf len.toNat a → area a) :
    Touches f area (fwCfgReadFile id buf len) := (fileAt id).bind fun _ => readEntry hf h

/-- A block is part of the area for the rest of the program. -/
theorem mallocIn (zone : Zone) {n align : BitVec 32} {g : BitVec 32 → Fw α}
    (hg : ∀ p, Touches f (fun a => area a ∨ Within p n.toNat a) (g p)) :
    Touches f area (mallocIn zone n align >>= g) := by
  intro s
  rw [StateRun.bind_of_ok (mallocIn_apply zone n align s)]
  let a : Alloc := s.request zone n align
  have hsize : a.size = n := by
    cases zone <;> rfl
  obtain ⟨new, h⟩ := hg a.base (s.allocate a)
  rw [← hsize] at h
  exact ⟨new ++ [a], h.allocate hf⟩

end Touches

end Rules

end Qboot
