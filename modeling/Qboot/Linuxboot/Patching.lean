import Qboot.Linuxboot.Bzimage

/-!
`parse_bzimage` on a header in memory: it replaces the bytes of `headerPatches`
and nothing else, and a second call finds everything as the first one left it.
-/

namespace Qboot

open Bytes ByteMemory

/-! ### A run on a block of memory -/

section Block

variable {s : Firmware} {p : BitVec 32} {bs : List Byte}

theorem ldlP_withBlock {k : Nat} (hk : k + 4 ≤ bs.length) (hmax : bs.length ≤ 2 ^ 32) :
    ldlP (p + BitVec.ofNat 32 k) (s.withBlock p bs) =
      .ok (BitVec.ofNat 32 (ofLE (slice bs k 4))) (s.withBlock p bs) := by
  rw [ldlP, StateRun.bind_of_ok (peek_withBlock s p hk hmax), StateRun.pure_apply]

theorem lduwP_withBlock {k : Nat} (hk : k + 2 ≤ bs.length) (hmax : bs.length ≤ 2 ^ 32) :
    lduwP (p + BitVec.ofNat 32 k) (s.withBlock p bs) =
      .ok (BitVec.ofNat 16 (ofLE (slice bs k 2))) (s.withBlock p bs) := by
  rw [lduwP, StateRun.bind_of_ok (peek_withBlock s p hk hmax), StateRun.pure_apply]

theorem ldubP_withBlock {k : Nat} (hk : k + 1 ≤ bs.length) (hmax : bs.length ≤ 2 ^ 32) :
    ldubP (p + BitVec.ofNat 32 k) (s.withBlock p bs) =
      .ok (BitVec.ofNat 8 (ofLE (slice bs k 1))) (s.withBlock p bs) := by
  rw [ldubP, StateRun.bind_of_ok (peek_withBlock s p hk hmax), StateRun.pure_apply]

variable {protocol : BitVec 16} {r : BzimageLayout}

theorem initrdMaxOf_withBlock (hlen : 0x230 ≤ bs.length) (hmax : bs.length ≤ 2 ^ 32) :
    initrdMaxOf p (bzProtocol bs) (s.withBlock p bs) = .ok (bzInitrdMax bs) (s.withBlock p bs) := by
  rw [initrdMaxOf, bzInitrdMax]
  split
  · exact ldlP_withBlock (by omega) hmax
  · rfl

theorem storeCmdline_withBlock (hlen : 0x230 ≤ bs.length) (hmax : bs.length ≤ 2 ^ 32) :
    storeCmdline p protocol r (s.withBlock p bs) =
      .ok () (s.withBlock p (patchFields bs (cmdlinePatches protocol r))) := by
  rw [storeCmdline, cmdlinePatches]
  split
  · exact poke_withBlock s p (by rw [length_toLE]; omega) hmax
  · have hoffset : (patch bs 0x20 (toLE 2 0xA33F)).length = bs.length :=
      length_patch (by rw [length_toLE]; omega)
    refine (StateRun.bind_of_ok (poke_withBlock s p
      (by rw [length_toLE]; omega : 0x20 + (toLE 2 0xA33F).length ≤ bs.length) hmax)).trans ?_
    exact poke_withBlock s p (by rw [length_toLE, hoffset]; omega) (by rwa [hoffset])

theorem storeLoader_withBlock (hlen : 0x230 ≤ bs.length) (hmax : bs.length ≤ 2 ^ 32) :
    storeLoader p protocol (s.withBlock p bs) =
      .ok () (s.withBlock p (patchFields bs (loaderPatches protocol))) := by
  rw [storeLoader, loaderPatches]
  split
  · exact poke_withBlock s p (by rw [List.length_singleton]; omega) hmax
  · rfl

theorem storeHeap_withBlock (hlen : 0x230 ≤ bs.length) (hmax : bs.length ≤ 2 ^ 32) :
    storeHeap p protocol r (s.withBlock p bs) =
      .ok () (s.withBlock p (patchFields bs (heapPatches protocol (bzLoadflags bs) r))) := by
  rw [storeHeap, heapPatches]
  split
  · have hflags : (patch bs 0x211 [bzLoadflags bs ||| 0x80#8]).length = bs.length :=
      length_patch (by rw [List.length_singleton]; omega)
    refine (StateRun.bind_of_ok (ldubP_withBlock (by omega) hmax)).trans
      ((StateRun.bind_of_ok (poke_withBlock s p (by rw [List.length_singleton]; omega) hmax)).trans ?_)
    exact poke_withBlock s p (by rw [length_toLE]; exact hflags ▸ (by omega)) (hflags ▸ hmax)
  · rfl

end Block

/-! ### The patched positions -/

/-- The positions of the header that a kernel of this protocol gets patched. -/
def PatchedAt (protocol : BitVec 16) (k : Nat) : Prop :=
  (protocol < 0x202#16 ∧ 0x20 ≤ k ∧ k < 0x24) ∨
    (0x202#16 ≤ protocol ∧ 0x228 ≤ k ∧ k < 0x22c) ∨
    (0x200#16 ≤ protocol ∧ k = 0x210) ∨
    (0x201#16 ≤ protocol ∧ (k = 0x211 ∨ 0x224 ≤ k ∧ k < 0x226)) ∨
    (0x218 ≤ k ∧ k < 0x220)

section Positions

variable {bs : List Byte} {lowmem cmdlineSize initrdSize : BitVec 32} {f : Nat × List Byte}

theorem cmdlinePatches_at {protocol : BitVec 16} {r : BzimageLayout}
    (hf : f ∈ cmdlinePatches protocol r) :
    0 < f.2.length ∧ ((protocol < 0x202#16 ∧ 0x20 ≤ f.1 ∧ f.1 + f.2.length ≤ 0x24) ∨
      (0x202#16 ≤ protocol ∧ 0x228 ≤ f.1 ∧ f.1 + f.2.length ≤ 0x22c)) := by
  unfold cmdlinePatches at hf
  split at hf
  · rename_i hnew
    rw [List.mem_singleton] at hf
    subst hf
    exact ⟨by simp, Or.inr ⟨hnew, le_rfl, by simp⟩⟩
  · rename_i hold
    have hlt := BitVec.not_le.mp hold
    rcases List.mem_cons.mp hf with rfl | hf
    · exact ⟨by simp, Or.inl ⟨hlt, le_rfl, by simp⟩⟩
    · rw [List.mem_singleton] at hf
      subst hf
      exact ⟨by simp, Or.inl ⟨hlt, by simp, by simp⟩⟩

theorem heapPatches_at {protocol : BitVec 16} {loadflags : Byte} {r : BzimageLayout}
    (hf : f ∈ heapPatches protocol loadflags r) :
    0x201#16 ≤ protocol ∧ 0 < f.2.length ∧ ((f.1 = 0x211 ∧ f.2.length = 1) ∨
      (0x224 ≤ f.1 ∧ f.1 + f.2.length ≤ 0x226)) := by
  unfold heapPatches at hf
  split at hf
  · rename_i hnew
    refine ⟨hnew, ?_⟩
    rcases List.mem_cons.mp hf with rfl | hf
    · exact ⟨by simp, Or.inl ⟨rfl, rfl⟩⟩
    · rw [List.mem_singleton] at hf
      subst hf
      exact ⟨by simp, Or.inr ⟨le_rfl, by simp⟩⟩
  · cases hf

/-- Every patch covers only patched positions. -/
theorem headerPatches_at (hf : f ∈ headerPatches bs lowmem cmdlineSize initrdSize) :
    0 < f.2.length ∧ f.1 + f.2.length ≤ 0x230 ∧
      ∀ k, f.1 ≤ k → k < f.1 + f.2.length → PatchedAt (bzProtocol bs) k := by
  unfold headerPatches at hf
  rw [List.mem_append, List.mem_append, List.mem_append] at hf
  obtain ((hf | hf) | hf) | hf := hf
  · obtain ⟨hpos, ⟨hold, hlo, hhi⟩ | ⟨hnew, hlo, hhi⟩⟩ := cmdlinePatches_at hf
    · exact ⟨hpos, by omega, fun k hk hk' => Or.inl ⟨hold, by omega, by omega⟩⟩
    · exact ⟨hpos, by omega, fun k hk hk' => Or.inr (Or.inl ⟨hnew, by omega, by omega⟩)⟩
  · unfold loaderPatches at hf
    split at hf
    · rename_i hnew
      rw [List.mem_singleton] at hf
      subst hf
      refine ⟨by simp, by simp, fun k hk hk' => Or.inr (Or.inr (Or.inl ⟨hnew, ?_⟩))⟩
      simp only [List.length_singleton] at hk hk'
      omega
    · cases hf
  · obtain ⟨hnew, hpos, ⟨hat, hlen⟩ | ⟨hlo, hhi⟩⟩ := heapPatches_at hf
    · exact ⟨hpos, by omega, fun k hk hk' =>
        Or.inr (Or.inr (Or.inr (Or.inl ⟨hnew, Or.inl (by omega)⟩)))⟩
    · exact ⟨hpos, by omega, fun k hk hk' =>
        Or.inr (Or.inr (Or.inr (Or.inl ⟨hnew, Or.inr ⟨by omega, by omega⟩⟩)))⟩
  · simp only [List.mem_cons, List.not_mem_nil, or_false] at hf
    rcases hf with rfl | rfl
    · simp only [length_toLE]
      exact ⟨by omega, by omega,
        fun k hk hk' => Or.inr (Or.inr (Or.inr (Or.inr ⟨by omega, by omega⟩)))⟩
    · simp only [length_toLE]
      exact ⟨by omega, by omega,
        fun k hk hk' => Or.inr (Or.inr (Or.inr (Or.inr ⟨by omega, by omega⟩)))⟩

theorem headerPatches_in (hlen : 0x230 ≤ bs.length) :
    ∀ f ∈ headerPatches bs lowmem cmdlineSize initrdSize, f.1 + f.2.length ≤ bs.length :=
  fun _ hf => (headerPatches_at hf).2.1.trans hlen

/-- Fields beside the patched positions are read as before. -/
theorem slice_headerPatches (hlen : 0x230 ≤ bs.length) {k n : Nat} (hn : k + n ≤ bs.length)
    (hpos : 0 < n) (hout : ∀ i, k ≤ i → i < k + n → ¬ PatchedAt (bzProtocol bs) i) :
    slice (patchFields bs (headerPatches bs lowmem cmdlineSize initrdSize)) k n = slice bs k n := by
  refine slice_patchFields_outside (headerPatches_in hlen) (fun f hf => ?_) hn
  by_contra hmeet
  push Not at hmeet
  obtain ⟨hsome, -, hat⟩ := headerPatches_at hf
  rcases Nat.le_total f.1 k with hle | hle
  · exact hout k le_rfl (by omega) (hat k hle (by omega))
  · exact hout f.1 hle (by omega) (hat f.1 le_rfl (by omega))

end Positions

/-! ### The run -/

/-- The outputs for the header `bs`. -/
def bzArgs (args : LinuxbootArgs) (bs : List Byte) (lowmem : BitVec 32) : LinuxbootArgs :=
  args.parsed (bzLayout bs args.cmdlineSize) (bzInitrdAddr bs lowmem args.initrdSize)
    (bzSetupSects bs)

section Run

variable {s : Firmware} {args : LinuxbootArgs} {bs : List Byte}

/-- The patches before the heap leave the load flags. -/
theorem bzLoadflags_patched {protocol : BitVec 16} {r : BzimageLayout} (hlen : 0x230 ≤ bs.length) :
    bzLoadflags (patchFields bs (cmdlinePatches protocol r ++ loaderPatches protocol)) =
      bzLoadflags bs := by
  have hbeside : ∀ f ∈ cmdlinePatches protocol r ++ loaderPatches protocol,
      f.1 + f.2.length ≤ bs.length ∧ (0x211 + 1 ≤ f.1 ∨ f.1 + f.2.length ≤ 0x211) := by
    intro f hf
    rcases List.mem_append.mp hf with hf | hf
    · obtain ⟨-, ⟨-, hlo, hhi⟩ | ⟨-, hlo, hhi⟩⟩ := cmdlinePatches_at hf
      · exact ⟨by omega, by omega⟩
      · exact ⟨by omega, by omega⟩
    · unfold loaderPatches at hf
      split at hf
      · rw [List.mem_singleton] at hf
        subst hf
        exact ⟨by rw [List.length_singleton]; omega, by simp⟩
      · cases hf
  rw [bzLoadflags, bzLoadflags, slice_patchFields_outside (fun f hf => (hbeside f hf).1)
    (fun f hf => (hbeside f hf).2) (by omega)]

/-- The stores of `parse_bzimage`, in its order. -/
theorem storePatches_withBlock {protocol : BitVec 16} {r : BzimageLayout} {p : BitVec 32}
    (hlen : 0x230 ≤ bs.length) (hmax : bs.length ≤ 2 ^ 32) :
    (do storeCmdline p protocol r
        storeLoader p protocol
        storeHeap p protocol r) (s.withBlock p bs) =
      .ok () (s.withBlock p (patchFields bs (cmdlinePatches protocol r ++ loaderPatches protocol ++
        heapPatches protocol (bzLoadflags bs) r))) := by
  have hcmdline : ∀ f ∈ cmdlinePatches protocol r, f.1 + f.2.length ≤ bs.length := by
    intro f hf
    obtain ⟨-, ⟨-, -, hhi⟩ | ⟨-, -, hhi⟩⟩ := cmdlinePatches_at hf
    · omega
    · omega
  have hloader : ∀ f ∈ loaderPatches protocol, f.1 + f.2.length ≤ bs.length := by
    intro f hf
    unfold loaderPatches at hf
    split at hf
    · rw [List.mem_singleton] at hf
      subst hf
      rw [List.length_singleton]
      omega
    · cases hf
  have hlen₁ := length_patchFields hcmdline
  have hlen₂ : (patchFields bs (cmdlinePatches protocol r ++ loaderPatches protocol)).length =
      bs.length := length_patchFields fun f hf => (List.mem_append.mp hf).elim (hcmdline f)
        (hloader f)
  refine (StateRun.bind_of_ok (storeCmdline_withBlock hlen hmax)).trans
    ((StateRun.bind_of_ok (storeLoader_withBlock (by omega) (by omega))).trans ?_)
  rw [← patchFields_append, storeHeap_withBlock (by omega) (by omega), bzLoadflags_patched hlen,
    ← patchFields_append]

/-- Whatever is in memory behind the header, its fields decide. -/
theorem parseBzimage_withBlock (hlen : 0x230 ≤ bs.length) (hmax : bs.length ≤ 2 ^ 32)
    (h : IsBzimage bs) : parseBzimage args (s.withBlock args.setupAddr bs) =
      .ok (some (bzArgs args bs s.lowmem)) (s.withBlock args.setupAddr
        (patchFields bs (headerPatches bs s.lowmem args.cmdlineSize args.initrdSize))) := by
  have hmagic : BitVec.ofNat 32 (ofLE (slice bs 0x202 4)) = 0x53726448#32 := h
  have hstores := @storePatches_withBlock s bs (bzProtocol bs) (bzLayout bs args.cmdlineSize)
    args.setupAddr hlen hmax
  obtain ⟨⟨⟩, s₁, hcmdline, hrest⟩ := StateRun.bind_ok.mp hstores
  obtain ⟨⟨⟩, s₂, hloader, hheap⟩ := StateRun.bind_ok.mp hrest
  obtain ⟨fields, hdef⟩ : ∃ fields, fields =
      cmdlinePatches (bzProtocol bs) (bzLayout bs args.cmdlineSize) ++
        loaderPatches (bzProtocol bs) ++
        heapPatches (bzProtocol bs) (bzLoadflags bs) (bzLayout bs args.cmdlineSize) := ⟨_, rfl⟩
  rw [← hdef] at hheap
  have hin : ∀ f ∈ fields, f.1 + f.2.length ≤ bs.length := fun f hf =>
    @headerPatches_in bs s.lowmem args.cmdlineSize args.initrdSize hlen f
      (List.mem_append_left _ (hdef ▸ hf))
  have hfields : (patchFields bs fields).length = bs.length := length_patchFields hin
  have haddr : (patch (patchFields bs fields) 0x218
      (toLE 4 (bzInitrdAddr bs s.lowmem args.initrdSize).toNat)).length = bs.length := by
    rw [length_patch (by rw [length_toLE]; omega), hfields]
  have hpatches : patchFields bs (headerPatches bs s.lowmem args.cmdlineSize args.initrdSize) =
      patch (patch (patchFields bs fields) 0x218
        (toLE 4 (bzInitrdAddr bs s.lowmem args.initrdSize).toNat)) 0x21c
        (toLE 4 args.initrdSize.toNat) := by
    rw [headerPatches, ← hdef, patchFields_append]
    rfl
  have haddrRun : stlP (args.setupAddr + 0x218#32) (bzInitrdAddr bs s.lowmem args.initrdSize)
      (s.withBlock args.setupAddr (patchFields bs fields)) = .ok () (s.withBlock args.setupAddr
        (patch (patchFields bs fields) 0x218
          (toLE 4 (bzInitrdAddr bs s.lowmem args.initrdSize).toNat))) :=
    poke_withBlock s args.setupAddr (by rw [length_toLE]; omega) (by omega)
  have hsizeRun : stlP (args.setupAddr + 0x21c#32) args.initrdSize
      (s.withBlock args.setupAddr (patch (patchFields bs fields) 0x218
        (toLE 4 (bzInitrdAddr bs s.lowmem args.initrdSize).toNat))) =
      .ok () (s.withBlock args.setupAddr (patchFields bs
        (headerPatches bs s.lowmem args.cmdlineSize args.initrdSize))) := by
    rw [hpatches]
    exact poke_withBlock s args.setupAddr (by rw [length_toLE]; omega) (by omega)
  have hsects : slice (patchFields bs (headerPatches bs s.lowmem args.cmdlineSize args.initrdSize))
      0x1f1 1 = slice bs 0x1f1 1 := by
    refine slice_headerPatches hlen (by omega) (by decide) fun i hlo hhi hat => ?_
    unfold PatchedAt at hat
    omega
  refine (StateRun.bind_of_ok (ldlP_withBlock (by omega) hmax)).trans ?_
  rw [if_pos hmagic]
  refine (StateRun.bind_of_ok (lduwP_withBlock (by omega) hmax)).trans
    ((StateRun.bind_of_ok (ldubP_withBlock (by omega) hmax)).trans
      ((StateRun.bind_of_ok (initrdMaxOf_withBlock hlen hmax)).trans
        ((StateRun.bind_of_ok (StateRun.get_apply _)).trans
          ((StateRun.bind_of_ok hcmdline).trans ((StateRun.bind_of_ok hloader).trans
            ((StateRun.bind_of_ok hheap).trans ((StateRun.bind_of_ok haddrRun).trans
              ((StateRun.bind_of_ok hsizeRun).trans ?_))))))))
  have hall :=
    length_patchFields (@headerPatches_in bs s.lowmem args.cmdlineSize args.initrdSize hlen)
  refine (StateRun.bind_of_ok (ldubP_withBlock (by omega) (by omega))).trans ?_
  rw [hsects]
  rfl

theorem parseBzimage_other (hlen : 0x230 ≤ bs.length) (hmax : bs.length ≤ 2 ^ 32)
    (h : ¬ IsBzimage bs) : parseBzimage args (s.withBlock args.setupAddr bs) =
      .ok none (s.withBlock args.setupAddr bs) := by
  have hmagic : ¬ BitVec.ofNat 32 (ofLE (slice bs 0x202 4)) = 0x53726448#32 := h
  refine (StateRun.bind_of_ok (ldlP_withBlock (by omega) hmax)).trans ?_
  rw [if_neg hmagic]
  rfl

/-- The header that `parse_bzimage` reads. -/
def headerAt (m : Mem) (header : BitVec 32) : List Byte := load m header 0x230

theorem withBlock_headerAt (s : Firmware) (p : BitVec 32) :
    s.withBlock p (headerAt s.mem p) = s := by
  rw [Firmware.withBlock, headerAt, store_load]

theorem length_headerAt (m : Mem) (p : BitVec 32) : (headerAt m p).length = 0x230 :=
  length_load m p 0x230

theorem parseBzimage_some (h : IsBzimage (headerAt s.mem args.setupAddr)) :
    parseBzimage args s = .ok (some (bzArgs args (headerAt s.mem args.setupAddr) s.lowmem))
      (s.withBlock args.setupAddr (patchFields (headerAt s.mem args.setupAddr)
        (headerPatches (headerAt s.mem args.setupAddr) s.lowmem args.cmdlineSize
          args.initrdSize))) := by
  have hrun := @parseBzimage_withBlock s args _ (length_headerAt _ _).ge
    (by rw [length_headerAt]; decide) h
  rwa [withBlock_headerAt] at hrun

theorem parseBzimage_none (h : ¬ IsBzimage (headerAt s.mem args.setupAddr)) :
    parseBzimage args s = .ok none s := by
  have hrun := @parseBzimage_other s args _ (length_headerAt _ _).ge
    (by rw [length_headerAt]; decide) h
  rwa [withBlock_headerAt] at hrun

/-- What a run that returned true found and did. -/
theorem parseBzimage_eq_some {args' : LinuxbootArgs} {s' : Firmware}
    (h : parseBzimage args s = .ok (some args') s') :
    IsBzimage (headerAt s.mem args.setupAddr) ∧
      args' = bzArgs args (headerAt s.mem args.setupAddr) s.lowmem ∧
      s' = s.withBlock args.setupAddr (patchFields (headerAt s.mem args.setupAddr)
        (headerPatches (headerAt s.mem args.setupAddr) s.lowmem args.cmdlineSize
          args.initrdSize)) := by
  by_cases hmagic : IsBzimage (headerAt s.mem args.setupAddr)
  · rw [parseBzimage_some hmagic] at h
    cases h
    exact ⟨hmagic, rfl, rfl⟩
  · rw [parseBzimage_none hmagic] at h
    cases h

end Run

/-! ### A second run -/

section Again

variable {bs : List Byte} {lowmem cmdlineSize initrdSize : BitVec 32}

/-- The header after a run. -/
def patched (bs : List Byte) (lowmem cmdlineSize initrdSize : BitVec 32) : List Byte :=
  patchFields bs (headerPatches bs lowmem cmdlineSize initrdSize)

theorem length_patched (hlen : 0x230 ≤ bs.length) :
    (patched bs lowmem cmdlineSize initrdSize).length = bs.length :=
  length_patchFields (headerPatches_in hlen)

theorem isBzimage_patched (hlen : 0x230 ≤ bs.length) :
    IsBzimage (patched bs lowmem cmdlineSize initrdSize) ↔ IsBzimage bs := by
  rw [IsBzimage, IsBzimage, patched, slice_headerPatches hlen (by omega) (by decide)]
  intro i hlo hhi hat
  unfold PatchedAt at hat
  omega

theorem bzProtocol_patched (hlen : 0x230 ≤ bs.length) :
    bzProtocol (patched bs lowmem cmdlineSize initrdSize) = bzProtocol bs := by
  rw [bzProtocol, bzProtocol, patched, slice_headerPatches hlen (by omega) (by decide)]
  intro i hlo hhi hat
  unfold PatchedAt at hat
  omega

theorem bzSetupSects_patched (hlen : 0x230 ≤ bs.length) :
    bzSetupSects (patched bs lowmem cmdlineSize initrdSize) = bzSetupSects bs := by
  rw [bzSetupSects, bzSetupSects, patched, slice_headerPatches hlen (by omega) (by decide)]
  intro i hlo hhi hat
  unfold PatchedAt at hat
  omega

theorem bzInitrdMax_patched (hlen : 0x230 ≤ bs.length) :
    bzInitrdMax (patched bs lowmem cmdlineSize initrdSize) = bzInitrdMax bs := by
  rw [bzInitrdMax, bzInitrdMax, bzProtocol_patched hlen, patched,
    slice_headerPatches hlen (by omega) (by decide)]
  intro i hlo hhi hat
  unfold PatchedAt at hat
  omega

/-- The patches behind the load flags leave them. -/
theorem slice_loadflags {protocol : BitVec 16} {loadflags : Byte} {r : BzimageLayout}
    (hlen : 0x230 ≤ bs.length) (v : BitVec 32) :
    slice (patchFields bs (heapPatches protocol loadflags r ++
      [(0x218, toLE 4 v.toNat), (0x21c, toLE 4 initrdSize.toNat)])) 0x211 1 =
      if protocol ≥ 0x201#16 then [loadflags ||| 0x80#8] else slice bs 0x211 1 := by
  rw [heapPatches]
  split
  · have hfit : 0x211 + [loadflags ||| 0x80#8].length ≤ bs.length := by
      rw [List.length_singleton]
      omega
    have hone : (patch bs 0x211 [loadflags ||| 0x80#8]).length = bs.length := length_patch hfit
    have hself : slice (patch bs 0x211 [loadflags ||| 0x80#8]) 0x211 1 = [loadflags ||| 0x80#8] :=
      slice_patch_self hfit
    refine Eq.trans ?_ hself
    change slice (patchFields (patch bs 0x211 [loadflags ||| 0x80#8])
      [(0x224, toLE 2 (r.cmdlineAddr - r.realAddr - 0x200#32).toNat), (0x218, toLE 4 v.toNat),
        (0x21c, toLE 4 initrdSize.toNat)]) 0x211 1 = _
    refine slice_patchFields_outside ?_ ?_ (by omega)
    · simp only [List.mem_cons, List.not_mem_nil, or_false, forall_eq_or_imp, forall_eq,
        length_toLE]
      omega
    · simp
  · refine slice_patchFields_outside ?_ ?_ (by omega)
    · simp only [List.nil_append, List.mem_cons, List.not_mem_nil, or_false, forall_eq_or_imp,
        forall_eq, length_toLE]
      omega
    · simp

/-- Only the bit that allows the heap may be new in the load flags. -/
theorem bzLoadflags_headerPatches (hlen : 0x230 ≤ bs.length) :
    bzLoadflags (patched bs lowmem cmdlineSize initrdSize) =
      if bzProtocol bs ≥ 0x201#16 then bzLoadflags bs ||| 0x80#8 else bzLoadflags bs := by
  have hbefore := @bzLoadflags_patched bs (bzProtocol bs) (bzLayout bs cmdlineSize) hlen
  have hlen' : (patchFields bs (cmdlinePatches (bzProtocol bs) (bzLayout bs cmdlineSize) ++
      loaderPatches (bzProtocol bs))).length = bs.length :=
    length_patchFields fun f hf => @headerPatches_in bs lowmem cmdlineSize initrdSize hlen f
      (List.mem_append_left _ (List.mem_append_left _ hf))
  rw [bzLoadflags, patched, headerPatches, List.append_assoc, patchFields_append,
    slice_loadflags (by omega)]
  split
  · simp [ofLE]
  · exact hbefore

theorem bzLayout_patched (hlen : 0x230 ≤ bs.length) :
    bzLayout (patched bs lowmem cmdlineSize initrdSize) cmdlineSize = bzLayout bs cmdlineSize := by
  have hbit : ∀ v : Byte, (v ||| 0x80#8) &&& 0x01#8 = v &&& 0x01#8 := by decide
  rw [bzLayout, bzLayout, bzProtocol_patched hlen, bzLoadflags_headerPatches hlen]
  split
  · simp only [bzimageLayout, hbit]
  · rfl

theorem headerPatches_patched (hlen : 0x230 ≤ bs.length) :
    headerPatches (patched bs lowmem cmdlineSize initrdSize) lowmem cmdlineSize initrdSize =
      headerPatches bs lowmem cmdlineSize initrdSize := by
  have hheap : heapPatches (bzProtocol bs)
      (bzLoadflags (patched bs lowmem cmdlineSize initrdSize)) (bzLayout bs cmdlineSize) =
      heapPatches (bzProtocol bs) (bzLoadflags bs) (bzLayout bs cmdlineSize) := by
    rw [bzLoadflags_headerPatches hlen, heapPatches, heapPatches]
    split
    · rw [BitVec.or_assoc, BitVec.or_self]
    · rfl
  rw [headerPatches, headerPatches, bzProtocol_patched hlen, bzLayout_patched hlen, hheap,
    bzInitrdAddr, bzInitrdAddr, bzInitrdMax_patched hlen]

theorem patched_patched (hlen : 0x230 ≤ bs.length) :
    patched (patched bs lowmem cmdlineSize initrdSize) lowmem cmdlineSize initrdSize =
      patched bs lowmem cmdlineSize initrdSize := by
  rw [patched, headerPatches_patched hlen]
  exact patchFields_patchFields (headerPatches_in hlen)

end Again

/-- The bytes of the header that differ after a run. -/
theorem patchedAt_of_ne {m : Mem} {p : BitVec 32} {lowmem cmdlineSize initrdSize : BitVec 32}
    {a : BitVec 32}
    (ha : store m p (patched (headerAt m p) lowmem cmdlineSize initrdSize) a ≠ m a) :
    PatchedAt (bzProtocol (headerAt m p)) (offset p a) := by
  have hlen := length_headerAt m p
  have hpatchedLen := @length_patched _ lowmem cmdlineSize initrdSize hlen.ge
  have hin := @headerPatches_in _ lowmem cmdlineSize initrdSize hlen.ge
  by_cases hwithin : Within p (patched (headerAt m p) lowmem cmdlineSize initrdSize).length a
  · have hi : offset p a < (headerAt m p).length := hpatchedLen ▸ hwithin
    have hbefore : (headerAt m p)[offset p a] = m a :=
      (getElem_load m p hi).trans (congrArg m (add_offset p a))
    rw [store_of_within m hwithin, ← hbefore] at ha
    by_contra hout
    refine ha (getElem_patchFields_outside hin (fun f hf => ?_) hi hwithin)
    by_contra hmeet
    push Not at hmeet
    exact hout ((headerPatches_at hf).2.2 _ hmeet.1 hmeet.2)
  · exact absurd (store_of_not_within m hwithin) ha

theorem bzLoadflags_headerAt (m : Mem) (p : BitVec 32) :
    bzLoadflags (headerAt m p) = m (p + 0x211#32) := by
  rw [bzLoadflags, headerAt, slice_load m p (by decide)]
  simp [load, ofLE]

theorem headerAt_store (m : Mem) (p : BitVec 32) {bs : List Byte} (hlen : bs.length = 0x230) :
    headerAt (store m p bs) p = bs := by
  rw [headerAt, ← hlen]
  exact load_store m p (by rw [hlen]; decide)

/-- A run that returns false changes nothing. A run that returns true changes
only patched positions of the header, keeps the input sizes, and can be
repeated without effect. -/
theorem parseBzimage_frame (args : LinuxbootArgs) (s : Firmware) :
    ∃ parsed s', parseBzimage args s = .ok parsed s' ∧ (parsed = none → s' = s) ∧
      ∀ args', parsed = some args' →
        (∀ a, s'.mem a ≠ s.mem a →
          PatchedAt (bzProtocol (headerAt s.mem args.setupAddr)) (offset args.setupAddr a)) ∧
        s'.mem (args.setupAddr + 0x211#32) &&& 0x7f#8 =
          s.mem (args.setupAddr + 0x211#32) &&& 0x7f#8 ∧
        s' = { s with mem := s'.mem } ∧
        args'.setupAddr = args.setupAddr ∧ args'.cmdlineSize = args.cmdlineSize ∧
        args'.vmlinuzSize = args.vmlinuzSize ∧ args'.initrdSize = args.initrdSize ∧
        parseBzimage args' s' = .ok (some args') s' := by
  by_cases hmagic : IsBzimage (headerAt s.mem args.setupAddr)
  · obtain ⟨bs, hbs⟩ : ∃ bs, bs = headerAt s.mem args.setupAddr := ⟨_, rfl⟩
    have hrun := parseBzimage_some hmagic
    rw [← hbs] at hmagic hrun ⊢
    have hlen : bs.length = 0x230 := by rw [hbs, length_headerAt]
    have hpatchedLen := @length_patched bs s.lowmem args.cmdlineSize args.initrdSize hlen.ge
    refine ⟨_, _, hrun, by simp, fun args' hargs => ?_⟩
    cases hargs
    refine ⟨?_, ?_, rfl, rfl, rfl, rfl, rfl, ?_⟩
    · intro a ha
      change store s.mem args.setupAddr
        (patched bs s.lowmem args.cmdlineSize args.initrdSize) a ≠ s.mem a at ha
      rw [hbs] at ha ⊢
      exact patchedAt_of_ne ha
    · have hbit : ∀ v : Byte, (v ||| 0x80#8) &&& 0x7f#8 = v &&& 0x7f#8 := by decide
      have hflags := @bzLoadflags_headerPatches bs s.lowmem args.cmdlineSize args.initrdSize hlen.ge
      rw [← headerAt_store s.mem args.setupAddr (hpatchedLen.trans hlen), bzLoadflags_headerAt,
        hbs, bzLoadflags_headerAt, ← hbs] at hflags
      change store s.mem args.setupAddr (patched bs s.lowmem args.cmdlineSize args.initrdSize)
        (args.setupAddr + 0x211#32) &&& 0x7f#8 = _
      rw [hflags]
      split
      · exact hbit _
      · rfl
    · have hagain := @parseBzimage_withBlock s (bzArgs args bs s.lowmem)
        (patched bs s.lowmem args.cmdlineSize args.initrdSize) (by omega) (by omega)
        ((isBzimage_patched hlen.ge).mpr hmagic)
      have hsame : bzArgs (bzArgs args bs s.lowmem)
          (patched bs s.lowmem args.cmdlineSize args.initrdSize) s.lowmem =
          bzArgs args bs s.lowmem := by
        have hlayout := @bzLayout_patched bs s.lowmem args.cmdlineSize args.initrdSize hlen.ge
        have hinitrd : bzInitrdAddr (patched bs s.lowmem args.cmdlineSize args.initrdSize) s.lowmem
            args.initrdSize = bzInitrdAddr bs s.lowmem args.initrdSize := by
          rw [bzInitrdAddr, bzInitrdAddr, bzInitrdMax_patched hlen.ge]
        change args.parsed (bzLayout (patched _ _ _ _) args.cmdlineSize)
          (bzInitrdAddr (patched _ _ _ _) s.lowmem args.initrdSize)
          (bzSetupSects (patched _ _ _ _)) = args.parsed _ _ _
        rw [hlayout, hinitrd, bzSetupSects_patched hlen.ge]
      have hbytes := @patched_patched bs s.lowmem args.cmdlineSize args.initrdSize hlen.ge
      rw [hsame] at hagain
      change _ = EStateM.Result.ok _ (s.withBlock args.setupAddr
        (patched (patched bs s.lowmem args.cmdlineSize args.initrdSize) s.lowmem args.cmdlineSize
          args.initrdSize)) at hagain
      rwa [hbytes] at hagain
  · exact ⟨none, s, parseBzimage_none hmagic, fun _ => rfl, by simp⟩

end Qboot
