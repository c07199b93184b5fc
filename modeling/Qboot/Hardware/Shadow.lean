import Qboot.Hardware.HostBridge
import Qboot.Hardware.Pic

/-!
`setup_hw` of hwsetup.c: the firmware runs from the ROM at the end of memory and
copies itself to the memory below 1 MiB. The host bridge decides there, for
reads and for writes, whether memory answers or the ROM does.
-/

namespace Qboot

open Bytes ByteMemory

/-! ### Memory behind the host bridge -/

/-- PAM0 of the bridge. The other six registers come behind it. -/
def HostBridge.pam0 : HostBridge → BitVec 32
  | .i440fx => 0x59#32
  | .q35 => 0x90#32

/-- The PAM register of an address from 0xc0000 to 0xfffff and the place of its
bits there. Each half of a register is for 16 KiB, the upper half of PAM0 for
the last 64 KiB. Bit 0 is for reads, bit 1 for writes. -/
def pamField (a : BitVec 32) : Nat × Nat :=
  if 0xf0000 ≤ a.toNat then (0, 4)
  else
    let block := (a.toNat - 0xc0000) / 0x4000
    (1 + block / 2, 4 * (block % 2))

def pamBit (space : Memory 24) (b : HostBridge) (bit : Nat) (a : BitVec 32) : Bool :=
  let (i, shift) := pamField a
  (space (configByte 0#16 (registerOf 1 (b.pam0 + BitVec.ofNat 32 i)))).getLsbD (shift + bit)

/-- The machine without its processor. -/
structure Chipset where
  config : ConfigPorts
  ram : Memory 32
  /-- The ROM, which answers where memory does not. -/
  rom : Memory 32
  pics : PicPair

/-- Addresses from 0xc0000 to 0xfffff. -/
def InPam (a : BitVec 32) : Prop := 0xc0000 ≤ a.toNat ∧ a.toNat < 0x100000

instance (a : BitVec 32) : Decidable (InPam a) := by
  unfold InPam
  infer_instance

namespace Chipset

variable (s : Chipset)

/-- Memory answers reads (`bit = 0`) or writes (`bit = 1`) of `a`. Beside the
addresses of the PAM registers it does so below the ROM. -/
def toRam (bit : Nat) (a : BitVec 32) : Bool :=
  if InPam a then
    match hostBridge s.config.space with
    | some b => pamBit s.config.space b bit a
    | none => false
  else a.toNat < 0xffff0000

def readByte (a : BitVec 32) : Byte := if s.toRam 0 a then s.ram a else s.rom a

def writeByte (a : BitVec 32) (v : Byte) : Chipset :=
  if s.toRam 1 a then { s with ram := store s.ram a [v] } else s

def memcpy (dest src : BitVec 32) (n : Nat) : Chipset :=
  (List.range n).foldl
    (fun s i => s.writeByte (dest + BitVec.ofNat 32 i) (s.readByte (src + BitVec.ofNat 32 i))) s

end Chipset

/-! ### The image -/

def stext : BitVec 32 := 0xf0000#32
def sinit : BitVec 32 := 0xfff80#32
def einit : BitVec 32 := 0x100000#32

/-- The image between `stext` and `einit`, as flat.lds lays it out, and the
address of `rom_check`. -/
structure Image where
  edata : BitVec 32
  romCheck : BitVec 32
  edata_le : edata.toNat ≤ sinit.toNat
  stext_le : stext.toNat ≤ romCheck.toNat
  romCheck_lt : romCheck.toNat < edata.toNat

/-- Bytes of the image that `setup_hw` copies. -/
def Image.Holds (image : Image) (a : BitVec 32) : Prop :=
  stext.toNat ≤ a.toNat ∧ a.toNat < image.edata.toNat ∨
    sinit.toNat ≤ a.toNat ∧ a.toNat < einit.toNat

instance (image : Image) (a : BitVec 32) : Decidable (image.Holds a) := by
  unfold Image.Holds
  infer_instance

/-! ### The setup -/

namespace Chipset

variable (s : Chipset)

/-- `setup_pam` -/
def setupPam (bdf : BitVec 16) (pambase : BitVec 32) : Chipset :=
  let config := (List.range 6).foldl
    (fun h i => h.writeb bdf (pambase + 1#32 + BitVec.ofNat 32 i) 0x33#8) s.config
  -- Make ram from 0xf0000-0x100000 read-write
  { s with config := config.writeb bdf pambase 0x30#8 }

/-- The part of `setup_hw` for every host bridge it knows. -/
def shadowBios (image : Image) (bdf : BitVec 16) (pambase : BitVec 32) : Chipset :=
  let biosStart := stext + 0xfff00000#32
  let initStart := sinit + 0xfff00000#32
  -- Make ram from 0xc0000-0xf0000 read-write
  let romCheckValue := s.readByte image.romCheck
  let s := s.writeByte image.romCheck (romCheckValue + 1#8)
  let s := if s.readByte image.romCheck = romCheckValue then s.setupPam bdf pambase else s
  -- Shadow BIOS; we're still running from 0xffff0000
  let s := s.memcpy stext biosStart (image.edata - stext).toNat
  let s := s.memcpy sinit initStart (einit - sinit).toNat
  { s with pics := setupPic s.pics }

/-- `setup_hw` -/
def setupHw (image : Image) : Bool × Chipset :=
  let bdf := 0#16
  let (id, config) := s.config.readl bdf 0#32
  if id = PCI_VENDOR_ID_INTEL ||| PCI_DEVICE_ID_INTEL_82441 <<< 16 then
    (true, { s with config := config.setupPiix.setupPiixPm }.shadowBios image bdf
      HostBridge.i440fx.pam0)
  else if id = PCI_VENDOR_ID_INTEL ||| PCI_DEVICE_ID_INTEL_Q35_MCH <<< 16 then
    (true, { s with config := config.setupIch9.setupIch9Pm }.shadowBios image bdf
      HostBridge.q35.pam0)
  else (false, { s with config := config })

end Chipset

/-! ### One byte -/

section Byte

variable {s : Chipset} {a : BitVec 32}

theorem readByte_ram (h : s.toRam 0 a = true) : s.readByte a = s.ram a := if_pos h

theorem readByte_rom (h : s.toRam 0 a = false) : s.readByte a = s.rom a :=
  if_neg (by rw [h]; exact Bool.false_ne_true)

theorem writeByte_ram (h : s.toRam 1 a = true) (v : Byte) :
    s.writeByte a v = { s with ram := store s.ram a [v] } := if_pos h

theorem writeByte_rom (h : s.toRam 1 a = false) (v : Byte) : s.writeByte a v = s :=
  if_neg (by rw [h]; exact Bool.false_ne_true)

/-- The ROM itself is not in the reach of the PAM registers. -/
theorem toRam_rom (s : Chipset) (bit : Nat) (h : 0xffff0000 ≤ a.toNat) : s.toRam bit a = false := by
  have hpam : ¬ InPam a := by
    unfold InPam
    omega
  rw [Chipset.toRam, if_neg hpam, decide_eq_false_iff_not]
  omega

end Byte

/-! ### Copies out of the ROM -/

/-- A copy out of the ROM to where memory takes writes. -/
theorem memcpy_rom {s : Chipset} {dest src : BitVec 32} {n : Nat} (hn : n ≤ 2 ^ 32)
    (hdest : ∀ i < n, s.toRam 1 (dest + BitVec.ofNat 32 i) = true)
    (hsrc : ∀ i < n, s.toRam 0 (src + BitVec.ofNat 32 i) = false) :
    s.memcpy dest src n = { s with ram := store s.ram dest (load s.rom src n) } := by
  induction n with
  | zero =>
    rw [load_zero, store_nil]
    rfl
  | succ n ih =>
    have hbefore := ih (by omega) (fun i hi => hdest i (by omega)) fun i hi => hsrc i (by omega)
    have hstep : s.memcpy dest src (n + 1) =
        (s.memcpy dest src n).writeByte (dest + BitVec.ofNat 32 n)
          ((s.memcpy dest src n).readByte (src + BitVec.ofNat 32 n)) := by
      rw [Chipset.memcpy, List.range_succ, List.foldl_append]
      rfl
    have hread : ({ s with ram := store s.ram dest (load s.rom src n) } : Chipset).toRam 0
        (src + BitVec.ofNat 32 n) = false := hsrc n (by omega)
    have hwrite : ({ s with ram := store s.ram dest (load s.rom src n) } : Chipset).toRam 1
        (dest + BitVec.ofNat 32 n) = true := hdest n (by omega)
    have hload : load s.rom src (n + 1) =
        load s.rom src n ++ [s.rom (src + BitVec.ofNat 32 n)] := by
      rw [load_append]
      simp [load]
    have hlen : (load s.rom src n).length + [s.rom (src + BitVec.ofNat 32 n)].length ≤ 2 ^ 32 := by
      rw [length_load]
      exact hn
    have happend := store_append s.ram dest hlen
    rw [length_load] at happend
    rw [hstep, hbefore, readByte_rom hread, writeByte_ram hwrite, hload, ← happend]

/-! ### PAM registers -/

/-- What `setup_pam` writes, in order. -/
def HostBridge.pamBlocks (b : HostBridge) : List (BitVec 24 × List Byte) :=
  (List.range 6).map (fun i => (b.pam0.setWidth 24 + 1#24 + BitVec.ofNat 24 i, [0x33#8])) ++
    [(b.pam0.setWidth 24, [0x30#8])]

theorem setupPam_space (s : Chipset) (b : HostBridge) :
    (s.setupPam 0#16 b.pam0).config.space = storeBlocks s.config.space b.pamBlocks := by
  have hrange : List.range 6 = [0, 1, 2, 3, 4, 5] := rfl
  simp only [Chipset.setupPam, hrange, List.foldl_cons, List.foldl_nil, ConfigPorts.writeb_space]
  cases b <;> rfl

theorem pamField_cases {a : BitVec 32} (ha : InPam a) : ∃ i < 7, ∃ shift,
    pamField a = (i, shift) ∧ (i = 0 ∧ shift = 4 ∨ 0 < i ∧ (shift = 0 ∨ shift = 4)) := by
  obtain ⟨hlow, hhigh⟩ := ha
  rw [pamField]
  split
  · exact ⟨0, by omega, 4, rfl, by omega⟩
  · exact ⟨_, by omega, _, rfl, by omega⟩

theorem pamField_fseg {a : BitVec 32} (ha : stext.toNat ≤ a.toNat) : pamField a = (0, 4) :=
  if_pos ha

theorem pamBlocks_value (b : HostBridge) (space : Memory 24) {i : Nat} (hi : i < 7) :
    storeBlocks space b.pamBlocks (configByte 0#16 (registerOf 1 (b.pam0 + BitVec.ofNat 32 i))) =
      if i = 0 then 0x30#8 else 0x33#8 := by
  cases b <;> interval_cases i <;> rfl

/-- All of the memory is open afterwards, in both directions. -/
theorem pamBit_open (b : HostBridge) (space : Memory 24) {bit : Nat} (hbit : bit < 2)
    {a : BitVec 32} (ha : InPam a) : pamBit (storeBlocks space b.pamBlocks) b bit a = true := by
  obtain ⟨i, hi, shift, hfield, hcases⟩ := pamField_cases ha
  rw [pamBit, hfield]
  simp only
  rw [pamBlocks_value b space hi]
  rcases hcases with ⟨rfl, rfl⟩ | ⟨hpos, rfl | rfl⟩
  · interval_cases bit <;> rfl
  · rw [if_neg hpos.ne']
    interval_cases bit <;> rfl
  · rw [if_neg hpos.ne']
    interval_cases bit <;> rfl

/-- The registers of the host bridge. -/
theorem configByte_host (r : BitVec 8) : (configByte 0#16 r).toNat < 0x100 := by
  revert r
  decide +kernel

theorem toRam_congr {s t : Chipset}
    (h : ∀ a : BitVec 24, a.toNat < 0x100 → t.config.space a = s.config.space a) (bit : Nat)
    (a : BitVec 32) : t.toRam bit a = s.toRam bit a := by
  have hbridge := hostBridge_congr fun a (ha : a.toNat < 4) => h a (by omega)
  have hpam (b : HostBridge) : pamBit t.config.space b bit a = pamBit s.config.space b bit a := by
    rw [pamBit, pamBit]
    simp only
    rw [h _ (configByte_host _)]
  simp only [Chipset.toRam, hbridge, hpam]

/-- The registers do not reach the ids. -/
theorem pamBlocks_ids (b : HostBridge) (space : Memory 24) {a : BitVec 24} (ha : a.toNat < 4) :
    storeBlocks space b.pamBlocks a = space a := by
  apply storeBlocks_outside
  have hblocks : ∀ c ∈ b.pamBlocks, 4 ≤ c.1.toNat ∧ c.1.toNat + c.2.length ≤ 2 ^ 24 := by
    cases b <;> decide
  intro c hc
  obtain ⟨hlow, hend⟩ := hblocks c hc
  rw [within_iff hend]
  omega

theorem toRam_setupPam {s : Chipset} {b : HostBridge} (hb : hostBridge s.config.space = some b)
    {bit : Nat} (hbit : bit < 2) {a : BitVec 32} :
    (s.setupPam 0#16 b.pam0).toRam bit a = (decide (InPam a) || s.toRam bit a) := by
  have hb' : hostBridge (s.setupPam 0#16 b.pam0).config.space = some b := by
    rw [setupPam_space, hostBridge_congr fun a ha => pamBlocks_ids b _ ha, hb]
  by_cases ha : InPam a
  · rw [Chipset.toRam, if_pos ha, hb', decide_eq_true ha]
    simp only [setupPam_space, Bool.true_or]
    exact pamBit_open b _ hbit ha
  · rw [Chipset.toRam, if_neg ha, Chipset.toRam, if_neg ha, decide_eq_false ha, Bool.false_or]

/-! ### The check of the F-segment -/

/-- Memory answers reads and writes of the F-segment. -/
def Chipset.FsegOpen (s : Chipset) : Prop := s.toRam 0 stext = true ∧ s.toRam 1 stext = true

instance (s : Chipset) : Decidable s.FsegOpen := by
  unfold Chipset.FsegOpen
  infer_instance

/-- One register is for the whole F-segment. -/
theorem toRam_fseg (s : Chipset) (bit : Nat) {a : BitVec 32} (hlow : stext.toNat ≤ a.toNat)
    (hhigh : a.toNat < einit.toNat) : s.toRam bit a = s.toRam bit stext := by
  have ha : InPam a := ⟨(by decide : 0xc0000 ≤ stext.toNat).trans hlow, hhigh⟩
  have hstext : InPam stext := by decide
  rw [Chipset.toRam, Chipset.toRam, if_pos ha, if_pos hstext]
  simp only [pamBit, pamField_fseg hlow, pamField_fseg le_rfl]

/-- `rom_check` keeps its value unless memory answers both the write and the
read. -/
theorem romCheck_value (s : Chipset) {a : BitVec 32} (hlow : stext.toNat ≤ a.toNat)
    (hhigh : a.toNat < einit.toNat) :
    (s.writeByte a (s.readByte a + 1#8)).readByte a = s.readByte a ↔ ¬ s.FsegOpen := by
  rw [Chipset.FsegOpen, ← toRam_fseg s 0 hlow hhigh, ← toRam_fseg s 1 hlow hhigh]
  cases hwrite : s.toRam 1 a with
  | false =>
    rw [writeByte_rom hwrite]
    simp
  | true =>
    cases hread : s.toRam 0 a with
    | false =>
      have hread' : (s.writeByte a (s.readByte a + 1#8)).toRam 0 a = false := by
        rw [writeByte_ram hwrite]
        exact hread
      rw [readByte_rom hread', readByte_rom hread, writeByte_ram hwrite]
      simp
    | true =>
      have hread' : (s.writeByte a (s.readByte a + 1#8)).toRam 0 a = true := by
        rw [writeByte_ram hwrite]
        exact hread
      rw [readByte_ram hread', readByte_ram hread, writeByte_ram hwrite]
      simp [store_singleton]

/-! ### The copy -/

/-- The machine after the shadow copy: the ROM's bytes are in memory wherever
the image has any, and nothing else in memory has changed. -/
structure ShadowCopy (image : Image) (s t : Chipset) : Prop where
  rom : t.rom = s.rom
  copied : ∀ a, image.Holds a → t.ram a = s.rom (a + 0xfff00000#32)
  kept : ∀ a, ¬ image.Holds a → t.ram a = s.ram a

section ShadowBios

variable {image : Image} {s : Chipset} {b : HostBridge}

theorem Image.edata_bounds (image : Image) :
    stext.toNat < image.edata.toNat ∧ image.edata.toNat ≤ sinit.toNat := by
  have hstext := image.stext_le
  have hcheck := image.romCheck_lt
  exact ⟨by omega, image.edata_le⟩

/-- The bytes of a part of the image. -/
theorem store_image (m rom : Memory 32) {first last : BitVec 32} (hle : first.toNat ≤ last.toNat)
    (a : BitVec 32) :
    store m first (load rom (first + 0xfff00000#32) (last.toNat - first.toNat)) a =
      if first.toNat ≤ a.toNat ∧ a.toNat < last.toNat then rom (a + 0xfff00000#32) else m a := by
  have hwithin := @within_iff 32 first a (last.toNat - first.toNat) (by omega)
  split
  · rename_i hin
    have hoff : offset first a < last.toNat - first.toNat := hwithin.mpr (by omega)
    have hlen : offset first a <
        (load rom (first + 0xfff00000#32) (last.toNat - first.toNat)).length := by
      rw [length_load]
      exact hoff
    have haddr : first + 0xfff00000#32 + BitVec.ofNat 32 (offset first a) =
        a + 0xfff00000#32 := by
      rw [BitVec.add_assoc, BitVec.add_comm (0xfff00000#32), ← BitVec.add_assoc, add_offset]
    rw [store_of_within m hlen, getElem_load, haddr]
  · rename_i hout
    apply store_of_not_within
    rw [length_load, hwithin]
    omega

/-- A part of the image is copied from the ROM. -/
theorem memcpy_image (h1 : ∀ a : BitVec 32, stext.toNat ≤ a.toNat → a.toNat < einit.toNat →
    s.toRam 1 a = true) {first last : BitVec 32} (hfirst : stext.toNat ≤ first.toNat)
    (hle : first.toNat ≤ last.toNat) (hlast : last.toNat ≤ einit.toNat) : ∃ t,
    s.memcpy first (first + 0xfff00000#32) (last - first).toNat = t ∧ t.config = s.config ∧
      t.rom = s.rom ∧ t.pics = s.pics ∧
      ∀ a, t.ram a = if first.toNat ≤ a.toNat ∧ a.toNat < last.toNat
        then s.rom (a + 0xfff00000#32) else s.ram a := by
  have hstext : stext.toNat = 0xf0000 := rfl
  have heinit : einit.toNat = 0x100000 := rfl
  have hcopy : s.memcpy first (first + 0xfff00000#32) (last.toNat - first.toNat) =
      { s with ram := store s.ram first (load s.rom (first + 0xfff00000#32)
        (last.toNat - first.toNat)) } := by
    apply memcpy_rom (by omega)
    · intro i hi
      have hnat : (first + BitVec.ofNat 32 i).toNat = first.toNat + i := by
        rw [BitVec.toNat_add, BitVec.toNat_ofNat]
        omega
      apply h1
      · omega
      · omega
    · intro i hi
      apply toRam_rom
      rw [BitVec.toNat_add, BitVec.toNat_add, BitVec.toNat_ofNat]
      change 0xffff0000 ≤ ((first.toNat + 0xfff00000) % 2 ^ 32 + i % 2 ^ 32) % 2 ^ 32
      omega
  rw [BitVec.toNat_sub_of_le hle]
  exact ⟨_, hcopy, rfl, rfl, rfl, store_image s.ram s.rom hle⟩

/-- A write changes at most its byte of memory. -/
theorem writeByte_ram_only (s : Chipset) (a : BitVec 32) (v : Byte) : ∃ ram,
    s.writeByte a v = { s with ram := ram } ∧ ∀ x, x ≠ a → ram x = s.ram x := by
  cases hwrite : s.toRam 1 a with
  | true =>
    refine ⟨_, writeByte_ram hwrite v, fun x hx => ?_⟩
    rw [store_singleton, Function.update_of_ne hx]
  | false => exact ⟨s.ram, writeByte_rom hwrite v, fun _ _ => rfl⟩

/-- After the check memory takes the writes to the F-segment. -/
theorem romCheck_opens (image : Image) (s : Chipset) (b : HostBridge) :
    let value := s.readByte image.romCheck
    let s' := s.writeByte image.romCheck (value + 1#8)
    ∃ t, (if s'.readByte image.romCheck = value then s'.setupPam 0#16 b.pam0 else s') = t ∧
      t.config = (if s.FsegOpen then s.config else (s.setupPam 0#16 b.pam0).config) ∧
      t.rom = s.rom ∧ t.pics = s.pics ∧ ∀ a, ¬ image.Holds a → t.ram a = s.ram a := by
  intro value s'
  have hlow := image.stext_le
  have hhigh : image.romCheck.toNat < einit.toNat :=
    image.romCheck_lt.trans_le (image.edata_le.trans (by decide))
  have hcheck := romCheck_value s hlow hhigh
  obtain ⟨ram, hwrite, hsame⟩ := writeByte_ram_only s image.romCheck (value + 1#8)
  have hkept : ∀ a, ¬ image.Holds a → ram a = s.ram a := by
    intro a ha
    apply hsame
    rintro rfl
    exact ha (.inl ⟨hlow, image.romCheck_lt⟩)
  by_cases hopen : s.FsegOpen
  · have hchanged : s'.readByte image.romCheck ≠ value := fun h => hcheck.mp h hopen
    rw [if_neg hchanged, if_pos hopen]
    exact ⟨_, hwrite, rfl, rfl, rfl, hkept⟩
  · rw [if_pos (hcheck.mpr hopen), if_neg hopen]
    exact ⟨_, congrArg (fun t : Chipset => t.setupPam 0#16 b.pam0) hwrite, rfl, rfl, rfl, hkept⟩

/-- The host bridge decides only whether its memory has to be opened. -/
theorem shadowBios_apply (image : Image) (hb : hostBridge s.config.space = some b) : ∃ t,
    s.shadowBios image 0#16 b.pam0 = t ∧
      t.config = (if s.FsegOpen then s.config else (s.setupPam 0#16 b.pam0).config) ∧
      t.pics = setupPic s.pics ∧ ShadowCopy image s t := by
  obtain ⟨hstext, hedata⟩ := image.edata_bounds
  obtain ⟨t, hcheck, hconfig, hrom, hpics, hkept⟩ := romCheck_opens image s b
  have hopen : ∀ a : BitVec 32, stext.toNat ≤ a.toNat → a.toNat < einit.toNat →
      t.toRam 1 a = true := by
    intro a hlow hhigh
    have hin : InPam a := ⟨(by decide : 0xc0000 ≤ stext.toNat).trans hlow, hhigh⟩
    by_cases hfseg : s.FsegOpen
    · rw [if_pos hfseg] at hconfig
      rw [toRam_congr (s := s) (fun x _ => by rw [hconfig]), toRam_fseg s 1 hlow hhigh]
      exact hfseg.2
    · rw [if_neg hfseg] at hconfig
      rw [toRam_congr (s := s.setupPam 0#16 b.pam0) (fun x _ => by rw [hconfig]),
        toRam_setupPam hb (by decide), decide_eq_true hin, Bool.true_or]
  obtain ⟨u, hcode, huconfig, hurom, hupics, huram⟩ :=
    memcpy_image hopen le_rfl hstext.le (hedata.trans (by decide))
  have hopen' : ∀ a : BitVec 32, stext.toNat ≤ a.toNat → a.toNat < einit.toNat →
      u.toRam 1 a = true := by
    intro a hlow hhigh
    rw [toRam_congr (s := t) (fun x _ => by rw [huconfig])]
    exact hopen a hlow hhigh
  obtain ⟨v, hinit, hvconfig, hvrom, hvpics, hvram⟩ :=
    @memcpy_image u hopen' sinit einit (by decide) (by decide) le_rfl
  refine ⟨{ v with pics := setupPic v.pics }, ?_, ?_, ?_, ?_⟩
  · rw [← hinit, ← hcode, ← hcheck]
    rfl
  · exact hvconfig.trans (huconfig.trans hconfig)
  · exact congrArg setupPic (hvpics.trans (hupics.trans hpics))
  · have hram : ∀ a, v.ram a = if image.Holds a then s.rom (a + 0xfff00000#32) else t.ram a := by
      intro a
      have hholds : image.Holds a ↔ stext.toNat ≤ a.toNat ∧ a.toNat < image.edata.toNat ∨
          sinit.toNat ≤ a.toNat ∧ a.toNat < einit.toNat := Iff.rfl
      rw [hvram, huram, hurom, hrom, if_congr hholds rfl rfl]
      split_ifs
      · rfl
      · omega
      · rfl
      · omega
      · omega
      · rfl
    exact ⟨hvrom.trans (hurom.trans hrom), fun a ha => (hram a).trans (if_pos ha),
      fun a ha => ((hram a).trans (if_neg ha)).trans (hkept a ha)⟩

end ShadowBios

/-! ### The whole setup -/

/-- The function with the interrupt router. -/
def HostBridge.router : HostBridge → BitVec 16
  | .i440fx => 0x08#16
  | .q35 => 0xf8#16

/-- The IRQ to which the router sends PIRQ `pirq`. -/
def Chipset.routeOf (s : Chipset) (b : HostBridge) (pirq : Nat) : Byte :=
  s.config.space (configByte b.router (PIIX_ISA_PIRQA_ROUT + BitVec.ofNat 8 pirq))

/-- IRQ `n` is level-triggered. -/
def PicPair.level (p : PicPair) (n : Nat) : Bool :=
  if n < 8 then p.master.elcr.getLsbD n else p.slave.elcr.getLsbD (n - 8)

/-- What the setup makes of a machine with a host bridge that it knows. -/
structure HardwareSetUp (image : Image) (b : HostBridge) (s t : Chipset) : Prop
    extends ShadowCopy image s t where
  /-- The firmware's segment is memory. -/
  fseg : ∀ bit < 2, ∀ a : BitVec 32, stext.toNat ≤ a.toNat → a.toNat < einit.toNat →
    t.toRam bit a = true
  /-- Unless it was before, everything from 0xc0000 on is. -/
  opened : ¬ s.FsegOpen → ∀ bit < 2, ∀ a, InPam a → t.toRam bit a = true
  untouched : ∀ bit < 2, ∀ a, s.FsegOpen ∨ ¬ InPam a → t.toRam bit a = s.toRam bit a
  routes : ∀ pirq < 4, t.routeOf b pirq = pirqIrq pirq
  /-- The level-triggered interrupts are the ones that the router uses. -/
  level : ∀ n < 16, t.pics.level n = true ↔ ∃ pirq < 4, (t.routeOf b pirq).toNat = n
  pics : t.pics = setupPic s.pics

section SetupHw

variable {s t : Chipset} {b : HostBridge}

theorem chipsetBlocks_routes (b : HostBridge) (space : Memory 24) {pirq : Nat} (hpirq : pirq < 4) :
    storeBlocks space b.chipsetBlocks
      (configByte b.router (PIIX_ISA_PIRQA_ROUT + BitVec.ofNat 8 pirq)) = pirqIrq pirq := by
  cases b <;> interval_cases pirq <;> rfl

/-- The PAM registers are not in the router. -/
theorem pamBlocks_router (b : HostBridge) (space : Memory 24) {a : BitVec 24}
    (ha : 0x100 ≤ a.toNat) : storeBlocks space b.pamBlocks a = space a := by
  apply storeBlocks_outside
  have hblocks : ∀ c ∈ b.pamBlocks, c.1.toNat + c.2.length ≤ 0x100 := by
    cases b <;> decide
  intro c hc
  have hend := hblocks c hc
  rw [within_iff (by omega)]
  omega

theorem level_setupPic (p : PicPair) : ∀ n < 16, (setupPic p).level n = true ↔
    ∃ pirq < 4, (pirqIrq pirq).toNat = n := by
  change ∀ n < 16, (if n < 8 then (0#8).getLsbD n else (0x0c#8).getLsbD (n - 8)) = true ↔ _
  decide

theorem configByte_router (b : HostBridge) (r : BitVec 8) :
    0x100 ≤ (configByte b.router r).toNat := by
  revert r
  cases b
  · decide +kernel
  · decide +kernel

/-- The machine after the setup of the router and of the power management. -/
theorem HardwareSetUp.of_shadowBios (image : Image) {config : ConfigPorts}
    (hspace : config.space = storeBlocks s.config.space b.chipsetBlocks)
    (hb : hostBridge s.config.space = some b) :
    HardwareSetUp image b s ({ s with config := config }.shadowBios image 0#16 b.pam0) := by
  let r : Chipset := { s with config := config }
  have hhost : ∀ a : BitVec 24, a.toNat < 0x100 → r.config.space a = s.config.space a := by
    intro a ha
    exact (congrFun hspace a).trans (chipsetBlocks_host b _ ha)
  have hrb : hostBridge r.config.space = some b :=
    (hostBridge_congr fun a ha => hhost a (by omega)).trans hb
  have hreads := fun bit => toRam_congr hhost bit
  have hfseg : r.FsegOpen ↔ s.FsegOpen := by
    rw [Chipset.FsegOpen, hreads, hreads]
    rfl
  obtain ⟨t, ht, hconfig, hpics, hcopy⟩ := shadowBios_apply image hrb
  rw [if_congr hfseg rfl rfl] at hconfig
  have hopened : ¬ s.FsegOpen → ∀ bit < 2, ∀ a,
      t.toRam bit a = (decide (InPam a) || s.toRam bit a) := by
    intro hclosed bit hbit a
    rw [if_neg hclosed] at hconfig
    rw [toRam_congr (s := r.setupPam 0#16 b.pam0) (fun x _ => by rw [hconfig]),
      toRam_setupPam hrb hbit, hreads]
  have hkept : s.FsegOpen → ∀ bit a, t.toRam bit a = s.toRam bit a := by
    intro hopen bit a
    rw [if_pos hopen] at hconfig
    rw [toRam_congr (s := r) (fun x _ => by rw [hconfig]), hreads]
  have hroutes : ∀ pirq < 4, t.routeOf b pirq = pirqIrq pirq := by
    intro pirq hpirq
    have hrouter : t.config.space (configByte b.router (PIIX_ISA_PIRQA_ROUT + BitVec.ofNat 8 pirq)) =
        config.space (configByte b.router (PIIX_ISA_PIRQA_ROUT + BitVec.ofNat 8 pirq)) := by
      rw [hconfig]
      split
      · rfl
      · rw [setupPam_space, pamBlocks_router b _ (configByte_router b _)]
    rw [Chipset.routeOf, hrouter, hspace, chipsetBlocks_routes b _ hpirq]
  rw [show Chipset.shadowBios _ image 0#16 b.pam0 = t from ht]
  constructor
  · exact ⟨hcopy.rom, hcopy.copied, hcopy.kept⟩
  · intro bit hbit a hlow hhigh
    have hin : InPam a := ⟨(by decide : 0xc0000 ≤ stext.toNat).trans hlow, hhigh⟩
    by_cases hopen : s.FsegOpen
    · rw [hkept hopen, toRam_fseg s bit hlow hhigh]
      interval_cases bit
      · exact hopen.1
      · exact hopen.2
    · rw [hopened hopen bit hbit, decide_eq_true hin, Bool.true_or]
  · intro hclosed bit hbit a ha
    rw [hopened hclosed bit hbit, decide_eq_true ha, Bool.true_or]
  · intro bit hbit a hcases
    by_cases hopen : s.FsegOpen
    · exact hkept hopen bit a
    · rw [hopened hopen bit hbit, decide_eq_false (hcases.resolve_left hopen), Bool.false_or]
  · exact hroutes
  · intro n hn
    rw [hpics, level_setupPic _ n hn]
    constructor
    · rintro ⟨pirq, hpirq, hirq⟩
      exact ⟨pirq, hpirq, by rw [hroutes pirq hpirq, hirq]⟩
    · rintro ⟨pirq, hpirq, hirq⟩
      exact ⟨pirq, hpirq, by rw [← hirq, hroutes pirq hpirq]⟩
  · exact hpics

end SetupHw

/-- `setup_hw` on any machine, also on one that has run before. A host bridge
that it does not know is left alone. -/
theorem setupHw_shadows (image : Image) (s : Chipset) :
    match hostBridge s.config.space with
    | some b => (s.setupHw image).1 = true ∧ HardwareSetUp image b s (s.setupHw image).2
    | none => (s.setupHw image).1 = false ∧ (s.setupHw image).2.config.space = s.config.space ∧
        { (s.setupHw image).2 with config := s.config } = s := by
  obtain ⟨hid, hspace⟩ := readl_hostId s.config
  let config := (s.config.readl 0#16 0#32).2
  have hsetup : s.setupHw image =
      if hostId s.config.space = HostBridge.i440fx.id then
        (true, { s with config := config.setupPiix.setupPiixPm }.shadowBios image 0#16
          HostBridge.i440fx.pam0)
      else if hostId s.config.space = HostBridge.q35.id then
        (true, { s with config := config.setupIch9.setupIch9Pm }.shadowBios image 0#16
          HostBridge.q35.pam0)
      else (false, { s with config := config }) := by
    rw [← hid]
    rfl
  rw [hsetup]
  by_cases hpiix : hostId s.config.space = HostBridge.i440fx.id
  · have hb : hostBridge s.config.space = some .i440fx := if_pos hpiix
    rw [if_pos hpiix, hb]
    have hblocks : config.setupPiix.setupPiixPm.space =
        storeBlocks s.config.space HostBridge.i440fx.chipsetBlocks := by
      rw [setupPiix_space, hspace]
    exact ⟨rfl, HardwareSetUp.of_shadowBios image hblocks hb⟩
  · rw [if_neg hpiix]
    by_cases hq35 : hostId s.config.space = HostBridge.q35.id
    · have hb : hostBridge s.config.space = some .q35 := (hostBridge_q35 _).mpr hq35
      rw [if_pos hq35, hb]
      have hblocks : config.setupIch9.setupIch9Pm.space =
          storeBlocks s.config.space HostBridge.q35.chipsetBlocks := by
        rw [setupIch9_space, hspace]
      exact ⟨rfl, HardwareSetUp.of_shadowBios image hblocks hb⟩
    · have hb : hostBridge s.config.space = none := (if_neg hpiix).trans (if_neg hq35)
      rw [if_neg hq35, hb]
      exact ⟨rfl, hspace, rfl⟩

end Qboot
