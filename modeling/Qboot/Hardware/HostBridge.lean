import Qboot.E820
import Qboot.Pci.Bios
import Qboot.Pci.Interrupts

/-!
Config space of the chipset in hwsetup.c: the routers, the power management
functions, the attributes of the memory below 1 MiB and the MMCONFIG window.
`setup_hw` and `setup_mmconfig` run before the busses have numbers and write
through the two ports.
-/

namespace Qboot

open Bytes ByteMemory

/-! ### One access -/

section Access

variable (h : ConfigPorts) (bdf : BitVec 16) (addr : BitVec 32)

theorem ConfigPorts.writeb_space (val : BitVec 8) :
    (h.writeb bdf addr val).space = store h.space (configByte bdf (registerOf 1 addr)) [val] := by
  obtain ⟨hbyte, -, -⟩ := dataAddr_config bdf addr
  have hport : isDataPort (configAddress bdf addr) (dataPort 3#32 addr) = true :=
    isDataPort_dataPort bdf addr (by decide)
  have hval : toLE 1 val.toNat = [val] := by
    simp [toLE]
  rw [ConfigPorts.writeb, ConfigPorts.out_data h hport, hbyte, hval]
  rfl

theorem dataPort_zero : dataPort 0#32 addr = 0xcfc#16 := by
  rw [dataPort, BitVec.and_zero]
  rfl

theorem ConfigPorts.writel_space (val : BitVec 32) :
    (h.writel bdf addr val).space =
      store h.space (configByte bdf (registerOf 4 addr)) (toLE 4 val.toNat) := by
  obtain ⟨-, -, hdword⟩ := dataAddr_config bdf addr
  have hport : isDataPort (configAddress bdf addr) 0xcfc#16 = true := by
    rw [← dataPort_zero addr]
    exact isDataPort_dataPort bdf addr (by decide)
  rw [ConfigPorts.writel, ConfigPorts.out_data h hport, hdword]
  rfl

theorem ConfigPorts.readl_apply : h.readl bdf addr =
    (BitVec.ofNat 32 (ofLE (load h.space (configByte bdf (registerOf 4 addr)) 4)),
      h.readAt (configAddress bdf addr) (configByte bdf (registerOf 4 addr)) 4) := by
  obtain ⟨-, -, hdword⟩ := dataAddr_config bdf addr
  have hport : isDataPort (configAddress bdf addr) 0xcfc#16 = true := by
    rw [← dataPort_zero addr]
    exact isDataPort_dataPort bdf addr (by decide)
  rw [ConfigPorts.readl, ConfigPorts.in_data h hport, hdword]

end Access

/-! ### The host bridges -/

/-- Blocks that a byte is not in leave it. -/
theorem storeBlocks_outside {w : Nat} (m : Memory w) {blocks : List (BitVec w × List Byte)}
    {a : BitVec w} (h : ∀ b ∈ blocks, ¬ Within b.1 b.2.length a) : storeBlocks m blocks a = m a := by
  induction blocks generalizing m with
  | nil => rfl
  | cons b blocks ih =>
    have hrest := ih (store m b.1 b.2) fun c hc => h c (List.mem_cons_of_mem _ hc)
    exact hrest.trans (store_of_not_within m (h b List.mem_cons_self))

/-- The host bridges that the firmware knows. -/
inductive HostBridge where
  | i440fx
  | q35
deriving DecidableEq

def HostBridge.id : HostBridge → BitVec 32
  | .i440fx => PCI_VENDOR_ID_INTEL ||| PCI_DEVICE_ID_INTEL_82441 <<< 16
  | .q35 => PCI_VENDOR_ID_INTEL ||| PCI_DEVICE_ID_INTEL_Q35_MCH <<< 16

/-- The ids in config space of function 00:00.0. -/
def hostId (space : Memory 24) : BitVec 32 := BitVec.ofNat 32 (ofLE (load space 0#24 4))

def hostBridge (space : Memory 24) : Option HostBridge :=
  if hostId space = HostBridge.i440fx.id then some .i440fx
  else if hostId space = HostBridge.q35.id then some .q35
  else none

theorem readl_hostId (h : ConfigPorts) : (h.readl 0#16 0#32).1 = hostId h.space ∧
    (h.readl 0#16 0#32).2.space = h.space := by
  rw [ConfigPorts.readl_apply]
  exact ⟨rfl, rfl⟩

theorem hostBridge_congr {space space' : Memory 24}
    (h : ∀ a : BitVec 24, a.toNat < 4 → space' a = space a) :
    hostBridge space' = hostBridge space := by
  have hload : load space' 0#24 4 = load space 0#24 4 := by
    simp only [load, List.range_succ, List.range_zero]
    simp [h]
  rw [hostBridge, hostId, hload]
  rfl

/-! ### The chipset's other functions -/

def PIIX_PMBASE : BitVec 32 := 0x40#32
def PIIX_PMREGMISC : BitVec 32 := 0x80#32
def PIIX_SMBHSTBASE : BitVec 32 := 0x90#32
def PIIX_SMBHSTCFG : BitVec 32 := 0xd2#32
def ICH9_LPC_PMBASE : BitVec 32 := 0x40#32
def ICH9_LPC_ACPI_CTRL : BitVec 32 := 0x44#32

namespace ConfigPorts

variable (h : ConfigPorts)

/-- `setup_piix`, through the ports. -/
def setupPiix : ConfigPorts :=
  let bdf : BitVec 16 := 1#16 <<< 3
  let rout : BitVec 32 := PIIX_ISA_PIRQA_ROUT.setWidth 32
  let h := h.writeb bdf rout 10#8
  let h := h.writeb bdf (rout + 1#32) 10#8
  let h := h.writeb bdf (rout + 2#32) 11#8
  h.writeb bdf (rout + 3#32) 11#8

/-- `setup_piix_pm` -/
def setupPiixPm : ConfigPorts :=
  let bdf : BitVec 16 := (1#16 <<< 3) ||| 3#16
  let h := h.writel bdf PIIX_PMBASE 0x601#32
  let h := h.writeb bdf PIIX_PMREGMISC 0x01#8
  let h := h.writel bdf PIIX_SMBHSTBASE 0x701#32
  h.writeb bdf PIIX_SMBHSTCFG 0x09#8

/-- `setup_ich9`, through the ports. -/
def setupIch9 : ConfigPorts :=
  let bdf : BitVec 16 := 0x1f#16 <<< 3
  let pirqa : BitVec 32 := ICH9_LPC_PIRQA_ROUT.setWidth 32
  let pirqe : BitVec 32 := ICH9_LPC_PIRQE_ROUT.setWidth 32
  let h := h.writeb bdf pirqa 10#8
  let h := h.writeb bdf (pirqa + 1#32) 10#8
  let h := h.writeb bdf (pirqa + 2#32) 11#8
  let h := h.writeb bdf (pirqa + 3#32) 11#8
  let h := h.writeb bdf pirqe 10#8
  let h := h.writeb bdf (pirqe + 1#32) 10#8
  let h := h.writeb bdf (pirqe + 2#32) 11#8
  h.writeb bdf (pirqe + 3#32) 11#8

/-- `setup_ich9_pm` -/
def setupIch9Pm : ConfigPorts :=
  let bdf : BitVec 16 := 0x1f#16 <<< 3
  let h := h.writel bdf ICH9_LPC_PMBASE 0x601#32
  h.writeb bdf ICH9_LPC_ACPI_CTRL 0x80#8

end ConfigPorts

/-- The bytes that the setup of the router and of the power management leaves
in config space. -/
def HostBridge.chipsetBlocks : HostBridge → List (BitVec 24 × List Byte)
  | .i440fx =>
    [(0x860#24, [10#8]), (0x861#24, [10#8]), (0x862#24, [11#8]), (0x863#24, [11#8]),
      (0xb40#24, toLE 4 0x601), (0xb80#24, [0x01#8]), (0xb90#24, toLE 4 0x701), (0xbd2#24, [0x09#8])]
  | .q35 =>
    [(0xf860#24, [10#8]), (0xf861#24, [10#8]), (0xf862#24, [11#8]), (0xf863#24, [11#8]),
      (0xf868#24, [10#8]), (0xf869#24, [10#8]), (0xf86a#24, [11#8]), (0xf86b#24, [11#8]),
      (0xf840#24, toLE 4 0x601), (0xf844#24, [0x80#8])]

theorem setupPiix_space (h : ConfigPorts) :
    h.setupPiix.setupPiixPm.space = storeBlocks h.space HostBridge.i440fx.chipsetBlocks := by
  simp only [ConfigPorts.setupPiix, ConfigPorts.setupPiixPm, ConfigPorts.writeb_space,
    ConfigPorts.writel_space]
  rfl

theorem setupIch9_space (h : ConfigPorts) :
    h.setupIch9.setupIch9Pm.space = storeBlocks h.space HostBridge.q35.chipsetBlocks := by
  simp only [ConfigPorts.setupIch9, ConfigPorts.setupIch9Pm, ConfigPorts.writeb_space,
    ConfigPorts.writel_space]
  rfl

/-- The setup of the router keeps the registers of the host bridge. -/
theorem chipsetBlocks_host (b : HostBridge) (space : Memory 24) {a : BitVec 24}
    (ha : a.toNat < 0x100) : storeBlocks space b.chipsetBlocks a = space a := by
  apply storeBlocks_outside
  have hblocks : ∀ c ∈ b.chipsetBlocks, 0x100 ≤ c.1.toNat ∧ c.1.toNat + c.2.length ≤ 2 ^ 24 := by
    cases b <;> decide
  intro c hc
  obtain ⟨hlow, hend⟩ := hblocks c hc
  rw [within_iff hend]
  omega

/-! ### The MMCONFIG window -/

def Q35_HOST_BRIDGE_PCIEXBAREN : BitVec 32 := 1#32
def Q35_HOST_BRIDGE_PCIEXBAR : BitVec 32 := 0x60#32

/-- The start and the size of the window that the register's value asks for.
Bits 1 and 2 of the value halve the size. -/
def pciexbarWindow (bar : Nat) : Option (Nat × Nat) :=
  let size := 0x10000000 / 2 ^ (bar / 2 % 4)
  if bar % 2 = 1 then some (bar % 2 ^ 36 / size * size, size) else none

/-- The memory in which the bridge answers for config space. -/
def mmconfigWindow (space : Memory 24) : Option (Nat × Nat) :=
  pciexbarWindow (ofLE (load space 0x60#24 8))

/-- The registers and values of `setup_q35_mmconfig`, in order. -/
def mmconfigWrites : List (BitVec 32 × BitVec 32) :=
  let addr := PCIE_MMCONFIG_BASE
  let upper : BitVec 32 := (addr >>> 32).setWidth 32
  let lower : BitVec 32 := (addr &&& 0xffffffff#64).setWidth 32 ||| Q35_HOST_BRIDGE_PCIEXBAREN
  [(Q35_HOST_BRIDGE_PCIEXBAR, 0#32), (Q35_HOST_BRIDGE_PCIEXBAR + 4#32, upper),
    (Q35_HOST_BRIDGE_PCIEXBAR, lower)]

namespace ConfigPorts

variable (h : ConfigPorts)

/-- Writes of dwords to registers of the host bridge. -/
def writels (writes : List (BitVec 32 × BitVec 32)) : ConfigPorts :=
  writes.foldl (fun h w => h.writel 0#16 w.1 w.2) h

/-- `setup_q35_mmconfig` -/
def setupQ35Mmconfig : ConfigPorts := h.writels mmconfigWrites

/-- `setup_mmconfig` -/
def setupMmconfig : Bool × ConfigPorts :=
  let (id, h) := h.readl 0#16 0#32
  if id = PCI_VENDOR_ID_INTEL ||| PCI_DEVICE_ID_INTEL_Q35_MCH <<< 16 then
    (true, h.setupQ35Mmconfig)
  else (false, h)

end ConfigPorts

/-- The three writes as fields of the register. -/
def pciexbarFields : List (Nat × List Byte) :=
  [(0, toLE 4 0), (4, toLE 4 0), (0, toLE 4 0xb0000001)]

section Mmconfig

variable (h : ConfigPorts)

theorem writels_fields (k : Nat) :
    (h.writels (mmconfigWrites.take k)).space =
      storeFields h.space 0x60#24 (pciexbarFields.take k) := by
  rcases k with _ | _ | _ | k
  · rfl
  · simp only [ConfigPorts.writels, mmconfigWrites, List.take_succ_cons, List.take_zero,
      List.foldl_cons, List.foldl_nil, ConfigPorts.writel_space, pciexbarFields, storeFields]
    rfl
  · simp only [ConfigPorts.writels, mmconfigWrites, List.take_succ_cons, List.take_zero,
      List.foldl_cons, List.foldl_nil, ConfigPorts.writel_space, pciexbarFields, storeFields]
    rfl
  · simp only [ConfigPorts.writels, mmconfigWrites, List.take_succ_cons, List.take_nil,
      List.foldl_cons, List.foldl_nil, ConfigPorts.writel_space, pciexbarFields, storeFields]
    rfl

theorem pciexbarFields_inside (k : Nat) :
    ∀ f ∈ pciexbarFields.take k, f.1 + f.2.length ≤ (load h.space 0x60#24 8).length := by
  have hall : ∀ f ∈ pciexbarFields, f.1 + f.2.length ≤ 8 := by decide
  intro f hf
  rw [length_load]
  exact hall f (List.mem_of_mem_take hf)

/-- All of them stay inside the register. -/
theorem writels_space (k : Nat) :
    (h.writels (mmconfigWrites.take k)).space =
      store h.space 0x60#24 (patchFields (load h.space 0x60#24 8) (pciexbarFields.take k)) := by
  have hlen : (load h.space 0x60#24 8).length ≤ 2 ^ 24 := by
    rw [length_load]
    decide
  rw [writels_fields, ← storeFields_store _ _ (pciexbarFields_inside h k) hlen, store_load]

theorem length_pciexbar (k : Nat) :
    (patchFields (load h.space 0x60#24 8) (pciexbarFields.take k)).length = 8 :=
  (length_patchFields (pciexbarFields_inside h k)).trans (length_load _ _ _)

/-- What the register holds after the first `k` writes. -/
theorem load_writels (k : Nat) :
    load (h.writels (mmconfigWrites.take k)).space 0x60#24 8 =
      patchFields (load h.space 0x60#24 8) (pciexbarFields.take k) := by
  have hload := @load_store 24 h.space 0x60#24
    (patchFields (load h.space 0x60#24 8) (pciexbarFields.take k))
    (by rw [length_pciexbar]; decide)
  rw [length_pciexbar] at hload
  rw [writels_space, hload]

theorem patchFields_pciexbar {k : Nat} (hk : 0 < k) (b₀ b₁ b₂ b₃ b₄ b₅ b₆ b₇ : Byte) :
    patchFields [b₀, b₁, b₂, b₃, b₄, b₅, b₆, b₇] (pciexbarFields.take k) =
      if k = 1 then [0#8, 0#8, 0#8, 0#8, b₄, b₅, b₆, b₇]
      else if k = 2 then toLE 8 0
      else toLE 8 0xb0000001 := by
  rcases k with _ | _ | _ | k
  · exact absurd hk (lt_irrefl 0)
  · rfl
  · rfl
  · rw [List.take_of_length_le (by change 3 ≤ k + 3; omega), if_neg (by omega), if_neg (by omega)]
    rfl

/-- Nothing answers in the window between the first write and the last one. -/
theorem mmconfigWindow_writes {k : Nat} (hk : 0 < k) :
    mmconfigWindow (h.writels (mmconfigWrites.take k)).space =
      if k < 3 then none else some (PCIE_MMCONFIG_BASE.toNat, PCIE_MMCONFIG_SIZE.toNat) := by
  obtain ⟨b₀, b₁, b₂, b₃, b₄, b₅, b₆, b₇, hbytes⟩ : ∃ b₀ b₁ b₂ b₃ b₄ b₅ b₆ b₇ : Byte,
      load h.space 0x60#24 8 = [b₀, b₁, b₂, b₃, b₄, b₅, b₆, b₇] := ⟨_, _, _, _, _, _, _, _, rfl⟩
  rw [mmconfigWindow, load_writels, hbytes, patchFields_pciexbar hk]
  have hcases : k = 1 ∨ k = 2 ∨ 3 ≤ k := by omega
  rcases hcases with rfl | rfl | hlast
  · have heven : ofLE [0#8, 0#8, 0#8, 0#8, b₄, b₅, b₆, b₇] % 2 ≠ 1 := by
      change (0 + 256 * ofLE [0#8, 0#8, 0#8, b₄, b₅, b₆, b₇]) % 2 ≠ 1
      omega
    exact if_neg heven
  · rfl
  · rw [if_neg (by omega), if_neg (by omega), if_neg (by omega)]
    decide

theorem hostBridge_q35 (space : Memory 24) :
    hostBridge space = some .q35 ↔ hostId space = HostBridge.q35.id := by
  have hne : HostBridge.q35.id ≠ HostBridge.i440fx.id := by decide
  rw [hostBridge]
  constructor
  · intro hbridge
    split_ifs at hbridge with h₁ h₂
    · cases hbridge
    · exact h₂
  · intro hid
    rw [hid, if_neg hne, if_pos rfl]

theorem setupMmconfig_apply : h.setupMmconfig =
    if hostId h.space = HostBridge.q35.id then (true, (h.readl 0#16 0#32).2.setupQ35Mmconfig)
    else (false, (h.readl 0#16 0#32).2) := by
  rw [← (readl_hostId h).1]
  rfl

/-- `setup_mmconfig` opens a window exactly on a Q35 and writes nothing else.
While it writes no other window is open than the one that the map reserves,
whatever the register held. -/
theorem mmconfig_reserved (entries : List E820Entry) :
    let found := h.setupMmconfig.1
    let h' := h.setupMmconfig.2
    (found = true ↔ hostBridge h.space = some .q35) ∧
      (∀ a : BitVec 24, (found = true → a.toNat < 0x60 ∨ 0x68 ≤ a.toNat) →
        h'.space a = h.space a) ∧
      (found = true →
        (∀ k w, 0 < k → mmconfigWindow (h.writels (mmconfigWrites.take k)).space = some w →
          mmconfigWindow h'.space = some w) ∧
        ∃ e ∈ memoryMap found entries, e.type = E820_RESERVED ∧
          mmconfigWindow h'.space = some (e.addr.toNat, e.size.toNat)) := by
  have hspace := (readl_hostId h).2
  rw [hostBridge_q35, setupMmconfig_apply]
  by_cases hq35 : hostId h.space = HostBridge.q35.id
  · rw [if_pos hq35]
    have hwrites (h : ConfigPorts) : h.setupQ35Mmconfig = h.writels (mmconfigWrites.take 3) := rfl
    have hwindow := mmconfigWindow_writes (h.readl 0#16 0#32).2 (by decide : 0 < 3)
    rw [← hwrites] at hwindow
    refine ⟨iff_of_true rfl hq35, fun a ha => ?_, fun _ => ⟨fun k w hk hsome => ?_, ?_⟩⟩
    · rw [hwrites, writels_space, hspace]
      apply store_of_not_within
      rw [length_pciexbar, within_iff (by decide)]
      have hout := ha rfl
      change ¬ (0x60 ≤ a.toNat ∧ a.toNat < 0x60 + 8)
      omega
    · rw [mmconfigWindow_writes h hk] at hsome
      split at hsome
      · cases hsome
      · exact hwindow.trans hsome
    · refine ⟨mmconfigEntry, ?_, rfl, hwindow⟩
      exact List.mem_append_left _ (List.mem_append_right _ List.mem_cons_self)
  · rw [if_neg hq35]
    refine ⟨iff_of_false Bool.false_ne_true hq35, fun a _ => ?_, fun hfound => ?_⟩
    · rw [hspace]
    · exact absurd hfound Bool.false_ne_true

end Mmconfig

end Qboot
