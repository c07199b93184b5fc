import Qboot.Int15
import Qboot.Lib.ByteMemory

/-!
The PCI BIOS of code32seg.c, which an operating system calls after the boot. It
reaches config space through the ports 0xcf8 and 0xcfc, as the accessors of
pci.h do it.
-/

namespace Qboot

open Bytes ByteMemory

/-! ### The two ports -/

/-- One access to config space: its direction, the first byte and the number of
bytes. -/
structure ConfigAccess where
  write : Bool
  addr : BitVec 24
  bytes : Nat
deriving DecidableEq

/-- Config space behind its ports. Every function has 256 bytes; the address of
a byte is the function's number in front of the register. -/
structure ConfigPorts where
  /-- What was last written to 0xcf8. -/
  latch : BitVec 32
  space : Memory 24
  /-- All accesses so far. No variable of the program holds them. -/
  accesses : List ConfigAccess

/-- The byte of config space that a data port selects: the port chooses one in
the latched dword. -/
def dataAddr (latch : BitVec 32) (port : BitVec 16) : BitVec 24 :=
  latch.setWidth 24 &&& 0xfffffc#24 ||| (port &&& 3#16).setWidth 24

/-- The four data ports reach config space while the latch's top bit is set. -/
def isDataPort (latch : BitVec 32) (port : BitVec 16) : Bool :=
  (port &&& 0xfffc#16) == 0xcfc#16 && latch.msb

/-- `outl`, `outw` and `outb` with the bytes of the value. -/
def ConfigPorts.out (h : ConfigPorts) (port : BitVec 16) (bs : List Byte) : ConfigPorts :=
  if port = 0xcf8#16 then { h with latch := BitVec.ofNat 32 (ofLE bs) }
  else if isDataPort h.latch port then
    { h with
      space := store h.space (dataAddr h.latch port) bs
      accesses := h.accesses ++ [⟨true, dataAddr h.latch port, bs.length⟩] }
  else h

/-- `inl`, `inw` and `inb`; a port without a device gives ones. -/
def ConfigPorts.in (h : ConfigPorts) (port : BitVec 16) (n : Nat) : List Byte × ConfigPorts :=
  if isDataPort h.latch port then
    (load h.space (dataAddr h.latch port) n,
      { h with accesses := h.accesses ++ [⟨false, dataAddr h.latch port, n⟩] })
  else (List.replicate n 0xff#8, h)

/-! ### The accessors of pci.h -/

/-- What the accessors write to 0xcf8. -/
def configAddress (bdf : BitVec 16) (addr : BitVec 32) : BitVec 32 :=
  0x80000000#32 ||| (bdf.setWidth 32 <<< 8) ||| (addr &&& 0xfc#32)

def ConfigPorts.select (h : ConfigPorts) (bdf : BitVec 16) (addr : BitVec 32) : ConfigPorts :=
  h.out 0xcf8#16 (toLE 4 (configAddress bdf addr).toNat)

/-- `0xcfc | (addr & mask)` -/
def dataPort (mask addr : BitVec 32) : BitVec 16 := (0xcfc#32 ||| (addr &&& mask)).setWidth 16

def ConfigPorts.writel (h : ConfigPorts) (bdf : BitVec 16) (addr val : BitVec 32) : ConfigPorts :=
  (h.select bdf addr).out 0xcfc#16 (toLE 4 val.toNat)

def ConfigPorts.writew (h : ConfigPorts) (bdf : BitVec 16) (addr : BitVec 32) (val : BitVec 16) :
    ConfigPorts :=
  (h.select bdf addr).out (dataPort 2#32 addr) (toLE 2 val.toNat)

def ConfigPorts.writeb (h : ConfigPorts) (bdf : BitVec 16) (addr : BitVec 32) (val : BitVec 8) :
    ConfigPorts :=
  (h.select bdf addr).out (dataPort 3#32 addr) (toLE 1 val.toNat)

def ConfigPorts.readl (h : ConfigPorts) (bdf : BitVec 16) (addr : BitVec 32) :
    BitVec 32 × ConfigPorts :=
  let (bs, h) := (h.select bdf addr).in 0xcfc#16 4
  (BitVec.ofNat 32 (ofLE bs), h)

def ConfigPorts.readw (h : ConfigPorts) (bdf : BitVec 16) (addr : BitVec 32) :
    BitVec 16 × ConfigPorts :=
  let (bs, h) := (h.select bdf addr).in (dataPort 2#32 addr) 2
  (BitVec.ofNat 16 (ofLE bs), h)

def ConfigPorts.readb (h : ConfigPorts) (bdf : BitVec 16) (addr : BitVec 32) :
    BitVec 8 × ConfigPorts :=
  let (bs, h) := (h.select bdf addr).in (dataPort 3#32 addr) 1
  (BitVec.ofNat 8 (ofLE bs), h)

/-! ### The handler -/

/-- `struct bios32regs`. -/
structure Bios32Regs where
  eax : BitVec 32
  ebx : BitVec 32
  ecx : BitVec 32
  edx : BitVec 32
  esp : BitVec 32
  ebp : BitVec 32
  esi : BitVec 32
  edi : BitVec 32
  ds : BitVec 32
  es : BitVec 32
  fs : BitVec 32
  eflags : BitVec 32
deriving DecidableEq

def PCI_FUNC_NOT_SUPPORTED : BitVec 32 := 0x81#32
def PCI_DEVICE_NOT_FOUND : BitVec 32 := 0x86#32

/-- The end of the handler after `goto success`: AH is cleared. CF is clear on
entry. -/
def Bios32Regs.success (args : Bios32Regs) : Bios32Regs :=
  { args with eax := args.eax &&& ~~~0xff00#32 }

/-- The end of the handler after a `break`. -/
def Bios32Regs.failure (args : Bios32Regs) (code : BitVec 32) : Bios32Regs :=
  { args with
    eax := args.eax &&& ~~~0xff00#32 ||| (code <<< 8)
    eflags := args.eflags ||| X86_EFLAGS_CF.setWidth 32 }

def pcibiosHandler (maxBus : BitVec 8) (args : Bios32Regs) (h : ConfigPorts) :
    Bios32Regs × ConfigPorts :=
  let bdf : BitVec 16 := args.ebx.setWidth 16
  if args.eax = 0xb101#32 then
    ({ args with
        eax := 0x01#32, ebx := 0x210#32, ecx := maxBus.setWidth 32, edx := 0x20494350#32 }.success, h)
  else if args.eax = 0xb108#32 then
    let (val, h) := h.readb bdf args.edi
    ({ args with ecx := val.setWidth 32 }.success, h)
  else if args.eax = 0xb109#32 then
    let (val, h) := h.readw bdf args.edi
    ({ args with ecx := val.setWidth 32 }.success, h)
  else if args.eax = 0xb10a#32 then
    let (val, h) := h.readl bdf args.edi
    ({ args with ecx := val }.success, h)
  else if args.eax = 0xb10b#32 then
    (args.success, h.writeb bdf args.edi (args.ecx.setWidth 8))
  else if args.eax = 0xb10c#32 then
    (args.success, h.writew bdf args.edi (args.ecx.setWidth 16))
  else if args.eax = 0xb10d#32 then
    (args.success, h.writel bdf args.edi args.ecx)
  else if args.eax = 0xb102#32 ∨ args.eax = 0xb103#32 then
    (args.failure PCI_DEVICE_NOT_FOUND, h)
  else
    (args.failure PCI_FUNC_NOT_SUPPORTED, h)

/-! ### Which bytes an access reaches -/

/-- The register an access of `n` bytes to `addr` reaches: the number modulo
256, rounded down to a multiple of `n`. -/
def registerOf (n : Nat) (addr : BitVec 32) : BitVec 8 := BitVec.ofNat 8 (addr.toNat % 256 / n * n)

/-- A byte of config space. -/
def configByte (bdf : BitVec 16) (register : BitVec 8) : BitVec 24 :=
  bdf.setWidth 24 <<< 8 ||| register.setWidth 24

/-- The latched dword and the port's low bits are the low byte of the address. -/
theorem dataAddr_configAddress (bdf : BitVec 16) (addr : BitVec 32) (port : BitVec 16) :
    dataAddr (configAddress bdf addr) port =
      configByte bdf (addr.setWidth 8 &&& 0xfc#8 ||| (port &&& 3#16).setWidth 8) := by
  apply BitVec.eq_of_getLsbD_eq
  intro i hi
  interval_cases i <;>
    simp [dataAddr, configAddress, configByte]

theorem dataPort_low (mask addr : BitVec 32) (hmask : mask &&& 3#32 = mask) :
    (dataPort mask addr &&& 3#16).setWidth 8 = (addr &&& mask).setWidth 8 := by
  have hlow : addr &&& mask = addr &&& mask &&& 3#32 := by
    rw [BitVec.and_assoc, hmask]
  rw [dataPort, hlow]
  apply BitVec.eq_of_getLsbD_eq
  intro i hi
  interval_cases i <;> simp

/-- The bits of the register number that an access of `n` bytes keeps. -/
theorem registerOf_low (addr : BitVec 32) :
    registerOf 1 addr = addr.setWidth 8 &&& 0xfc#8 ||| (addr.setWidth 8 &&& 3#8) ∧
      registerOf 2 addr = addr.setWidth 8 &&& 0xfc#8 ||| (addr.setWidth 8 &&& 2#8) ∧
      registerOf 4 addr = addr.setWidth 8 &&& 0xfc#8 ||| 0#8 := by
  have hmask : ∀ r : BitVec 8, BitVec.ofNat 8 (r.toNat / 1 * 1) = r &&& 0xfc#8 ||| (r &&& 3#8) ∧
      BitVec.ofNat 8 (r.toNat / 2 * 2) = r &&& 0xfc#8 ||| (r &&& 2#8) ∧
      BitVec.ofNat 8 (r.toNat / 4 * 4) = r &&& 0xfc#8 ||| 0#8 := by decide +kernel
  have hlow : (addr.setWidth 8).toNat = addr.toNat % 256 := BitVec.toNat_setWidth 8 addr
  have h := hmask (addr.setWidth 8)
  rwa [hlow] at h

/-- The ports lead to the function's bytes at the register. -/
theorem dataAddr_config (bdf : BitVec 16) (addr : BitVec 32) :
    dataAddr (configAddress bdf addr) (dataPort 3#32 addr) = configByte bdf (registerOf 1 addr) ∧
      dataAddr (configAddress bdf addr) (dataPort 2#32 addr) = configByte bdf (registerOf 2 addr) ∧
      dataAddr (configAddress bdf addr) 0xcfc#16 = configByte bdf (registerOf 4 addr) := by
  obtain ⟨hbyte, hword, hdword⟩ := registerOf_low addr
  refine ⟨?_, ?_, ?_⟩
  · rw [hbyte, dataAddr_configAddress, dataPort_low 3#32 addr (by decide), BitVec.setWidth_and]
    rfl
  · rw [hword, dataAddr_configAddress, dataPort_low 2#32 addr (by decide), BitVec.setWidth_and]
    rfl
  · rw [hdword, dataAddr_configAddress]
    rfl

theorem isDataPort_dataPort (bdf : BitVec 16) (addr : BitVec 32) {mask : BitVec 32}
    (hmask : mask &&& 3#32 = mask) :
    isDataPort (configAddress bdf addr) (dataPort mask addr) = true := by
  have hmsb : (configAddress bdf addr).msb = true := by
    rw [configAddress, BitVec.msb_or, BitVec.msb_or]
    rfl
  have hport : dataPort mask addr &&& 0xfffc#16 = 0xcfc#16 := by
    have hlow : addr &&& mask = addr &&& mask &&& 3#32 := by
      rw [BitVec.and_assoc, hmask]
    rw [dataPort, hlow]
    apply BitVec.eq_of_getLsbD_eq
    intro i hi
    interval_cases i <;> simp
  rw [isDataPort, hport, hmsb]
  rfl

/-! ### What one access does -/

theorem ConfigPorts.select_apply (h : ConfigPorts) (bdf : BitVec 16) (addr : BitVec 32) :
    h.select bdf addr = { h with latch := configAddress bdf addr } := by
  have hword : BitVec.ofNat 32 (ofLE (toLE 4 (configAddress bdf addr).toNat)) =
      configAddress bdf addr := ofNat_ofLE_toLE 4 (configAddress bdf addr)
  rw [ConfigPorts.select, ConfigPorts.out, if_pos rfl, hword]

/-- A write of `bs` to a byte of config space. -/
def ConfigPorts.written (h : ConfigPorts) (latch : BitVec 32) (p : BitVec 24) (bs : List Byte) :
    ConfigPorts where
  latch := latch
  space := store h.space p bs
  accesses := h.accesses ++ [⟨true, p, bs.length⟩]

/-- A read of `n` bytes. -/
def ConfigPorts.readAt (h : ConfigPorts) (latch : BitVec 32) (p : BitVec 24) (n : Nat) :
    ConfigPorts :=
  { h with latch := latch, accesses := h.accesses ++ [⟨false, p, n⟩] }

theorem ConfigPorts.out_data (h : ConfigPorts) {bdf : BitVec 16} {addr : BitVec 32}
    {port : BitVec 16} (hport : isDataPort (configAddress bdf addr) port = true) (bs : List Byte) :
    (h.select bdf addr).out port bs =
      h.written (configAddress bdf addr) (dataAddr (configAddress bdf addr) port) bs := by
  have hne : port ≠ 0xcf8#16 := by
    rintro rfl
    simp [isDataPort] at hport
  rw [ConfigPorts.select_apply, ConfigPorts.out, if_neg hne, if_pos hport]
  rfl

theorem ConfigPorts.in_data (h : ConfigPorts) {bdf : BitVec 16} {addr : BitVec 32}
    {port : BitVec 16} (hport : isDataPort (configAddress bdf addr) port = true) (n : Nat) :
    (h.select bdf addr).in port n =
      (load h.space (dataAddr (configAddress bdf addr) port) n,
        h.readAt (configAddress bdf addr) (dataAddr (configAddress bdf addr) port) n) := by
  rw [ConfigPorts.select_apply, ConfigPorts.in, if_pos hport]
  rfl

/-- The direction and the width of a config space call, by its number. -/
def configCall (eax : BitVec 32) : Option (Bool × Nat) :=
  if eax = 0xb108#32 then some (false, 1)
  else if eax = 0xb109#32 then some (false, 2)
  else if eax = 0xb10a#32 then some (false, 4)
  else if eax = 0xb10b#32 then some (true, 1)
  else if eax = 0xb10c#32 then some (true, 2)
  else if eax = 0xb10d#32 then some (true, 4)
  else none

/-- The first byte of config space that a call of width `n` reaches. -/
def Bios32Regs.target (args : Bios32Regs) (n : Nat) : BitVec 24 :=
  configByte (args.ebx.setWidth 16) (registerOf n args.edi)

theorem configCall_read {eax : BitVec 32} {n : Nat} (h : configCall eax = some (false, n)) :
    eax = 0xb108#32 ∧ n = 1 ∨ eax = 0xb109#32 ∧ n = 2 ∨ eax = 0xb10a#32 ∧ n = 4 := by
  unfold configCall at h
  split_ifs at h with h₁ h₂ h₃
  · exact .inl ⟨h₁, (Prod.mk.inj (Option.some.inj h)).2.symm⟩
  · exact .inr (.inl ⟨h₂, (Prod.mk.inj (Option.some.inj h)).2.symm⟩)
  · exact .inr (.inr ⟨h₃, (Prod.mk.inj (Option.some.inj h)).2.symm⟩)
  all_goals exact absurd (Prod.mk.inj (Option.some.inj h)).1 (by decide)

theorem configCall_write {eax : BitVec 32} {n : Nat} (h : configCall eax = some (true, n)) :
    eax = 0xb10b#32 ∧ n = 1 ∨ eax = 0xb10c#32 ∧ n = 2 ∨ eax = 0xb10d#32 ∧ n = 4 := by
  unfold configCall at h
  split_ifs at h with _ _ _ h₁ h₂ h₃
  · exact absurd (Prod.mk.inj (Option.some.inj h)).1 (by decide)
  · exact absurd (Prod.mk.inj (Option.some.inj h)).1 (by decide)
  · exact absurd (Prod.mk.inj (Option.some.inj h)).1 (by decide)
  · exact .inl ⟨h₁, (Prod.mk.inj (Option.some.inj h)).2.symm⟩
  · exact .inr (.inl ⟨h₂, (Prod.mk.inj (Option.some.inj h)).2.symm⟩)
  · exact .inr (.inr ⟨h₃, (Prod.mk.inj (Option.some.inj h)).2.symm⟩)

/-- A narrow value in a 32-bit register. -/
theorem setWidth_ofNat_ofLE {w : Nat} (hw : w ≤ 32) {bs : List Byte} (hbs : ofLE bs < 2 ^ w) :
    (BitVec.ofNat w (ofLE bs)).setWidth 32 = BitVec.ofNat 32 (ofLE bs) := by
  have hwide : (2 : Nat) ^ w ≤ 2 ^ 32 := Nat.pow_le_pow_right (by decide) hw
  apply BitVec.eq_of_toNat_eq
  rw [BitVec.toNat_setWidth, BitVec.toNat_ofNat, BitVec.toNat_ofNat, Nat.mod_eq_of_lt hbs]

theorem ofLE_load_lt (m : Memory 24) (p : BitVec 24) (n : Nat) :
    ofLE (load m p n) < 256 ^ n := by
  have h := ofLE_lt (load m p n)
  rwa [length_load] at h

theorem pcibiosHandler_read (maxBus : BitVec 8) {args : Bios32Regs} (h : ConfigPorts) {n : Nat}
    (hcall : configCall args.eax = some (false, n)) :
    pcibiosHandler maxBus args h =
      ({ args with ecx := BitVec.ofNat 32 (ofLE (load h.space (args.target n) n)) }.success,
        h.readAt (configAddress (args.ebx.setWidth 16) args.edi) (args.target n) n) := by
  obtain ⟨hbyte, hword, hdword⟩ := dataAddr_config (args.ebx.setWidth 16) args.edi
  rcases configCall_read hcall with ⟨heax, rfl⟩ | ⟨heax, rfl⟩ | ⟨heax, rfl⟩
  · have hin := h.in_data (isDataPort_dataPort (args.ebx.setWidth 16) args.edi
      (by decide : 3#32 &&& 3#32 = 3#32)) 1
    have hwide := setWidth_ofNat_ofLE (by decide : 8 ≤ 32) (ofLE_load_lt h.space (args.target 1) 1)
    simp only [pcibiosHandler, heax, ConfigPorts.readb, hin, hbyte]
    rw [← hwide]
    rfl
  · have hin := h.in_data (isDataPort_dataPort (args.ebx.setWidth 16) args.edi
      (by decide : 2#32 &&& 3#32 = 2#32)) 2
    have hwide := setWidth_ofNat_ofLE (by decide : 16 ≤ 32) (ofLE_load_lt h.space (args.target 2) 2)
    simp only [pcibiosHandler, heax, ConfigPorts.readw, hin, hword]
    rw [← hwide]
    rfl
  · have hin := h.in_data (isDataPort_dataPort (args.ebx.setWidth 16) args.edi
      (by decide : 0#32 &&& 3#32 = 0#32)) 4
    have hport : dataPort 0#32 args.edi = 0xcfc#16 := by
      rw [dataPort, BitVec.and_zero]
      rfl
    rw [hport] at hin
    simp only [pcibiosHandler, heax, ConfigPorts.readl, hin, hdword]
    rfl

theorem pcibiosHandler_write (maxBus : BitVec 8) {args : Bios32Regs} (h : ConfigPorts) {n : Nat}
    (hcall : configCall args.eax = some (true, n)) :
    pcibiosHandler maxBus args h =
      (args.success, h.written (configAddress (args.ebx.setWidth 16) args.edi) (args.target n)
        (toLE n args.ecx.toNat)) := by
  obtain ⟨hbyte, hword, hdword⟩ := dataAddr_config (args.ebx.setWidth 16) args.edi
  rcases configCall_write hcall with ⟨heax, rfl⟩ | ⟨heax, rfl⟩ | ⟨heax, rfl⟩
  · have hout := h.out_data (isDataPort_dataPort (args.ebx.setWidth 16) args.edi
      (by decide : 3#32 &&& 3#32 = 3#32)) (toLE 1 (args.ecx.setWidth 8).toNat)
    have hval : toLE 1 (args.ecx.setWidth 8).toNat = toLE 1 args.ecx.toNat := by
      rw [BitVec.toNat_setWidth]
      exact toLE_mod 1 _
    rw [hbyte, hval] at hout
    simp only [pcibiosHandler, heax, ConfigPorts.writeb, hval, hout]
    rfl
  · have hout := h.out_data (isDataPort_dataPort (args.ebx.setWidth 16) args.edi
      (by decide : 2#32 &&& 3#32 = 2#32)) (toLE 2 (args.ecx.setWidth 16).toNat)
    have hval : toLE 2 (args.ecx.setWidth 16).toNat = toLE 2 args.ecx.toNat := by
      rw [BitVec.toNat_setWidth]
      exact toLE_mod 2 _
    rw [hword, hval] at hout
    simp only [pcibiosHandler, heax, ConfigPorts.writew, hval, hout]
    rfl
  · have hout := h.out_data (isDataPort_dataPort (args.ebx.setWidth 16) args.edi
      (by decide : 0#32 &&& 3#32 = 0#32)) (toLE 4 args.ecx.toNat)
    have hport : dataPort 0#32 args.edi = 0xcfc#16 := by
      rw [dataPort, BitVec.and_zero]
      rfl
    rw [hport, hdword] at hout
    simp only [pcibiosHandler, heax, ConfigPorts.writel, hout]
    rfl

theorem pcibiosHandler_other (maxBus : BitVec 8) {args : Bios32Regs} (h : ConfigPorts)
    (hcall : configCall args.eax = none) : (pcibiosHandler maxBus args h).2 = h := by
  unfold configCall at hcall
  split_ifs at hcall
  unfold pcibiosHandler
  split_ifs <;> rfl

/-! ### Sequences of calls -/

/-- The ports after the calls of an operating system, the first one first. -/
def runPcibios (maxBus : BitVec 8) : List Bios32Regs → ConfigPorts → ConfigPorts
  | [], h => h
  | args :: later, h => runPcibios maxBus later (pcibiosHandler maxBus args h).2

/-- What a call asks to put into a byte of config space. -/
def Bios32Regs.byteWritten (args : Bios32Regs) (a : BitVec 24) : Option Byte :=
  match configCall args.eax with
  | some (true, n) => (toLE n args.ecx.toNat)[offset (args.target n) a]?
  | _ => none

/-- The latest byte that the calls put there. -/
def latestWrite : List Bios32Regs → BitVec 24 → Option Byte
  | [], _ => none
  | args :: later, a => (latestWrite later a).or (args.byteWritten a)

/-- Config space with the latest bytes of the calls in it. -/
def latestSpace (calls : List Bios32Regs) (space : Memory 24) : Memory 24 := fun a =>
  (latestWrite calls a).getD (space a)

theorem pcibiosHandler_space (maxBus : BitVec 8) (args : Bios32Regs) (h : ConfigPorts)
    (a : BitVec 24) :
    (pcibiosHandler maxBus args h).2.space a = (args.byteWritten a).getD (h.space a) := by
  cases hcall : configCall args.eax with
  | none =>
    rw [pcibiosHandler_other maxBus h hcall, Bios32Regs.byteWritten, hcall]
    rfl
  | some call =>
    obtain ⟨write, n⟩ := call
    cases write with
    | false =>
      rw [pcibiosHandler_read maxBus h hcall, Bios32Regs.byteWritten, hcall]
      rfl
    | true =>
      rw [pcibiosHandler_write maxBus h hcall, Bios32Regs.byteWritten, hcall]
      exact List.getD_eq_getElem?_getD

/-- After any calls, every byte is the latest one that a call put there. -/
theorem runPcibios_space (maxBus : BitVec 8) (calls : List Bios32Regs) (h : ConfigPorts) :
    (runPcibios maxBus calls h).space = latestSpace calls h.space := by
  induction calls generalizing h with
  | nil => rfl
  | cons args later ih =>
    rw [runPcibios, ih]
    funext a
    rw [latestSpace, latestSpace, latestWrite, pcibiosHandler_space]
    cases latestWrite later a with
    | none => rfl
    | some b => rfl

/-! ### Success -/

/-- CF is clear and AH is zero. -/
def Bios32Regs.Succeeded (args : Bios32Regs) : Prop :=
  args.eflags &&& X86_EFLAGS_CF.setWidth 32 = 0#32 ∧ args.eax &&& 0xff00#32 = 0#32

/-- CF is set and AH is not zero. -/
def Bios32Regs.Failed (args : Bios32Regs) : Prop :=
  args.eflags &&& X86_EFLAGS_CF.setWidth 32 ≠ 0#32 ∧ args.eax &&& 0xff00#32 ≠ 0#32

theorem Bios32Regs.success_succeeded {args : Bios32Regs}
    (hcf : args.eflags &&& X86_EFLAGS_CF.setWidth 32 = 0#32) : args.success.Succeeded := by
  refine ⟨hcf, ?_⟩
  change args.eax &&& ~~~0xff00#32 &&& 0xff00#32 = 0#32
  rw [BitVec.and_assoc]
  exact BitVec.and_zero

/-- After any calls, a call with one of the six numbers succeeds; CF is as on
entry, where `pcibios_entry` clears it. The call reaches its width of bytes from
the register it asks for, modulo 256 and rounded down, and nothing else: a read
puts the latest bytes there into ECX, a write puts the low bytes of ECX there.
The other registers stay as they are. -/
theorem pcibiosHandler_config (maxBus : BitVec 8) (calls : List Bios32Regs) (h : ConfigPorts)
    {args : Bios32Regs} {write : Bool} {n : Nat} (hcall : configCall args.eax = some (write, n)) :
    let before := runPcibios maxBus calls h
    let after := pcibiosHandler maxBus args before
    let p := configByte (args.ebx.setWidth 16) (registerOf n args.edi)
    (args.eflags &&& X86_EFLAGS_CF.setWidth 32 = 0#32 → after.1.Succeeded) ∧
      after.1 = { args with
        eax := args.eax &&& ~~~0xff00#32
        ecx := if write then args.ecx
          else BitVec.ofNat 32 (ofLE (load (latestSpace calls h.space) p n)) } ∧
      after.2.accesses = before.accesses ++ [⟨write, p, n⟩] ∧
      after.2.space =
        if write then store before.space p (toLE n args.ecx.toNat) else before.space := by
  intro before after p
  have hspace : before.space = latestSpace calls h.space := runPcibios_space maxBus calls h
  cases write with
  | false =>
    have hafter : after = _ := pcibiosHandler_read maxBus before hcall
    rw [hafter, hspace]
    exact ⟨Bios32Regs.success_succeeded, rfl, rfl, hspace⟩
  | true =>
    have hafter : after = _ := pcibiosHandler_write maxBus before hcall
    rw [hafter]
    refine ⟨Bios32Regs.success_succeeded, rfl, ?_, rfl⟩
    rw [ConfigPorts.written, length_toLE]
    rfl

/-- A register file that asks for one register of function 0. -/
def configRegs (eax edi : BitVec 32) : Bios32Regs where
  eax := eax
  ebx := 0#32
  ecx := 0x12345678#32
  edx := 0#32
  esp := 0#32
  ebp := 0#32
  esi := 0#32
  edi := edi
  ds := 0#32
  es := 0#32
  fs := 0#32
  eflags := 2#32

def emptySpace : ConfigPorts where
  latch := 0#32
  space := fun _ => 0#8
  accesses := []

/-- The upper half of a dword that was written. -/
theorem pcibiosHandler_config_word :
    let after := pcibiosHandler 0#8 (configRegs 0xb109#32 0x12#32)
      (runPcibios 0#8 [configRegs 0xb10d#32 0x10#32] emptySpace)
    after.1.Succeeded ∧ after.1.ecx = 0x1234#32 ∧
      after.2.space (configByte 0#16 0x10#8) = 0x78#8 := by
  obtain ⟨hsucceeded, hregs, -, hspace⟩ :=
    pcibiosHandler_config 0#8 [configRegs 0xb10d#32 0x10#32] emptySpace
      (show configCall (configRegs 0xb109#32 0x12#32).eax = some (false, 2) from rfl)
  refine ⟨hsucceeded rfl, (congrArg Bios32Regs.ecx hregs).trans (by decide +kernel), ?_⟩
  exact (congrFun hspace _).trans (by decide +kernel)

/-- A dword at register 1 is read from register 0. -/
theorem pcibiosHandler_aliases : ¬ ∀ (maxBus : BitVec 8) (args : Bios32Regs) (h : ConfigPorts)
    (write : Bool) (n : Nat), configCall args.eax = some (write, n) →
    args.eflags &&& X86_EFLAGS_CF.setWidth 32 = 0#32 →
    let after := pcibiosHandler maxBus args h
    after.1.Failed ∧ after.2.space = h.space ∨
      after.1.Succeeded ∧ after.2.accesses = h.accesses ++
        [⟨write, configByte (args.ebx.setWidth 16) (BitVec.ofNat 8 args.edi.toNat), n⟩] := by
  intro hall
  rcases hall 0#8 (configRegs 0xb10a#32 1#32) emptySpace false 4 rfl rfl with
    ⟨hfailed, -⟩ | ⟨-, hreach⟩
  · exact hfailed.1 (by decide)
  · revert hreach
    decide

end Qboot
