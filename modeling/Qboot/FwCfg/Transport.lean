import Qboot.Machine

/-!
The fw_cfg device and the two ways in which fw_cfg.c talks to it: port reads
and the DMA interface. The device keeps one selected key and a read position;
reads past the end of an entry give zero bytes. Both transports move the same
bytes, so everything above this module reads entries without knowing which
one is in use.
-/

namespace Qboot

open Bytes ByteMemory

/-! ### The device -/

/-- `n` bytes of an entry from position `pos` on, zero past the end. -/
def entryBytes (content : List Byte) (pos n : Nat) : List Byte :=
  (List.range n).map fun i => content.getD (pos + i) 0

@[simp] theorem length_entryBytes (content : List Byte) (pos n : Nat) :
    (entryBytes content pos n).length = n := by
  simp [entryBytes]

theorem entryBytes_all (content : List Byte) : entryBytes content 0 content.length = content := by
  apply List.ext_getElem
  · rw [length_entryBytes]
  · intro i hi hi'
    simp [entryBytes, hi']

/-- The bytes of an entry between those in front of them and those behind them. -/
theorem entryBytes_middle (as bs cs : List Byte) :
    entryBytes (as ++ (bs ++ cs)) as.length bs.length = bs := by
  apply List.ext_getElem
  · rw [length_entryBytes]
  · intro i hi hi'
    simp [entryBytes, List.getElem?_append_right, List.getElem?_append_left hi', hi']

theorem entryBytes_add (content : List Byte) (pos n k : Nat) :
    entryBytes content pos (n + k) =
      entryBytes content pos n ++ entryBytes content (pos + n) k := by
  simp only [entryBytes, List.range_add, List.map_append, List.map_map]
  congr 1
  apply List.map_congr_left
  intro i _
  simp only [Function.comp_apply, Nat.add_assoc]

namespace FwCfg

def select (d : FwCfg) (key : BitVec 16) : FwCfg := { d with key := key, pos := 0 }

def next (d : FwCfg) (n : Nat) : List Byte := entryBytes (d.entry d.key) d.pos n

def skip (d : FwCfg) (n : Nat) : FwCfg := { d with pos := d.pos + n }

@[simp] theorem select_entry (d : FwCfg) (key : BitVec 16) : (d.select key).entry = d.entry := rfl

@[simp] theorem select_key (d : FwCfg) (key : BitVec 16) : (d.select key).key = key := rfl

@[simp] theorem select_pos (d : FwCfg) (key : BitVec 16) : (d.select key).pos = 0 := rfl

@[simp] theorem skip_entry (d : FwCfg) (n : Nat) : (d.skip n).entry = d.entry := rfl

@[simp] theorem skip_key (d : FwCfg) (n : Nat) : (d.skip n).key = d.key := rfl

@[simp] theorem skip_pos (d : FwCfg) (n : Nat) : (d.skip n).pos = d.pos + n := rfl

@[simp] theorem skip_zero (d : FwCfg) : d.skip 0 = d := rfl

theorem skip_skip (d : FwCfg) (n k : Nat) : (d.skip n).skip k = d.skip (n + k) := by
  simp [skip, Nat.add_assoc]

theorem next_select_skip (d : FwCfg) (key : BitVec 16) (n k : Nat) :
    ((d.select key).skip n).next k = entryBytes (d.entry key) n k := by
  rw [next, skip_pos, select_pos, Nat.zero_add, skip_entry, select_entry, skip_key, select_key]

@[simp] theorem length_next (d : FwCfg) (n : Nat) : (d.next n).length = n := by
  simp [next]

end FwCfg

/-! ### Byte order -/

/-- The number with the `n` bytes of `x` in reverse order. -/
def bswap (n : Nat) (x : BitVec (8 * n)) : BitVec (8 * n) :=
  BitVec.ofNat (8 * n) (ofLE (toLE n x.toNat).reverse)

def bswap16 (x : BitVec 16) : BitVec 16 := bswap 2 x

def bswap32 (x : BitVec 32) : BitVec 32 := bswap 4 x

def bswap64 (x : BitVec 64) : BitVec 64 := bswap 8 x

theorem bswap_bswap (n : Nat) (x : BitVec (8 * n)) : bswap n (bswap n x) = x := by
  have hpow : 2 ^ (8 * n) = 256 ^ n := by
    rw [Nat.pow_mul]
  have hlt : ofLE (toLE n x.toNat).reverse < 256 ^ n := by
    have h := ofLE_lt (toLE n x.toNat).reverse
    rwa [List.length_reverse, length_toLE] at h
  have hback : toLE n (ofLE (toLE n x.toNat).reverse) = (toLE n x.toNat).reverse := by
    have h := toLE_ofLE (toLE n x.toNat).reverse
    rwa [List.length_reverse, length_toLE] at h
  apply BitVec.eq_of_toNat_eq
  simp only [bswap, BitVec.toNat_ofNat]
  rw [hpow, Nat.mod_eq_of_lt hlt, hback, List.reverse_reverse, ofLE_toLE, Nat.mod_mod,
    Nat.mod_eq_of_lt (hpow ▸ x.isLt)]

@[simp] theorem bswap16_bswap16 (x : BitVec 16) : bswap16 (bswap16 x) = x := bswap_bswap 2 x

@[simp] theorem bswap32_bswap32 (x : BitVec 32) : bswap32 (bswap32 x) = x := bswap_bswap 4 x

@[simp] theorem bswap64_bswap64 (x : BitVec 64) : bswap64 (bswap64 x) = x := bswap_bswap 8 x

/-! ### Ports and DMA -/

def FW_CFG_VERSION_DMA : BitVec 32 := 0x02#32
def FW_CFG_DMA_CTL_READ : BitVec 32 := 0x02#32
def FW_CFG_DMA_CTL_SKIP : BitVec 32 := 0x04#32
def FW_CFG_DMA_CTL_SELECT : BitVec 32 := 0x08#32

/-- `outw(FW_CFG_CTL, f)` -/
def fwCfgSelect (f : BitVec 16) : Fw Unit :=
  modify fun s => { s with dev := s.dev.select f }

/-- `inb(FW_CFG_DATA)` -/
def fwCfgReadb : Fw Byte :=
  modifyGet fun s => ((s.dev.next 1).headD 0, { s with dev := s.dev.skip 1 })

/-- `insb(buf, FW_CFG_DATA, len)` -/
def insb (buf len : BitVec 32) : Fw Unit :=
  modify fun s => { s with
    mem := store s.mem buf (s.dev.next len.toNat), dev := s.dev.skip len.toNat }

def fwCfgReadlBe : Fw (BitVec 32) := do
  let b0 ← fwCfgReadb
  let b1 ← fwCfgReadb
  let b2 ← fwCfgReadb
  let b3 ← fwCfgReadb
  pure (BitVec.ofNat 32 (ofLE [b3, b2, b1, b0]))

def fwCfgReadlLe : Fw (BitVec 32) := do
  let b0 ← fwCfgReadb
  let b1 ← fwCfgReadb
  let b2 ← fwCfgReadb
  let b3 ← fwCfgReadb
  pure (BitVec.ofNat 32 (ofLE [b0, b1, b2, b3]))

/-- `struct fw_cfg_dma_descriptor` as its words lie in memory; the device
reads each of them as a big-endian number. -/
structure FwCfgDmaDescriptor where
  control : BitVec 32
  length : BitVec 32
  address : BitVec 64

/-- What the device does when the descriptor's address is written to the DMA
address register. It then clears the control word, which ends the wait loop
of `fw_cfg_dma`. -/
def Firmware.dmaTransfer (s : Firmware) (dma : FwCfgDmaDescriptor) : Firmware :=
  let control := bswap32 dma.control
  let length := (bswap32 dma.length).toNat
  let address := (bswap64 dma.address).setWidth 32
  let dev := if control &&& FW_CFG_DMA_CTL_SELECT ≠ 0 then
      s.dev.select ((control >>> 16).setWidth 16)
    else s.dev
  if control &&& FW_CFG_DMA_CTL_READ ≠ 0 then
    { s with mem := store s.mem address (dev.next length), dev := dev.skip length }
  else if control &&& FW_CFG_DMA_CTL_SKIP ≠ 0 then
    { s with dev := dev.skip length }
  else { s with dev := dev }

def fwCfgDma (control buf len : BitVec 32) : Fw Unit :=
  modify fun s => s.dmaTransfer
    { control := bswap32 control
      length := bswap32 len
      address := bswap64 (buf.setWidth 64) }

def fwCfgRead (buf len : BitVec 32) : Fw Unit := do
  let s ← get
  if s.version &&& FW_CFG_VERSION_DMA ≠ 0 then
    fwCfgDma FW_CFG_DMA_CTL_READ buf len
  else
    insb buf len

def fwCfgReadEntry (e buf len : BitVec 32) : Fw Unit := do
  let s ← get
  if s.version &&& FW_CFG_VERSION_DMA ≠ 0 then
    fwCfgDma (e <<< 16 ||| FW_CFG_DMA_CTL_SELECT ||| FW_CFG_DMA_CTL_READ) buf len
  else do
    fwCfgSelect (e.setWidth 16)
    insb buf len

/-! ### What a read does -/

@[simp] theorem fwCfgSelect_apply (f : BitVec 16) (s : Firmware) :
    fwCfgSelect f s = .ok () { s with dev := s.dev.select f } := rfl

@[simp] theorem insb_apply (buf len : BitVec 32) (s : Firmware) :
    insb buf len s = .ok () { s with
      mem := store s.mem buf (s.dev.next len.toNat), dev := s.dev.skip len.toNat } := rfl

private theorem next_four (d : FwCfg) :
    d.next 4 = [(d.next 1).headD 0, ((d.skip 1).next 1).headD 0,
      ((d.skip 2).next 1).headD 0, ((d.skip 3).next 1).headD 0] := by
  simp [FwCfg.next, entryBytes, FwCfg.skip, List.range_succ]

theorem fwCfgReadlLe_apply (s : Firmware) :
    fwCfgReadlLe s = .ok (BitVec.ofNat 32 (ofLE (s.dev.next 4)))
      { s with dev := s.dev.skip 4 } := by
  rw [next_four]
  rfl

/-- The little-endian word at the start of an entry. -/
def FwCfg.word (d : FwCfg) (key : BitVec 16) : BitVec 32 :=
  BitVec.ofNat 32 (ofLE (entryBytes (d.entry key) 0 4))

/-- Reading a word from an entry that was just selected. -/
theorem fwCfgReadlLe_select (key : BitVec 16) (s : Firmware) :
    fwCfgReadlLe { s with dev := s.dev.select key } =
      .ok (s.dev.word key) { s with dev := (s.dev.select key).skip 4 } :=
  fwCfgReadlLe_apply _

theorem fwCfgReadlBe_apply (s : Firmware) :
    fwCfgReadlBe s = .ok (BitVec.ofNat 32 (ofLE (s.dev.next 4).reverse))
      { s with dev := s.dev.skip 4 } := by
  rw [next_four]
  rfl

theorem fwCfgDma_read (buf len : BitVec 32) (s : Firmware) :
    fwCfgDma FW_CFG_DMA_CTL_READ buf len s = insb buf len s := by
  have haddr : (buf.setWidth 64).setWidth 32 = buf := by
    apply BitVec.eq_of_toNat_eq
    simp
  simp [fwCfgDma, Firmware.dmaTransfer, haddr, FW_CFG_DMA_CTL_READ, FW_CFG_DMA_CTL_SELECT]

/-- The key travels in the upper half of the control word. -/
theorem fwCfgDma_select_read (e buf len : BitVec 32) (s : Firmware) :
    fwCfgDma (e <<< 16 ||| FW_CFG_DMA_CTL_SELECT ||| FW_CFG_DMA_CTL_READ) buf len s =
      insb buf len { s with dev := s.dev.select (e.setWidth 16) } := by
  have haddr : (buf.setWidth 64).setWidth 32 = buf := by
    apply BitVec.eq_of_toNat_eq
    simp
  have hshift : (e <<< 16 ||| 8#32 ||| 2#32) >>> 16 = (e <<< 16) >>> 16 := by
    rw [BitVec.ushiftRight_or_distrib, BitVec.ushiftRight_or_distrib]
    simp
  have hkey : ((e <<< 16 ||| 8#32 ||| 2#32) >>> 16).setWidth 16 = e.setWidth 16 := by
    rw [hshift]
    ext i hi
    simp
    omega
  have hselect : (e <<< 16 ||| 8#32 ||| 2#32) &&& 8#32 ≠ 0 := by
    intro h
    have hbit := congrArg (fun v => v.getLsbD 3) h
    simp at hbit
  have hread : (e <<< 16 ||| 8#32 ||| 2#32) &&& 2#32 ≠ 0 := by
    intro h
    have hbit := congrArg (fun v => v.getLsbD 1) h
    simp at hbit
  simp only [fwCfgDma, Firmware.dmaTransfer, FW_CFG_DMA_CTL_READ, FW_CFG_DMA_CTL_SELECT,
    StateRun.modify_apply, bswap32_bswap32, bswap64_bswap64, haddr]
  rw [if_pos hread, if_pos hselect, hkey]
  rfl

/-- Reading on in the selected entry, with either transport. -/
@[simp] theorem fwCfgRead_apply (buf len : BitVec 32) (s : Firmware) :
    fwCfgRead buf len s = .ok () { s with
      mem := store s.mem buf (s.dev.next len.toNat), dev := s.dev.skip len.toNat } := by
  rw [← insb_apply, fwCfgRead, StateRun.bind_apply, StateRun.get_apply]
  by_cases hdma : s.version &&& FW_CFG_VERSION_DMA ≠ 0
  · simp only [if_pos hdma, fwCfgDma_read]
  · simp only [if_neg hdma]

/-- Reading an entry from its start, with either transport. -/
@[simp] theorem fwCfgReadEntry_apply (e buf len : BitVec 32) (s : Firmware) :
    fwCfgReadEntry e buf len s = .ok () { s with
      mem := store s.mem buf (entryBytes (s.dev.entry (e.setWidth 16)) 0 len.toNat)
      dev := (s.dev.select (e.setWidth 16)).skip len.toNat } := by
  have hport : (fwCfgSelect (e.setWidth 16) >>= fun _ => insb buf len) s =
      insb buf len { s with dev := s.dev.select (e.setWidth 16) } := rfl
  have hinsb : insb buf len { s with dev := s.dev.select (e.setWidth 16) } = .ok () { s with
      mem := store s.mem buf (entryBytes (s.dev.entry (e.setWidth 16)) 0 len.toNat)
      dev := (s.dev.select (e.setWidth 16)).skip len.toNat } := rfl
  rw [← hinsb, fwCfgReadEntry, StateRun.bind_apply, StateRun.get_apply]
  by_cases hdma : s.version &&& FW_CFG_VERSION_DMA ≠ 0
  · simp only [if_pos hdma, fwCfgDma_select_read]
  · simp only [if_neg hdma, hport]

end Qboot
