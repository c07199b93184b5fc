import Qboot.Machine

/-!
The SMBIOS entry point as a record, and its 31 bytes. Two of its bytes are
checksums: one over the first 16 bytes, one over the rest.
-/

namespace Qboot

open Bytes ByteMemory

/-- `struct smbios_entry_point`. -/
structure SmbiosEntryPoint where
  signature : BitVec 32
  checksum : Byte
  length : Byte
  smbiosMajorVersion : Byte
  smbiosMinorVersion : Byte
  maxStructureSize : BitVec 16
  entryPointRevision : Byte
  formattedArea : BitVec 40
  intermediateAnchorString : BitVec 40
  intermediateChecksum : Byte
  structureTableLength : BitVec 16
  structureTableAddress : BitVec 32
  numberOfStructures : BitVec 16
  smbiosBcdRevision : Byte

namespace SmbiosEntryPoint

/-- The first 16 bytes, which `checksum` covers. -/
def encodeHead (e : SmbiosEntryPoint) : List Byte :=
  toLE 4 e.signature.toNat ++
    [e.checksum, e.length, e.smbiosMajorVersion, e.smbiosMinorVersion] ++
    toLE 2 e.maxStructureSize.toNat ++ [e.entryPointRevision] ++ toLE 5 e.formattedArea.toNat

/-- The other 15 bytes, which `intermediate_checksum` covers. -/
def encodeTail (e : SmbiosEntryPoint) : List Byte :=
  toLE 5 e.intermediateAnchorString.toNat ++ [e.intermediateChecksum] ++
    toLE 2 e.structureTableLength.toNat ++ toLE 4 e.structureTableAddress.toNat ++
    toLE 2 e.numberOfStructures.toNat ++ [e.smbiosBcdRevision]

def encode (e : SmbiosEntryPoint) : List Byte := e.encodeHead ++ e.encodeTail

def decode (bs : List Byte) : SmbiosEntryPoint where
  signature := BitVec.ofNat 32 (ofLE (slice bs 0 4))
  checksum := bs.getD 4 0
  length := bs.getD 5 0
  smbiosMajorVersion := bs.getD 6 0
  smbiosMinorVersion := bs.getD 7 0
  maxStructureSize := BitVec.ofNat 16 (ofLE (slice bs 8 2))
  entryPointRevision := bs.getD 10 0
  formattedArea := BitVec.ofNat 40 (ofLE (slice bs 11 5))
  intermediateAnchorString := BitVec.ofNat 40 (ofLE (slice bs 16 5))
  intermediateChecksum := bs.getD 21 0
  structureTableLength := BitVec.ofNat 16 (ofLE (slice bs 22 2))
  structureTableAddress := BitVec.ofNat 32 (ofLE (slice bs 24 4))
  numberOfStructures := BitVec.ofNat 16 (ofLE (slice bs 28 2))
  smbiosBcdRevision := bs.getD 30 0

@[simp] theorem length_encodeHead (e : SmbiosEntryPoint) : e.encodeHead.length = 16 := rfl

@[simp] theorem length_encodeTail (e : SmbiosEntryPoint) : e.encodeTail.length = 15 := rfl

@[simp] theorem length_encode (e : SmbiosEntryPoint) : e.encode.length = 31 := rfl

theorem decode_encode (e : SmbiosEntryPoint) : decode e.encode = e := by
  have h16 (v : BitVec 16) : BitVec.ofNat 16 (ofLE (toLE 2 v.toNat)) = v := ofNat_ofLE_toLE 2 v
  have h32 (v : BitVec 32) : BitVec.ofNat 32 (ofLE (toLE 4 v.toNat)) = v := ofNat_ofLE_toLE 4 v
  have h40 (v : BitVec 40) : BitVec.ofNat 40 (ofLE (toLE 5 v.toNat)) = v := ofNat_ofLE_toLE 5 v
  cases e with
  | mk signature checksum length major minor maxSize revision formatted anchor intermediate
      tableLength tableAddress number bcd =>
    have hdecode : decode (encode ⟨signature, checksum, length, major, minor, maxSize, revision,
        formatted, anchor, intermediate, tableLength, tableAddress, number, bcd⟩) =
      ⟨BitVec.ofNat 32 (ofLE (toLE 4 signature.toNat)), checksum, length, major, minor,
        BitVec.ofNat 16 (ofLE (toLE 2 maxSize.toNat)), revision,
        BitVec.ofNat 40 (ofLE (toLE 5 formatted.toNat)),
        BitVec.ofNat 40 (ofLE (toLE 5 anchor.toNat)), intermediate,
        BitVec.ofNat 16 (ofLE (toLE 2 tableLength.toNat)),
        BitVec.ofNat 32 (ofLE (toLE 4 tableAddress.toNat)),
        BitVec.ofNat 16 (ofLE (toLE 2 number.toNat)), bcd⟩ := rfl
    rw [hdecode]
    simp only [h16, h32, h40]

theorem encode_decode {bs : List Byte} (h : bs.length = 31) : (decode bs).encode = bs := by
  have h16 (k : Nat) (hk : k + 2 ≤ 31) :
      toLE 2 (BitVec.ofNat 16 (ofLE (slice bs k 2))).toNat = slice bs k 2 :=
    toLE_word k 2 (by omega)
  have h32 (k : Nat) (hk : k + 4 ≤ 31) :
      toLE 4 (BitVec.ofNat 32 (ofLE (slice bs k 4))).toNat = slice bs k 4 :=
    toLE_word k 4 (by omega)
  have h40 (k : Nat) (hk : k + 5 ≤ 31) :
      toLE 5 (BitVec.ofNat 40 (ofLE (slice bs k 5))).toNat = slice bs k 5 :=
    toLE_word k 5 (by omega)
  have hbyte (k : Nat) (hk : k < 31) : [bs.getD k 0] = slice bs k 1 := by
    rw [slice, List.take_one_drop_eq_of_lt_length (by omega), List.getD_eq_getElem _ _ (by omega)]
    rfl
  have hencode : (decode bs).encode =
      slice bs 0 4 ++ slice bs 4 1 ++ slice bs 5 1 ++ slice bs 6 1 ++ slice bs 7 1 ++
        slice bs 8 2 ++ slice bs 10 1 ++ slice bs 11 5 ++ slice bs 16 5 ++ slice bs 21 1 ++
        slice bs 22 2 ++ slice bs 24 4 ++ slice bs 28 2 ++ slice bs 30 1 := by
    rw [← h32 0 (by omega), ← hbyte 4 (by omega), ← hbyte 5 (by omega), ← hbyte 6 (by omega),
      ← hbyte 7 (by omega), ← h16 8 (by omega), ← hbyte 10 (by omega), ← h40 11 (by omega),
      ← h40 16 (by omega), ← hbyte 21 (by omega), ← h16 22 (by omega), ← h32 24 (by omega),
      ← h16 28 (by omega), ← hbyte 30 (by omega)]
    rfl
  have hall : slice bs 0 31 = bs := by rw [← h, slice_zero]
  rw [hencode, slice_append_slice bs 0 4 1, slice_append_slice bs 0 5 1,
    slice_append_slice bs 0 6 1, slice_append_slice bs 0 7 1, slice_append_slice bs 0 8 2,
    slice_append_slice bs 0 10 1, slice_append_slice bs 0 11 5, slice_append_slice bs 0 16 5,
    slice_append_slice bs 0 21 1, slice_append_slice bs 0 22 2, slice_append_slice bs 0 24 4,
    slice_append_slice bs 0 28 2, slice_append_slice bs 0 30 1, hall]

end SmbiosEntryPoint

end Qboot
