import Qboot.Smbios.Walk

/-!
`smbios_new_type_0` for any three arguments. The macro writes a string behind
the last one and counts it, or writes nothing; the structure that results is
well formed in each case, and the walk of `smbios_next` ends behind it.
-/

namespace Qboot

open Bytes ByteMemory

/-! ### The structure for given arguments -/

/-- What an argument adds to the string set: nothing if it is NULL or empty. -/
def presentString : Option (List Byte) → List (List Byte)
  | none => []
  | some [] => []
  | some (c :: cs) => [c :: cs]

/-- The string field for an argument when `n` strings are in the set already. -/
def stringIndex (n : Nat) (value : Option (List Byte)) : Byte :=
  if presentString value = [] then 0#8 else BitVec.ofNat 8 (n + 1)

/-- What a string field has to say: 0 for an argument that is NULL or empty, and
otherwise the 1-based index of the argument in the string set. -/
def NamesString (strings : List (List Byte)) (field : Byte) : Option (List Byte) → Prop
  | none => field = 0#8
  | some [] => field = 0#8
  | some (c :: cs) => field ≠ 0#8 ∧ strings[field.toNat - 1]? = some (c :: cs)

section Structure

variable (vendor version date : Option CString)

def CString.argument (value : Option CString) : Option (List Byte) := value.map CString.chars

/-- The string set that the three arguments make. -/
def type0Strings : List (List Byte) :=
  presentString (CString.argument vendor) ++ presentString (CString.argument version) ++
    presentString (CString.argument date)

def vendorIndex : Byte := stringIndex 0 (CString.argument vendor)

def versionIndex : Byte :=
  stringIndex (presentString (CString.argument vendor)).length (CString.argument version)

def dateIndex : Byte :=
  stringIndex ((presentString (CString.argument vendor)).length +
    (presentString (CString.argument version)).length) (CString.argument date)

theorem presentString_ok (value : Option CString) :
    ∀ t ∈ presentString (CString.argument value), t ≠ [] ∧ 0#8 ∉ t := by
  cases value with
  | none =>
    intro t ht
    cases ht
  | some s =>
    have hnul := s.noNul
    intro t ht
    cases hchars : s.chars with
    | nil =>
      rw [CString.argument, Option.map_some, hchars] at ht
      cases ht
    | cons c cs =>
      rw [CString.argument, Option.map_some, hchars] at ht
      rw [hchars] at hnul
      obtain rfl := List.mem_singleton.mp ht
      exact ⟨List.cons_ne_nil _ _, hnul⟩

/-- The structure `smbios_new_type_0` has to write for the three arguments. -/
def type0Structure : SmbiosStructure where
  type := 0#8
  handle := 0#16
  formatted := [vendorIndex vendor, versionIndex vendor version, 0x00#8, 0xe8#8,
    dateIndex vendor version date, 0#8, 0x08#8, 0#8, 0#8, 0#8, 0#8, 0#8, 0#8, 0#8, 0#8, 4#8,
    0#8, 0#8, 0xff#8, 0xff#8]
  strings := type0Strings vendor version date
  formatted_lt := (by decide : 20 + 4 < 256)
  strings_ok := by
    intro t ht
    rcases List.mem_append.mp ht with h | h
    · rcases List.mem_append.mp h with h | h
      · exact presentString_ok vendor t h
      · exact presentString_ok version t h
    · exact presentString_ok date t h

theorem length_type0Structure : (type0Structure vendor version date).length = 24 := rfl

end Structure

/-! ### The stores of `smbios_new_type_0` -/

/-- The bytes of an argument in the string set. -/
def stringBytes (value : Option (List Byte)) : List Byte := nulTerminated (presentString value)

/-- The machine once fields of the block at `p` are written. -/
def Firmware.withFields (s : Firmware) (p : BitVec 32) (fields : List (Nat × List Byte)) :
    Firmware :=
  { s with mem := storeFields s.mem p fields }

section Fields

variable (start : BitVec 32) (s : Firmware) (fs : List (Nat × List Byte))

theorem poke_withFields (k : Nat) (bs : List Byte) :
    poke (start + BitVec.ofNat 32 k) bs (s.withFields start fs) =
      .ok () (s.withFields start (fs ++ [(k, bs)])) := by
  rw [poke_apply, Firmware.withFields, Firmware.withFields, storeFields, storeFields,
    List.foldl_append]
  rfl

/-- The macro stores an argument behind the strings so far and counts it, and
stores 0 for an argument that is NULL or empty. -/
theorem setStrFieldOrSkip_withFields (field k n : Nat) (value : Option (List Byte)) :
    setStrFieldOrSkip start field value (start + BitVec.ofNat 32 k) n (s.withFields start fs) =
      .ok (start + BitVec.ofNat 32 (k + (stringBytes value).length),
          n + (presentString value).length)
        (s.withFields start (fs ++ [(k, stringBytes value), (field, [stringIndex n value])])) := by
  have hnone : s.withFields start (fs ++ [(k, []), (field, [0#8])]) =
      s.withFields start (fs ++ [(field, [0#8])]) := by
    rw [Firmware.withFields, Firmware.withFields, storeFields, storeFields, List.foldl_append,
      List.foldl_append, List.foldl_cons, store_nil]
  rcases value with _ | ⟨_ | ⟨c, cs⟩⟩
  · rw [setStrFieldOrSkip, StateRun.bind_of_ok (poke_withFields start s fs field [0#8]), ← hnone]
    rfl
  · rw [setStrFieldOrSkip, StateRun.bind_of_ok (poke_withFields start s fs field [0#8]), ← hnone]
    rfl
  · have hbytes : stringBytes (some (c :: cs)) = c :: cs ++ [0#8] := by
      simp [stringBytes, presentString, nulTerminated]
    have hsize : k + (c :: cs ++ [0#8]).length = k + (cs.length + 2) := by simp
    rw [hbytes, hsize, BitVec.ofNat_add, ← BitVec.add_assoc, setStrFieldOrSkip,
      StateRun.bind_of_ok (poke_withFields start s fs k _),
      StateRun.bind_of_ok (poke_withFields start s _ field _), List.append_assoc]
    rfl

end Fields

section Run

variable (vendor version date : Option (List Byte))

/-- Offset behind the strings of the first one, two and three arguments. -/
def afterVendor : Nat := 24 + (stringBytes vendor).length
def afterVersion : Nat := afterVendor vendor + (stringBytes version).length
def afterDate : Nat := afterVersion vendor version + (stringBytes date).length

/-- How many strings the three arguments add. -/
def stringCount : Nat :=
  (presentString vendor).length + (presentString version).length + (presentString date).length

/-- The fields `smbios_new_type_0` writes, in its order. -/
def type0Fields : List (Nat × List Byte) :=
  [(0, [0#8]), (1, [24#8]), (2, toLE 2 0),
    (24, stringBytes vendor), (4, [stringIndex 0 vendor]),
    (afterVendor vendor, stringBytes version),
    (5, [stringIndex (presentString vendor).length version]), (6, toLE 2 0xe800),
    (afterVersion vendor version, stringBytes date),
    (8, [stringIndex ((presentString vendor).length + (presentString version).length) date]),
    (9, [0#8]), (10, List.replicate 8 0), (10, [0x08#8]), (18, [0#8]), (19, [4#8]), (20, [0#8]),
    (21, [0#8]), (22, [0xff#8]), (23, [0xff#8]), (afterDate vendor version date, [0#8]),
    (afterDate vendor version date + 1,
      if stringCount vendor version date = 0 then [0#8] else [])]

theorem smbiosNewType0_stores (start : BitVec 32) (s : Firmware) :
    smbiosNewType0 start vendor version date s =
      .ok () (s.withFields start (type0Fields vendor version date)) := by
  have hend : start + BitVec.ofNat 32 (afterDate vendor version date) + 1#32 =
      start + BitVec.ofNat 32 (afterDate vendor version date + 1) := by
    rw [BitVec.ofNat_add, BitVec.add_assoc]
  have hlast (c : Nat) (fs : List (Nat × List Byte)) :
      (if c = 0 then poke (start + BitVec.ofNat 32 (afterDate vendor version date) + 1#32) [0#8]
        else pure ()) (s.withFields start fs) =
      .ok () (s.withFields start
        (fs ++ [(afterDate vendor version date + 1, if c = 0 then [0#8] else [])])) := by
    split
    · rw [hend, poke_withFields]
    · rw [Firmware.withFields, Firmware.withFields, storeFields, storeFields, List.foldl_append,
        List.foldl_cons, store_nil]
      rfl
  have hfirst : poke start [0#8] s = .ok () (s.withFields start [(0, [0#8])]) := by
    have h := poke_withFields start s [] 0 [0#8]
    rw [BitVec.add_zero] at h
    exact h
  have hvendor (fs : List (Nat × List Byte)) :=
    setStrFieldOrSkip_withFields start s fs 4 24 0 vendor
  have hversion (fs : List (Nat × List Byte)) :=
    setStrFieldOrSkip_withFields start s fs 5 (afterVendor vendor) (presentString vendor).length
      version
  have hdate (fs : List (Nat × List Byte)) :=
    setStrFieldOrSkip_withFields start s fs 8 (afterVersion vendor version)
      ((presentString vendor).length + (presentString version).length) date
  rw [Nat.zero_add] at hvendor
  rw [smbiosNewType0]
  refine (StateRun.bind_of_ok hfirst).trans ?_
  refine (StateRun.bind_of_ok (poke_withFields start s _ 1 _)).trans ?_
  refine (StateRun.bind_of_ok (poke_withFields start s _ 2 _)).trans ?_
  refine (StateRun.bind_of_ok (hvendor _)).trans ?_
  refine (StateRun.bind_of_ok (hversion _)).trans ?_
  refine (StateRun.bind_of_ok (poke_withFields start s _ 6 _)).trans ?_
  refine (StateRun.bind_of_ok (hdate _)).trans ?_
  refine (StateRun.bind_of_ok (poke_withFields start s _ 9 _)).trans ?_
  refine (StateRun.bind_of_ok (poke_withFields start s _ 10 _)).trans ?_
  refine (StateRun.bind_of_ok (poke_withFields start s _ 10 _)).trans ?_
  refine (StateRun.bind_of_ok (poke_withFields start s _ 18 _)).trans ?_
  refine (StateRun.bind_of_ok (poke_withFields start s _ 19 _)).trans ?_
  refine (StateRun.bind_of_ok (poke_withFields start s _ 20 _)).trans ?_
  refine (StateRun.bind_of_ok (poke_withFields start s _ 21 _)).trans ?_
  refine (StateRun.bind_of_ok (poke_withFields start s _ 22 _)).trans ?_
  refine (StateRun.bind_of_ok (poke_withFields start s _ 23 _)).trans ?_
  refine (StateRun.bind_of_ok
    (poke_withFields start s _ (afterDate vendor version date) _)).trans ?_
  exact hlast _ _

/-! ### What the stores leave -/

/-- The 24 bytes of `struct smbios_type_0`, for given string fields. -/
def type0Header (i j k : Byte) : List Byte :=
  [0#8, 24#8, 0#8, 0#8, i, j, 0x00#8, 0xe8#8, k, 0#8, 0x08#8, 0#8, 0#8, 0#8, 0#8, 0#8, 0#8, 0#8,
    0#8, 4#8, 0#8, 0#8, 0xff#8, 0xff#8]

/-- The fields of `struct smbios_type_0`, in the order of the stores. -/
def type0HeaderFields (i j k : Byte) : List (Nat × List Byte) :=
  [(0, [0#8]), (1, [24#8]), (2, toLE 2 0), (4, [i]), (5, [j]), (6, toLE 2 0xe800), (8, [k]),
    (9, [0#8]), (10, List.replicate 8 0), (10, [0x08#8]), (18, [0#8]), (19, [4#8]), (20, [0#8]),
    (21, [0#8]), (22, [0xff#8]), (23, [0xff#8])]

/-- The structure is filled whatever was there before. -/
theorem patchFields_header (i j k : Byte) {bs : List Byte} (h : bs.length = 24) :
    patchFields bs (type0HeaderFields i j k) = type0Header i j k := by
  have hcover : ∀ n < 24, ∃ f ∈ (type0HeaderFields 0 0 0).map fun f => (f.1, f.2.length),
      f.1 ≤ n ∧ n < f.1 + f.2 := by decide +kernel
  have hsizes : ((type0HeaderFields i j k).map fun f => (f.1, f.2.length)) =
      (type0HeaderFields 0 0 0).map fun f => (f.1, f.2.length) := by
    simp [type0HeaderFields]
  have hinside : ∀ f ∈ (type0HeaderFields 0 0 0).map fun f => (f.1, f.2.length),
      f.1 + f.2 ≤ 24 := by decide +kernel
  rw [← hsizes] at hcover hinside
  have hzero : patchFields (List.replicate 24 0) (type0HeaderFields i j k) =
      type0Header i j k := by
    simp [type0HeaderFields, patchFields, patch, type0Header, toLE]
  rw [← hzero]
  refine patchFields_of_cover (by simpa using h) (fun f hf => ?_) fun n hb _ => ?_
  · rw [h]
    exact hinside _ (List.mem_map_of_mem hf)
  · obtain ⟨_, hmem, hf⟩ := hcover n (h ▸ hb)
    obtain ⟨f, hf', rfl⟩ := List.mem_map.mp hmem
    exact Or.inl ⟨f, hf', hf⟩

/-- The last string is followed by one NUL, and no string by two. -/
def stringsEndBytes : List Byte :=
  [0#8] ++ if stringCount vendor version date = 0 then [0#8] else []

/-- The bytes behind `struct smbios_type_0`, as the stores make them. -/
def type0StringArea : List Byte :=
  stringBytes vendor ++ stringBytes version ++ stringBytes date ++
    stringsEndBytes vendor version date

theorem patchFields_type0Fields {bs : List Byte}
    (h : bs.length = 24 + (type0StringArea vendor version date).length) :
    patchFields bs (type0Fields vendor version date) =
      type0Header (stringIndex 0 vendor) (stringIndex (presentString vendor).length version)
          (stringIndex ((presentString vendor).length + (presentString version).length) date) ++
        type0StringArea vendor version date := by
  have hhead : (bs.take 24).length = 24 := by
    rw [List.length_take]
    omega
  let areas := [stringBytes vendor, stringBytes version, stringBytes date, [0#8],
    if stringCount vendor version date = 0 then [0#8] else []]
  have hareas : areas.flatten = type0StringArea vendor version date := by
    simp [areas, type0StringArea, stringsEndBytes]
  have hbefore : (type0Fields vendor version date).filter (fun f => f.1 < 24) =
      type0HeaderFields (stringIndex 0 vendor) (stringIndex (presentString vendor).length version)
        (stringIndex ((presentString vendor).length + (presentString version).length) date) := by
    simp [type0Fields, type0HeaderFields, afterVendor, afterVersion, afterDate, Nat.add_assoc]
  have hbehind : ((type0Fields vendor version date).filter (fun f => ¬ f.1 < 24)).map
      (fun f => (f.1 - 24, f.2)) = consecutive 0 areas := by
    simp [type0Fields, areas, consecutive, afterVendor, afterVersion, afterDate, Nat.add_assoc]
  have hinside : ∀ f ∈ type0Fields vendor version date, f.1 < (bs.take 24).length →
      f.1 + f.2.length ≤ (bs.take 24).length := by
    rw [hhead]
    simp [type0Fields, afterVendor, afterVersion, afterDate, Nat.add_assoc]
  have hsplit := @patchFields_append_split (bs.take 24) (bs.drop 24) _ hinside
  rw [hhead, hbefore, hbehind, List.take_append_drop] at hsplit
  have hfill := @patchFields_consecutive areas [] (bs.drop 24) (by
    rw [hareas, List.length_drop]
    omega)
  have hall : (bs.drop 24).drop areas.flatten.length = [] := by
    rw [hareas, List.drop_drop, ← h, List.drop_length]
  rw [List.length_nil, List.nil_append, List.nil_append, hall, List.append_nil, hareas] at hfill
  rw [hsplit, patchFields_header _ _ _ hhead, hfill]

/-- No store passes the end of the structure. -/
theorem type0Fields_inside : ∀ f ∈ type0Fields vendor version date,
    f.1 + f.2.length ≤ 24 + (type0StringArea vendor version date).length := by
  have hlast : (if stringCount vendor version date = 0 then [0#8] else []).length ≤ 1 := by
    split
    · exact le_rfl
    · exact Nat.zero_le _
  simp only [type0StringArea, stringsEndBytes, List.length_append, List.length_singleton]
  simp [type0Fields, afterVendor, afterVersion, afterDate]
  omega

end Run

/-! ### The structure in memory -/

section Written

variable (vendor version date : Option CString)

theorem encode_type0Structure :
    (type0Structure vendor version date).encode =
      type0Header (vendorIndex vendor) (versionIndex vendor version) (dateIndex vendor version date) ++
        type0StringArea (CString.argument vendor) (CString.argument version)
          (CString.argument date) := by
  have hset : (type0Structure vendor version date).stringSet =
      type0StringArea (CString.argument vendor) (CString.argument version)
        (CString.argument date) := by
    have hflat : nulTerminated (type0Strings vendor version date) =
        stringBytes (CString.argument vendor) ++ stringBytes (CString.argument version) ++
          stringBytes (CString.argument date) := by
      rw [type0Strings, nulTerminated, List.flatMap_append, List.flatMap_append]
      rfl
    have hcount : (type0Strings vendor version date).length =
        stringCount (CString.argument vendor) (CString.argument version)
          (CString.argument date) := by
      rw [type0Strings, List.length_append, List.length_append]
      rfl
    change (if type0Strings vendor version date = [] then [0#8, 0#8]
      else nulTerminated (type0Strings vendor version date) ++ [0#8]) = _
    rw [type0StringArea, stringsEndBytes, ← hflat, ← hcount]
    by_cases hnone : type0Strings vendor version date = []
    · rw [hnone]
      rfl
    · rw [if_neg hnone, if_neg (mt List.length_eq_zero_iff.mp hnone), List.append_nil]
  have hheader : [(0#8 : Byte), BitVec.ofNat 8 (type0Structure vendor version date).length] ++
      toLE 2 (0#16).toNat ++ (type0Structure vendor version date).formatted =
      type0Header (vendorIndex vendor) (versionIndex vendor version)
        (dateIndex vendor version date) := by
    rw [length_type0Structure]
    simp [type0Structure, type0Header, toLE]
  rw [SmbiosStructure.encode, hset, ← hheader]
  rfl

/-- `smbios_new_type_0` writes the structure, and nothing else. -/
theorem smbiosNewType0_eq_store (start : BitVec 32) (s : Firmware)
    (hlen : (type0Structure vendor version date).encode.length ≤ 2 ^ 32) :
    smbiosNewType0 start (CString.argument vendor) (CString.argument version)
        (CString.argument date) s =
      .ok () { s with mem := store s.mem start (type0Structure vendor version date).encode } := by
  have hsize : (type0Structure vendor version date).encode.length =
      24 + (type0StringArea (CString.argument vendor) (CString.argument version)
        (CString.argument date)).length := by
    rw [encode_type0Structure, List.length_append]
    rfl
  obtain ⟨bs, hbs⟩ :
      ∃ bs, bs = load s.mem start (type0Structure vendor version date).encode.length := ⟨_, rfl⟩
  have hblock : bs.length = (type0Structure vendor version date).encode.length := by
    rw [hbs, length_load]
  have hback : store s.mem start bs = s.mem := by
    rw [hbs]
    exact store_load s.mem start _
  have hfields := storeFields_store s.mem start
    (fun f hf => (type0Fields_inside _ _ _ f hf).trans (by rw [hblock, hsize]))
    (by rw [hblock]; exact hlen)
  rw [hback, patchFields_type0Fields _ _ _ (hblock.trans hsize)] at hfields
  rw [smbiosNewType0_stores, Firmware.withFields, hfields, encode_type0Structure]
  rfl

/-- The index counted behind `before` names the argument in the string set. -/
theorem namesString_stringIndex (before after : List (List Byte)) (value : Option (List Byte))
    (hlen : before.length + 1 < 256) :
    NamesString (before ++ presentString value ++ after) (stringIndex before.length value)
      value := by
  rcases value with _ | ⟨_ | ⟨c, cs⟩⟩
  · rfl
  · rfl
  · have hindex : (BitVec.ofNat 8 (before.length + 1)).toNat = before.length + 1 := by
      rw [BitVec.toNat_ofNat, Nat.mod_eq_of_lt hlen]
    have hfield : stringIndex before.length (some (c :: cs)) = BitVec.ofNat 8 (before.length + 1) :=
      if_neg (List.cons_ne_nil _ _)
    rw [hfield]
    refine ⟨fun h => ?_, ?_⟩
    · have hzero := congrArg BitVec.toNat h
      rw [hindex] at hzero
      cases hzero
    · rw [hindex, Nat.add_sub_cancel, List.append_assoc, List.getElem?_append_right le_rfl,
        Nat.sub_self]
      rfl

theorem length_presentString (value : Option (List Byte)) : (presentString value).length ≤ 1 := by
  rcases value with _ | ⟨_ | ⟨c, cs⟩⟩
  · exact Nat.zero_le _
  · exact Nat.zero_le _
  · exact le_rfl

theorem type0_names :
    NamesString (type0Strings vendor version date) (vendorIndex vendor)
        (CString.argument vendor) ∧
      NamesString (type0Strings vendor version date) (versionIndex vendor version)
        (CString.argument version) ∧
      NamesString (type0Strings vendor version date) (dateIndex vendor version date)
        (CString.argument date) := by
  have hv := length_presentString (CString.argument vendor)
  have hn := length_presentString (CString.argument version)
  refine ⟨?_, ?_, ?_⟩
  · have h := namesString_stringIndex [] (presentString (CString.argument version) ++
      presentString (CString.argument date)) (CString.argument vendor) (by decide)
    rwa [List.nil_append, ← List.append_assoc] at h
  · exact namesString_stringIndex (presentString (CString.argument vendor))
      (presentString (CString.argument date)) (CString.argument version) (by omega)
  · have h := namesString_stringIndex (presentString (CString.argument vendor) ++
      presentString (CString.argument version)) [] (CString.argument date)
      (by rw [List.length_append]; omega)
    rwa [List.append_nil, List.length_append] at h

/-- In a table that goes on behind the structure, `smbios_next` returns the first
byte that was not written. -/
theorem smbiosNext_continues {m : Mem} {ep hdr : BitVec 32} {x : SmbiosStructure}
    (hep : ep ≠ 0#32) (hhdr : hdr ≠ 0#32) (hload : load m hdr x.encode.length = x.encode)
    (hheader : hdr.toNat + x.encode.length + 4 < (smbiosEnd m ep).toNat)
    (hdeclared : hdr.toNat + x.encode.length +
      (m (hdr + BitVec.ofNat 32 x.encode.length + 1#32)).toNat < (smbiosEnd m ep).toNat) :
    smbiosNext m ep hdr = hdr + BitVec.ofNat 32 x.encode.length := by
  have hlt := (smbiosEnd m ep).isLt
  have hnext : (hdr + BitVec.ofNat 32 x.encode.length).toNat = hdr.toNat + x.encode.length :=
    toNat_add_ofNat (by omega)
  have hfour : (hdr + BitVec.ofNat 32 x.encode.length + 4#32).toNat =
      hdr.toNat + x.encode.length + 4 :=
    (toNat_add_ofNat (by omega)).trans (congrArg (· + 4) hnext)
  have hlength (b : Byte) (hb : hdr.toNat + x.encode.length + b.toNat < 2 ^ 32) :
      (hdr + BitVec.ofNat 32 x.encode.length + b.setWidth 32).toNat =
        hdr.toNat + x.encode.length + b.toNat := by
    rw [← BitVec.ofNat_toNat, toNat_add_ofNat (by omega), hnext]
  rw [smbiosNext_structure hep hhdr hload (by omega), headerOrNull, if_neg]
  simp only [ge_iff_le, BitVec.le_def, hnext, hfour, hlength _ (hdeclared.trans hlt)]
  omega

/-- With three strings that are not empty the structure has the size that
`extract_smbios` reserves. -/
theorem length_type0_full {a b c : CString} (ha : a.chars ≠ []) (hb : b.chars ≠ [])
    (hc : c.chars ≠ []) :
    (type0Structure (some a) (some b) (some c)).encode.length =
      smbiosType0Bytes + a.chars.length + b.chars.length + c.chars.length + 4 := by
  have hsize {t : CString} (ht : t.chars ≠ []) :
      (presentString (CString.argument (some t))).length = 1 ∧
        (stringBytes (CString.argument (some t))).length = t.chars.length + 1 := by
    obtain ⟨d, ds, hd⟩ := List.exists_cons_of_ne_nil ht
    rw [CString.argument, Option.map_some, hd]
    simp [presentString, stringBytes, nulTerminated]
  obtain ⟨ha1, ha2⟩ := hsize ha
  obtain ⟨hb1, hb2⟩ := hsize hb
  obtain ⟨hc1, hc2⟩ := hsize hc
  have hcount : stringCount (CString.argument (some a)) (CString.argument (some b))
      (CString.argument (some c)) ≠ 0 := by
    rw [stringCount, ha1]
    omega
  rw [encode_type0Structure, List.length_append, type0StringArea, stringsEndBytes, if_neg hcount]
  simp only [List.length_append, ha2, hb2, hc2, List.length_nil, smbiosType0Bytes,
    type0Header, List.length_cons]
  omega

/-- For any three arguments and any prior memory `smbios_new_type_0` writes one
well-formed structure and nothing else. Its string set ends with the first two
NULs in a row behind the formatted area, each string field names its argument,
and `smbios_next` steps from it to the first byte not written, in any table that
goes on there. If no argument is NULL or empty its size is the one that
`extract_smbios` reserves. -/
theorem smbiosNewType0_wellFormed (start : BitVec 32) (s : Firmware)
    (hlen : (type0Structure vendor version date).encode.length ≤ 2 ^ 32) :
    ∃ x : SmbiosStructure,
      smbiosNewType0 start (CString.argument vendor) (CString.argument version)
          (CString.argument date) s = .ok () { s with mem := store s.mem start x.encode } ∧
      x.type = 0#8 ∧ x.length = smbiosType0Bytes ∧
      (∀ k, x.length ≤ k →
        (x.encode[k]? = some 0#8 ∧ x.encode[k + 1]? = some 0#8 ↔ k + 2 = x.encode.length)) ∧
      NamesString x.strings (x.encode.getD 4 0) (CString.argument vendor) ∧
      NamesString x.strings (x.encode.getD 5 0) (CString.argument version) ∧
      NamesString x.strings (x.encode.getD 8 0) (CString.argument date) ∧
      (∀ (m : Mem) (ep : BitVec 32), ep ≠ 0#32 → start ≠ 0#32 →
        load m start x.encode.length = x.encode →
        start.toNat + x.encode.length + 4 < (smbiosEnd m ep).toNat →
        start.toNat + x.encode.length +
          (m (start + BitVec.ofNat 32 x.encode.length + 1#32)).toNat < (smbiosEnd m ep).toNat →
        smbiosNext m ep start = start + BitVec.ofNat 32 x.encode.length) ∧
      ∀ a b c : CString, vendor = some a → version = some b → date = some c →
        a.chars ≠ [] → b.chars ≠ [] → c.chars ≠ [] →
        x.encode.length =
            smbiosType0Bytes + a.chars.length + b.chars.length + c.chars.length + 4 ∧
          (a.chars = BIOS_NAME → b.chars = VERSION → c.chars = BIOS_DATE →
            x.encode.length = t0Len) := by
  obtain ⟨hvendor, hversion, hdate⟩ := type0_names vendor version date
  have hencode := encode_type0Structure vendor version date
  refine ⟨type0Structure vendor version date,
    smbiosNewType0_eq_store vendor version date start s hlen, rfl, rfl,
    fun k hk => (type0Structure vendor version date).doubleNul_encode hk, ?_, ?_, ?_,
    fun m ep hep hstart hload hheader hdeclared =>
      smbiosNext_continues hep hstart hload hheader hdeclared, ?_⟩
  · rw [hencode]
    exact hvendor
  · rw [hencode]
    exact hversion
  · rw [hencode]
    exact hdate
  · rintro a b c rfl rfl rfl ha hb hc
    have hfull := length_type0_full ha hb hc
    refine ⟨hfull, fun hname hversion hdate => ?_⟩
    rw [hfull, hname, hversion, hdate]
    rfl

end Written

def letters (n : Nat) (h : n + 1 < 2 ^ 31) : CString where
  chars := List.replicate n 0x41#8
  noNul := by
    rw [List.mem_replicate]
    rintro ⟨-, h⟩
    cases h
  fits := by rwa [List.length_replicate]

/-- A machine whose memory is not clear. -/
def filledMachine : Firmware :=
  Firmware.initial { entry := fun _ => [], key := 0#16, pos := 0 } (fun _ => 0xff#8)
    0xf0000#32 0xf4000#32

/-- A vendor of two letters, no version and a date of one letter. -/
theorem smbiosNewType0_wellFormed_two :
    ∃ x : SmbiosStructure,
      smbiosNewType0 0xf0000#32 (some [0x41#8, 0x41#8]) none (some [0x41#8]) filledMachine =
        .ok () { filledMachine with mem := store filledMachine.mem 0xf0000#32 x.encode } ∧
      NamesString x.strings (x.encode.getD 8 0) (some [0x41#8]) := by
  obtain ⟨x, hrun, -, -, -, -, -, hdate, -⟩ := smbiosNewType0_wellFormed
    (some (letters 2 (by decide))) none (some (letters 1 (by decide))) 0xf0000#32 filledMachine
    (by decide +kernel)
  exact ⟨x, hrun, hdate⟩

end Qboot
