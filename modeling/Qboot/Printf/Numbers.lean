import Qboot.Lib.Numerals
import Qboot.Printf.PrintStr

/-!
`print_int` and `print_unsigned`: the digits of a number are put into a local
buffer from the last one on, and the buffer is turned round. A negative number
is negated first, which the most negative one survives.
-/

namespace Qboot

open Bytes ByteMemory Emission Numerals

/-! ### The digit table -/

/-- `digits`: "0123456789abcdef". -/
def digits : List Byte :=
  [0x30#8, 0x31#8, 0x32#8, 0x33#8, 0x34#8, 0x35#8, 0x36#8, 0x37#8, 0x38#8, 0x39#8,
    0x61#8, 0x62#8, 0x63#8, 0x64#8, 0x65#8, 0x66#8]

/-- `digits[i]`; outside of the table lies whatever the linker put there. -/
def digitAt (around : Int → Byte) (i : Int) : Byte :=
  if 0 ≤ i ∧ i < 16 then digits.getD i.toNat 0#8 else around i

/-- The bases the table has digits for. -/
structure Base where
  val : BitVec 32
  two_le : 2 ≤ val.toNat
  le_sixteen : val.toNat ≤ 16

def decimal : Base := ⟨10#32, by decide, by decide⟩

def hexadecimal : Base := ⟨16#32, by decide, by decide⟩

theorem Base.toInt_val (base : Base) : base.val.toInt = base.val.toNat := by
  have hle := base.le_sixteen
  rw [BitVec.toInt_eq_toNat_of_lt (by omega)]

theorem toInt_sdiv_base (base : Base) (n : BitVec 32) :
    (n.sdiv base.val).toInt = n.toInt.tdiv base.val.toNat := by
  have hval := base.toInt_val
  have htwo := base.two_le
  have hne : base.val ≠ -1#32 := by
    intro h
    have hle := base.le_sixteen
    rw [h] at hle
    exact absurd hle (by decide)
  rw [BitVec.toInt_sdiv_of_ne_or_ne n base.val (.inr hne), hval]

theorem toInt_srem_base (base : Base) (n : BitVec 32) :
    (n.srem base.val).toInt = n.toInt.tmod base.val.toNat := by
  rw [BitVec.toInt_srem, base.toInt_val]

/-! ### The functions -/

/-- The loop `while (n)` of `print_int`: the places of `digits` it reads. -/
def intIndexes (base : Base) (n : BitVec 32) : List Int :=
  if _h : n = 0#32 then []
  else (n.srem base.val).toInt :: intIndexes base (n.sdiv base.val)
termination_by n.toInt.natAbs
decreasing_by
  have hne : n.toInt ≠ 0 := fun hzero => _h (BitVec.eq_of_toInt_eq (by rw [hzero]; rfl))
  rw [toInt_sdiv_base, Int.natAbs_tdiv, Int.natAbs_natCast]
  exact Nat.div_lt_self (by omega) base.two_le

/-- The same loop of `print_unsigned`. -/
def unsignedIndexes (base : Base) (n : BitVec 32) : List Int :=
  if _h : n = 0#32 then []
  else ((n % base.val).toNat : Int) :: unsignedIndexes base (n / base.val)
termination_by n.toNat
decreasing_by
  have hne : n.toNat ≠ 0 := fun hzero => _h (BitVec.eq_of_toNat_eq hzero)
  rw [BitVec.toNat_udiv]
  exact Nat.div_lt_self (by omega) base.two_le

/-- `n` of `print_int` after the test for a sign. -/
def magnitude (n : BitVec 32) : BitVec 32 := if n.toInt < 0 then -n else n

/-- `buf` of `print_int` when it is printed, without the NUL. -/
def intBuffer (around : Int → Byte) (n : BitVec 32) (base : Base) : List Byte :=
  let buf := (intIndexes base (magnitude n)).map (digitAt around)
  let buf := if n.toInt < 0 then buf ++ [0x2d#8] else buf
  let buf := if buf = [] then buf ++ [0x30#8] else buf
  swapEnds (buf.length / 2) 0 buf

def printInt (around : Int → Byte) (n : BitVec 32) (base : Base) (props : StrProps) : Print Unit :=
  printStr (intBuffer around n base ++ [0#8]) props

/-- `buf` of `print_unsigned`. -/
def unsignedBuffer (around : Int → Byte) (n : BitVec 32) (base : Base) : List Byte :=
  let buf := (unsignedIndexes base n).map (digitAt around)
  let buf := if buf = [] then buf ++ [0x30#8] else buf
  swapEnds (buf.length / 2) 0 buf

def printUnsigned (around : Int → Byte) (n : BitVec 32) (base : Base) (props : StrProps) :
    Print Unit :=
  printStr (unsignedBuffer around n base ++ [0#8]) props

/-! ### The digits -/

/-- A digit of a base up to sixteen. -/
def digitChar (d : Nat) : Byte := digits.getD d 0#8

/-- The text of a number in a base. -/
def numeralText (base n : Nat) : List Byte := (numeral base n).map digitChar

/-- The text of a signed number. -/
def signedText (base : Nat) (v : Int) : List Byte :=
  if v < 0 then 0x2d#8 :: numeralText base v.natAbs else numeralText base v.natAbs

theorem digitAt_digit (around : Int → Byte) {d : Nat} (hd : d < 16) :
    digitAt around d = digitChar d := by
  rw [digitAt, if_pos (by omega), Int.toNat_natCast]
  rfl

theorem unsignedIndexes_eq_digits (base : Base) (n : BitVec 32) :
    unsignedIndexes base n = (Nat.digits base.val.toNat n.toNat).map Int.ofNat := by
  induction n using unsignedIndexes.induct base with
  | case1 => simp [unsignedIndexes]
  | case2 n hne ih =>
    have hpos : 0 < n.toNat := by
      have h : n.toNat ≠ 0 := fun hzero => hne (BitVec.eq_of_toNat_eq hzero)
      omega
    rw [unsignedIndexes, dif_neg hne, ih, Nat.digits_def' base.two_le hpos, List.map_cons,
      BitVec.toNat_udiv, BitVec.toNat_umod]
    rfl

/-- A number that is not negative has the same digits as an unsigned one. -/
theorem intIndexes_eq_digits (base : Base) (n : BitVec 32) (hn : 0 ≤ n.toInt) :
    intIndexes base n = (Nat.digits base.val.toNat n.toInt.toNat).map Int.ofNat := by
  induction n using intIndexes.induct base with
  | case1 => simp [intIndexes]
  | case2 n hne ih =>
    have hpos : 0 < n.toInt.toNat := by
      have h : n.toInt ≠ 0 := fun hzero => hne (BitVec.eq_of_toInt_eq (by rw [hzero]; rfl))
      omega
    have hcast : (n.toInt.toNat : Int) = n.toInt := Int.toNat_of_nonneg hn
    have hdiv : (n.sdiv base.val).toInt = (n.toInt.toNat / base.val.toNat : Nat) := by
      rw [toInt_sdiv_base, Int.tdiv_eq_ediv_of_nonneg hn, Int.natCast_ediv, hcast]
    have hmod : (n.srem base.val).toInt = (n.toInt.toNat % base.val.toNat : Nat) := by
      rw [toInt_srem_base, Int.tmod_eq_emod_of_nonneg hn, Int.natCast_emod, hcast]
    have hnonneg : 0 ≤ (n.sdiv base.val).toInt := by
      rw [hdiv]
      exact Int.natCast_nonneg _
    rw [intIndexes, dif_neg hne, ih hnonneg, Nat.digits_def' base.two_le hpos, List.map_cons,
      hdiv, hmod, Int.toNat_natCast]
    rfl

theorem digits_lt_sixteen (base : Base) {n d : Nat}
    (hd : d ∈ Nat.digits base.val.toNat n) : d < 16 :=
  (Nat.digits_lt_base base.two_le hd).trans_le base.le_sixteen

/-- The characters the loops put into the buffer. -/
theorem map_digitAt_digits (around : Int → Byte) (base : Base) (n : Nat) :
    ((Nat.digits base.val.toNat n).map Int.ofNat).map (digitAt around) =
      (Nat.digits base.val.toNat n).map digitChar := by
  rw [List.map_map]
  exact List.map_congr_left fun d hd => digitAt_digit around (digits_lt_sixteen base hd)

theorem numeralText_of_pos (base : Base) {n : Nat} (hn : n ≠ 0) :
    numeralText base.val.toNat n = ((Nat.digits base.val.toNat n).map digitChar).reverse := by
  rw [numeralText, numeral, if_neg hn, List.map_reverse]

theorem unsignedBuffer_eq (around : Int → Byte) (n : BitVec 32) (base : Base) :
    unsignedBuffer around n base = numeralText base.val.toNat n.toNat := by
  simp only [unsignedBuffer, swapEnds_half]
  rw [unsignedIndexes_eq_digits, map_digitAt_digits]
  by_cases hzero : n.toNat = 0
  · rw [hzero, Nat.digits_zero]
    rfl
  · have hne : (Nat.digits base.val.toNat n.toNat).map digitChar ≠ [] := by
      simpa [Nat.digits_ne_nil_iff_ne_zero] using hzero
    rw [if_neg hne, numeralText_of_pos base hzero]

/-- The most negative value. -/
def LONG_MIN : BitVec 32 := 0x80000000#32

theorem toInt_magnitude {n : BitVec 32} (hn : n ≠ LONG_MIN) :
    (magnitude n).toInt = n.toInt.natAbs := by
  have hle := @BitVec.le_two_mul_toInt 32 n
  have hmin : n.toInt ≠ -2 ^ 31 := fun h => hn (BitVec.eq_of_toInt_eq (h.trans (by decide)))
  unfold magnitude
  split
  · rw [Signed.toInt_neg_of_range (by omega)]
    omega
  · omega

theorem intBuffer_eq (around : Int → Byte) {n : BitVec 32} (hn : n ≠ LONG_MIN) (base : Base) :
    intBuffer around n base = signedText base.val.toNat n.toInt := by
  have hmagnitude := toInt_magnitude hn
  simp only [intBuffer, swapEnds_half]
  rw [intIndexes_eq_digits base _ (by omega), map_digitAt_digits, hmagnitude, Int.toNat_natCast]
  unfold signedText
  by_cases hneg : n.toInt < 0
  · have hne : (Nat.digits base.val.toNat n.toInt.natAbs).map digitChar ++ [0x2d#8] ≠ [] := by simp
    rw [if_pos hneg, if_pos hneg, if_neg hne, numeralText_of_pos base (by omega),
      List.reverse_append]
    rfl
  · rw [if_neg hneg, if_neg hneg]
    by_cases hzero : n.toInt.natAbs = 0
    · rw [hzero, Nat.digits_zero]
      rfl
    · have hne : (Nat.digits base.val.toNat n.toInt.natAbs).map digitChar ≠ [] := by
        simpa [Nat.digits_ne_nil_iff_ne_zero] using hzero
      rw [if_neg hne, numeralText_of_pos base hzero]

/-! ### The texts -/

theorem digitChar_ne_nul {d : Nat} (hd : d < 16) : digitChar d ≠ 0#8 := by
  have hall : ∀ d < 16, digitChar d ≠ 0#8 := by decide
  exact hall d hd

theorem numeral_lt_sixteen (base : Base) {n d : Nat} (hd : d ∈ numeral base.val.toNat n) :
    d < 16 :=
  ((isNumeral_numeral base.two_le n).digit d hd).trans_le base.le_sixteen

theorem nul_not_mem_numeralText (base : Base) (n : Nat) : 0#8 ∉ numeralText base.val.toNat n := by
  intro h
  obtain ⟨d, hd, hchar⟩ := List.mem_map.mp h
  exact digitChar_ne_nul (numeral_lt_sixteen base hd) hchar

theorem nul_not_mem_signedText (base : Base) (v : Int) : 0#8 ∉ signedText base.val.toNat v := by
  have hnumeral := nul_not_mem_numeralText base v.natAbs
  unfold signedText
  split
  · simpa using hnumeral
  · exact hnumeral

/-- No text of a word is longer than 33 characters. -/
theorem length_numeralText_le (base : Base) {n k : Nat} (hk : 0 < k)
    (hn : n < base.val.toNat ^ k) : (numeralText base.val.toNat n).length ≤ k := by
  rw [numeralText, List.length_map]
  exact length_numeral_le base.two_le hk hn

theorem length_numeralText_word (base : Base) {n : Nat} (hn : n < 2 ^ 32) :
    (numeralText base.val.toNat n).length ≤ 32 :=
  length_numeralText_le base (by decide) (hn.trans_le (Nat.pow_le_pow_left base.two_le 32))

theorem length_signedText_le (base : Base) {v : Int} {k : Nat} (hk : 0 < k)
    (hv : v.natAbs < base.val.toNat ^ k) : (signedText base.val.toNat v).length ≤ k + 1 := by
  have hnumeral := length_numeralText_le base hk hv
  unfold signedText
  split
  · simpa using hnumeral
  · omega

/-- `print_unsigned` sends the number with its padding. -/
theorem printUnsigned_sends (around : Int → Byte) (n : BitVec 32) (base : Base)
    (props : StrProps) :
    Sends Printer.add (printUnsigned around n base props)
      (padded (numeralText base.val.toNat n.toNat) props.pad props.npad.toInt) () := by
  have hlen := length_numeralText_word base n.isLt
  rw [printUnsigned, unsignedBuffer_eq]
  exact printStr_sends_padded (nul_not_mem_numeralText base _) (by omega) [] props

/-- `print_int` sends the number with its padding, but for the most negative. -/
theorem printInt_sends (around : Int → Byte) {n : BitVec 32} (hn : n ≠ LONG_MIN) (base : Base)
    (props : StrProps) :
    Sends Printer.add (printInt around n base props)
      (padded (signedText base.val.toNat n.toInt) props.pad props.npad.toInt) () := by
  have hlt := @BitVec.two_mul_toInt_lt 32 n
  have hle := @BitVec.le_two_mul_toInt 32 n
  have hpow : 2 ^ 32 ≤ base.val.toNat ^ 32 := Nat.pow_le_pow_left base.two_le 32
  have hlen : (signedText base.val.toNat n.toInt).length ≤ 32 + 1 :=
    length_signedText_le base (by decide) (by omega)
  rw [printInt, intBuffer_eq around hn]
  exact printStr_sends_padded (nul_not_mem_signedText base _) (by omega) [] props

/-! ### Exactness -/

/-- `cs` is a numeral of `n`: digits of the base without leading zeros. -/
def IsText (base : Nat) (cs : List Byte) (n : Nat) : Prop :=
  ∃ ds, IsNumeral base ds n ∧ cs = ds.map digitChar

/-- `cs` is a numeral of `v` with a minus sign in front if `v` is negative. -/
def IsSignedText (base : Nat) (cs : List Byte) (v : Int) : Prop :=
  if v < 0 then ∃ rest, cs = 0x2d#8 :: rest ∧ IsText base rest v.natAbs
  else IsText base cs v.natAbs

/-- The value of a digit. -/
def charDigit (c : Byte) : Nat := if c.toNat < 0x3a then c.toNat - 0x30 else c.toNat - 0x57

def readText (base : Nat) (cs : List Byte) : Nat := readBack base (cs.map charDigit)

/-- What a reader of the text gets. -/
def readSigned (base : Nat) (cs : List Byte) : Int :=
  if cs.head? = some 0x2d#8 then -readText base cs.tail else readText base cs

/-- `print_int` in base 10 sends the one numeral of `n`, reads the table at
digits only and stays in its buffer of 14 bytes. -/
structure PrintsInt (around : Int → Byte) (n : BitVec 32) (cs : List Byte) : Prop where
  sends : Sends Printer.add (printInt around n decimal ⟨0x20#8, 0#32⟩) cs ()
  text : IsSignedText 10 cs n.toInt
  unique : ∀ cs', IsSignedText 10 cs' n.toInt → cs' = cs
  value : readSigned 10 cs = n.toInt
  indexes : ∀ i ∈ intIndexes decimal (magnitude n), 0 ≤ i ∧ i < 10
  buffer : (intBuffer around n decimal).length + 1 ≤ 14

/-- The same for `print_unsigned` and its buffer of 13 bytes. -/
structure PrintsUnsigned (around : Int → Byte) (n : BitVec 32) (base : Base) (cs : List Byte) :
    Prop where
  sends : Sends Printer.add (printUnsigned around n base ⟨0x20#8, 0#32⟩) cs ()
  text : IsText base.val.toNat cs n.toNat
  unique : ∀ cs', IsText base.val.toNat cs' n.toNat → cs' = cs
  value : readText base.val.toNat cs = n.toNat
  indexes : ∀ i ∈ unsignedIndexes base n, 0 ≤ i ∧ i < base.val.toNat
  buffer : (unsignedBuffer around n base).length + 1 ≤ 13

theorem padded_zero (cs : List Byte) (pad : Byte) : padded cs pad 0 = cs := by
  have hzero : (0 - (cs.length : Int)).toNat = 0 := by omega
  rw [padded_of_nonneg le_rfl, hzero, List.replicate_zero, List.nil_append]

theorem isText_numeralText {base : Nat} (hbase : 1 < base) (n : Nat) :
    IsText base (numeralText base n) n := ⟨_, isNumeral_numeral hbase n, rfl⟩

theorem IsText.unique {base : Nat} (hbase : 1 < base) {cs : List Byte} {n : Nat}
    (h : IsText base cs n) : cs = numeralText base n := by
  obtain ⟨ds, hds, rfl⟩ := h
  rw [hds.unique hbase]
  rfl

theorem charDigit_digitChar {d : Nat} (hd : d < 16) : charDigit (digitChar d) = d := by
  have hall : ∀ d < 16, charDigit (digitChar d) = d := by decide
  exact hall d hd

theorem readText_numeralText (base : Base) (n : Nat) :
    readText base.val.toNat (numeralText base.val.toNat n) = n := by
  have hback : (numeralText base.val.toNat n).map charDigit = numeral base.val.toNat n := by
    rw [numeralText, List.map_map]
    conv_rhs => rw [← List.map_id (numeral base.val.toNat n)]
    exact List.map_congr_left fun d hd => charDigit_digitChar (numeral_lt_sixteen base hd)
  rw [readText, hback]
  exact (isNumeral_numeral base.two_le n).value

theorem indexes_digits (base : Base) (n : Nat) :
    ∀ i ∈ (Nat.digits base.val.toNat n).map Int.ofNat, 0 ≤ i ∧ i < base.val.toNat := by
  intro i hi
  obtain ⟨d, hd, rfl⟩ := List.mem_map.mp hi
  exact ⟨Int.natCast_nonneg d, Int.ofNat_lt.mpr (Nat.digits_lt_base base.two_le hd)⟩

/-- Every unsigned value is printed exactly in base 10 and in base 16. -/
theorem printsUnsigned_numeralText (around : Int → Byte) (n : BitVec 32) {base : Base}
    (hbase : 10 ≤ base.val.toNat) :
    PrintsUnsigned around n base (numeralText base.val.toNat n.toNat) := by
  have hsends := printUnsigned_sends around n base ⟨0x20#8, 0#32⟩
  have hlt : n.toNat < base.val.toNat ^ 12 :=
    lt_of_lt_of_le (n.isLt.trans (by decide)) (Nat.pow_le_pow_left hbase 12)
  constructor
  · rwa [BitVec.toInt_zero, padded_zero] at hsends
  · exact isText_numeralText base.two_le _
  · exact fun cs' h => h.unique base.two_le
  · exact readText_numeralText base _
  · rw [unsignedIndexes_eq_digits]
    exact indexes_digits base _
  · have hlen := length_numeralText_le base (by decide) hlt
    rw [unsignedBuffer_eq]
    omega

theorem readSigned_signedText (base : Base) (v : Int) :
    readSigned base.val.toNat (signedText base.val.toNat v) = v := by
  have hvalue := readText_numeralText base v.natAbs
  unfold signedText readSigned
  split
  · rw [if_pos List.head?_cons, List.tail_cons, hvalue]
    omega
  · have hhead : (numeralText base.val.toNat v.natAbs).head? ≠ some 0x2d#8 := by
      intro h
      obtain ⟨d, hd, hchar⟩ := List.mem_map.mp (List.mem_of_head? h)
      have hall : ∀ d < 16, digitChar d ≠ 0x2d#8 := by decide
      exact hall d (numeral_lt_sixteen base hd) hchar
    rw [if_neg hhead, hvalue]
    omega

theorem printsInt_signedText (around : Int → Byte) {n : BitVec 32} (hn : n ≠ LONG_MIN) :
    PrintsInt around n (signedText 10 n.toInt) := by
  have hsends := printInt_sends around hn decimal ⟨0x20#8, 0#32⟩
  have hlt := @BitVec.two_mul_toInt_lt 32 n
  have hle := @BitVec.le_two_mul_toInt 32 n
  have hmagnitude := toInt_magnitude hn
  constructor
  · rwa [BitVec.toInt_zero, padded_zero] at hsends
  · unfold IsSignedText signedText
    split
    · exact ⟨_, rfl, isText_numeralText (by decide) _⟩
    · exact isText_numeralText (by decide) _
  · intro cs' h
    unfold IsSignedText at h
    unfold signedText
    split at h
    · rename_i hneg
      obtain ⟨rest, rfl, hrest⟩ := h
      rw [if_pos hneg, hrest.unique (by decide)]
    · rename_i hpos
      rw [if_neg hpos, h.unique (by decide)]
  · exact readSigned_signedText decimal _
  · rw [intIndexes_eq_digits decimal _ (by omega)]
    exact indexes_digits decimal _
  · have hlen : (signedText 10 n.toInt).length ≤ 12 + 1 :=
      length_signedText_le decimal (by decide) (lt_of_lt_of_le (by omega)
        (by decide : 2 ^ 33 ≤ (10 : Nat) ^ 12))
    rw [intBuffer_eq around hn]
    change (signedText 10 n.toInt).length + 1 ≤ 14
    omega

/-- The negation leaves the most negative value as it is, and the remainders
of its digits are negative. -/
theorem longMin_index : -8 ∈ intIndexes decimal (magnitude LONG_MIN) := by
  have hmagnitude : magnitude LONG_MIN = LONG_MIN := by decide
  have hindex : (LONG_MIN.srem decimal.val).toInt = -8 := by decide
  rw [hmagnitude, intIndexes, dif_neg (by decide), hindex]
  exact List.mem_cons_self

/-- `print_int` is exact for every value but the most negative one, and
`print_unsigned` for every value. -/
theorem print_exact_iff (around : Int → Byte) (n : BitVec 32) :
    ((∃ cs, PrintsInt around n cs) ↔ n ≠ LONG_MIN) ∧
      (∃ cs, PrintsUnsigned around n decimal cs) ∧
      ∃ cs, PrintsUnsigned around n hexadecimal cs := by
  refine ⟨⟨?_, fun hn => ⟨_, printsInt_signedText around hn⟩⟩,
    ⟨_, printsUnsigned_numeralText around n (by decide)⟩,
    ⟨_, printsUnsigned_numeralText around n (by decide)⟩⟩
  rintro ⟨cs, hprints⟩ rfl
  exact absurd (hprints.indexes _ longMin_index).1 (by decide)

theorem print_not_always_exact : ¬ ∀ (around : Int → Byte) (n : BitVec 32),
    (∃ cs, PrintsInt around n cs) ∧ (∃ cs, PrintsUnsigned around n decimal cs) ∧
      ∃ cs, PrintsUnsigned around n hexadecimal cs := by
  intro hall
  obtain ⟨⟨cs, hprints⟩, -⟩ := hall (fun _ => 0#8) LONG_MIN
  exact absurd (hprints.indexes _ longMin_index).1 (by decide)

end Qboot
