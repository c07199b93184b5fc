import Qboot.Printf.Truncation

/-!
What C asks of a conversion in the middle of other text, and when `vsnprintf`
does it. A width and a '-' flag are read by `fmtnum`; the '0' flag takes the
character behind it away and is itself printed.
-/

namespace Qboot

open Bytes ByteMemory Emission Numerals

/-! ### The conversions and what C asks of them -/

inductive Flag where
  | none
  | minus
  | zero
deriving DecidableEq

inductive Kind where
  | d
  | x
  | s
deriving DecidableEq

/-- `%[-|0][width][l](d|x)` or `%[-][width]s`; a width of 0 stands for none. -/
structure Spec where
  flag : Flag
  width : Nat
  long : Bool
  kind : Kind
  fits : width < 2 ^ 31
  plain : kind = .s → flag ≠ .zero ∧ long = false

def Flag.chars : Flag → List Byte
  | .none => []
  | .minus => [0x2d#8]
  | .zero => [0x30#8]

def Kind.char : Kind → Byte
  | .d => 0x64#8
  | .x => 0x78#8
  | .s => 0x73#8

def widthChars (width : Nat) : List Byte := if width = 0 then [] else numeralText 10 width

def longChars (long : Bool) : List Byte := if long then [0x6c#8] else []

/-- The conversion as it stands in a format, behind the '%'. -/
def Spec.chars (spec : Spec) : List Byte :=
  spec.flag.chars ++ widthChars spec.width ++ longChars spec.long ++ [spec.kind.char]

/-- The sign of the value. -/
def Spec.sign (spec : Spec) (args : PrintArgs) : List Byte :=
  if spec.kind = .d ∧ (args.words 0).toInt < 0 then [0x2d#8] else []

/-- The shortest digits of the value, or the string. -/
def Spec.body (spec : Spec) (args : PrintArgs) : List Byte :=
  match spec.kind with
  | .d => numeralText 10 (args.words 0).toInt.natAbs
  | .x => numeralText 16 (args.words 0).toNat
  | .s => (args.strings (args.words 0)).chars

/-- The C result: padded on the left with blanks, on the right with blanks, or
with zeros behind the sign, to the width. -/
def Spec.cOutput (spec : Spec) (args : PrintArgs) : List Byte :=
  let text := spec.sign args ++ spec.body args
  match spec.flag with
  | .none => List.replicate (spec.width - text.length) 0x20#8 ++ text
  | .minus => text ++ List.replicate (spec.width - text.length) 0x20#8
  | .zero =>
    spec.sign args ++ List.replicate (spec.width - text.length) 0x30#8 ++ spec.body args

/-- A call sends exactly `text`; a buffer with room for it holds it with a NUL
behind it, and the call returns the length with the NUL. -/
def Prints (args : PrintArgs) (fmt : CString) (text : List Byte) : Prop :=
  ∀ (buf size : BitVec 32) (mem : Mem), ∃ r s, vsnprintf args buf size fmt mem = .ok r s ∧
    s.sent = text ∧ ((text.length : Int) < size.toInt →
      r.toInt = text.length + 1 ∧ load s.mem buf (text.length + 1) = text ++ [0#8])

/-! ### Widths -/

theorem isDigit_digitChar {d : Nat} (hd : d < 10) : isDigit (digitChar d) := by
  have hall : ∀ d < 10, isDigit (digitChar d) := by decide
  exact hall d hd

theorem digitChar_value {d : Nat} (hd : d < 10) :
    (digitChar d - 0x30#8).setWidth 32 = BitVec.ofNat 32 d := by
  have hall : ∀ d < 10, (digitChar d - 0x30#8).setWidth 32 = BitVec.ofNat 32 d := by decide
  exact hall d hd

/-- `atol` reads a numeral as the number. -/
theorem atolDigits_numeral {ds : List Nat} (hds : ∀ d ∈ ds, d < 10) {c : Byte} (hc : ¬ isDigit c)
    (rest : List Byte) (acc : Nat) :
    atolDigits (BitVec.ofNat 32 acc) (ds.map digitChar ++ c :: rest) =
      BitVec.ofNat 32 (ds.foldl (fun acc d => acc * 10 + d) acc) := by
  induction ds generalizing acc with
  | nil =>
    rw [List.map_nil, List.nil_append, atolDigits, if_pos hc]
    split <;> rfl
  | cons d ds ih =>
    have hd := hds d (by simp)
    have hne : digitChar d ≠ 0#8 := digitChar_ne_nul (by omega)
    have hacc : BitVec.ofNat 32 acc * 10#32 + BitVec.ofNat 32 d =
        BitVec.ofNat 32 (acc * 10 + d) := by
      rw [BitVec.ofNat_add, BitVec.ofNat_mul]
    rw [List.map_cons, List.cons_append, atolDigits, if_neg hne,
      if_neg (not_not_intro (isDigit_digitChar hd)), digitChar_value hd, hacc,
      ih fun d' hd' => hds d' (by simp [hd'])]
    rfl

theorem countDigits_numeral {ds : List Nat} (hds : ∀ d ∈ ds, d < 10) {c : Byte}
    (hc : ¬ isDigit c) (rest : List Byte) :
    countDigits (ds.map digitChar ++ c :: rest) = ds.length := by
  induction ds with
  | nil => rw [List.map_nil, List.nil_append, countDigits, if_neg hc, List.length_nil]
  | cons d ds ih =>
    rw [List.map_cons, List.cons_append, countDigits, if_pos (isDigit_digitChar (hds d (by simp))),
      ih fun d' hd' => hds d' (by simp [hd']), List.length_cons]

/-- The digits of a width; none for 0. -/
def widthDigits (width : Nat) : List Nat := if width = 0 then [] else numeral 10 width

theorem widthChars_eq (width : Nat) : widthChars width = (widthDigits width).map digitChar := by
  unfold widthChars widthDigits numeralText
  split <;> rfl

theorem widthDigits_lt (width : Nat) : ∀ d ∈ widthDigits width, d < 10 := by
  intro d hd
  unfold widthDigits at hd
  split at hd
  · cases hd
  · exact (isNumeral_numeral (by decide) width).digit d hd

theorem foldl_widthDigits (width : Nat) :
    (widthDigits width).foldl (fun acc d => acc * 10 + d) 0 = width := by
  unfold widthDigits
  split
  · rename_i hzero
    rw [hzero]
    rfl
  · exact (isNumeral_numeral (by decide) width).value

/-- A width starts with a digit that is not zero. -/
theorem widthDigits_head {width : Nat} (hwidth : width ≠ 0) :
    ∃ d ds, widthDigits width = d :: ds ∧ d ≠ 0 := by
  have hnumeral := isNumeral_numeral (by decide : 1 < 10) width
  unfold widthDigits
  rw [if_neg hwidth]
  cases hds : numeral 10 width with
  | nil => exact absurd hds hnumeral.nonempty
  | cons d ds =>
    refine ⟨d, ds, rfl, fun hzero => hwidth ?_⟩
    have hrest := hnumeral.leading d ds hds hzero
    have hvalue := hnumeral.value
    rw [hds, hzero, hrest] at hvalue
    exact hvalue.symm

theorem atolDigits_width (width : Nat) {c : Byte} (hc : ¬ isDigit c) (rest : List Byte) :
    atolDigits 0#32 (widthChars width ++ c :: rest) = BitVec.ofNat 32 width := by
  have hnumeral := atolDigits_numeral (widthDigits_lt width) hc rest 0
  rwa [foldl_widthDigits, ← widthChars_eq] at hnumeral

theorem countDigits_width (width : Nat) {c : Byte} (hc : ¬ isDigit c) (rest : List Byte) :
    countDigits (widthChars width ++ c :: rest) = (widthChars width).length := by
  rw [widthChars_eq, countDigits_numeral (widthDigits_lt width) hc, List.length_map]

theorem fmtnum_minus (width : Nat) {c : Byte} (hc : ¬ isDigit c) (rest : List Byte) :
    fmtnum (0x2d#8 :: (widthChars width ++ c :: rest)) =
      (-BitVec.ofNat 32 width, (widthChars width).length + 1) := by
  have hatol : atol (0x2d#8 :: (widthChars width ++ c :: rest)) = -BitVec.ofNat 32 width := by
    rw [← atolDigits_width width hc rest]
    rfl
  rw [fmtnum, hatol, if_pos rfl, countDigits_width width hc]

/-- The first character of a width. -/
theorem widthChars_cons {width : Nat} (hwidth : width ≠ 0) :
    ∃ f rest, widthChars width = f :: rest ∧ 0x31 ≤ f.toNat ∧ f.toNat ≤ 0x39 := by
  obtain ⟨d, ds, hds, hd⟩ := widthDigits_head hwidth
  have hlt := widthDigits_lt width d (by simp [hds])
  have hall : ∀ d < 10, d ≠ 0 → 0x31 ≤ (digitChar d).toNat ∧ (digitChar d).toNat ≤ 0x39 := by
    decide
  refine ⟨digitChar d, ds.map digitChar, ?_, hall d hlt hd⟩
  rw [widthChars_eq, hds, List.map_cons]

theorem fmtnum_width {width : Nat} (hwidth : width ≠ 0) {c : Byte} (hc : ¬ isDigit c)
    (rest : List Byte) : fmtnum (widthChars width ++ c :: rest) =
      (BitVec.ofNat 32 width, (widthChars width).length) := by
  have hnum := atolDigits_width width hc rest
  have hcount := countDigits_width width hc rest
  obtain ⟨f, tail, hcons, hlo, hhi⟩ := widthChars_cons hwidth
  have hne (b : Byte) (hb : b.toNat < 0x31) : f ≠ b := by
    rintro rfl
    omega
  rw [hcons, List.cons_append] at hnum hcount ⊢
  have hspaces : atolSpaces (f :: (tail ++ c :: rest)) = f :: (tail ++ c :: rest) := by
    rw [atolSpaces, if_neg]
    rintro (h | h)
    · exact hne 0x20#8 (by decide) h
    · exact hne 0x09#8 (by decide) h
  have hatol : atol (f :: (tail ++ c :: rest)) = BitVec.ofNat 32 width := by
    rw [atol, hspaces]
    simp only
    rw [if_neg (hne 0x2d#8 (by decide)), if_neg (hne 0x2b#8 (by decide)), hnum]
  rw [fmtnum, hatol, if_neg (hne 0x2d#8 (by decide)), hcount]

/-! ### A conversion in a format -/

def Kind.directive : Kind → StrProps → Directive
  | .d => .int
  | .x => .hex
  | .s => .str

theorem conversion_kind (kind : Kind) {nlong : Nat} (hlong : nlong < 2) (props : StrProps)
    (post : List Byte) :
    conversion nlong props (kind.char :: post) = (.prints (kind.directive props), 1) := by
  rw [conversion]
  cases kind with
  | d =>
    simp [Kind.char, startsWidth, hlong]
    rfl
  | x =>
    simp [Kind.char, startsWidth, hlong]
    rfl
  | s =>
    simp [Kind.char, startsWidth]
    rfl

/-- Behind the width. -/
theorem conversion_long (long : Bool) (kind : Kind) (props : StrProps) (post : List Byte) :
    conversion 0 props (longChars long ++ kind.char :: post) =
      (.prints (kind.directive props), (longChars long).length + 1) := by
  cases long with
  | false => exact conversion_kind kind (by decide) props post
  | true =>
    rw [longChars, if_pos rfl, List.singleton_append, conversion]
    simp [startsWidth, conversion_kind kind (by decide : 1 < 2) props post]

/-- The character behind a width. -/
theorem longChars_cons (long : Bool) (kind : Kind) (post : List Byte) :
    ∃ c rest, longChars long ++ kind.char :: post = c :: rest ∧ ¬ isDigit c := by
  cases long with
  | true => exact ⟨0x6c#8, _, rfl, by decide⟩
  | false => exact ⟨kind.char, post, rfl, by cases kind <;> decide⟩

/-- The counter that `print_str` gets. -/
def Spec.npad (spec : Spec) : BitVec 32 :=
  if spec.flag = .minus then -BitVec.ofNat 32 spec.width else BitVec.ofNat 32 spec.width

/-- A width in front of the cursor. -/
theorem conversion_width {nlong : Nat} {props : StrProps} {f : Byte} (hf : startsWidth f)
    {rest : List Byte} {num : BitVec 32} {len : Nat}
    (hnum : fmtnum (f :: (rest ++ [0#8])) = (num, len)) :
    conversion nlong props (f :: rest) =
      ((conversion nlong { props with npad := num } (rest.drop (len - 1))).1,
        len + (conversion nlong { props with npad := num } (rest.drop (len - 1))).2) := by
  have hne (b : Byte) (hb : ¬ startsWidth b) : f ≠ b := fun h => hb (h ▸ hf)
  rw [conversion, if_neg (hne 0x25#8 (by decide)), if_neg (hne 0x63#8 (by decide)),
    if_neg (hne 0x30#8 (by decide)), if_pos hf]
  simp only [List.cons_append, hnum]

/-- With a '-' flag or none, a conversion is found as it is written. -/
theorem conversion_spec (spec : Spec) (hflag : spec.flag ≠ .zero) (post : List Byte) :
    conversion 0 ⟨0x20#8, 0#32⟩ (spec.chars ++ post) =
      (.prints (spec.kind.directive ⟨0x20#8, spec.npad⟩), spec.chars.length) := by
  obtain ⟨flag, width, long, kind, hfits, hplain⟩ := spec
  obtain ⟨c, rest, hnext, hc⟩ := longChars_cons long kind (post ++ [0#8])
  have hlong := conversion_long long kind
  have hbehind : longChars long ++ kind.char :: post ++ [0#8] = c :: rest := by
    rw [List.append_assoc, List.cons_append, hnext]
  cases flag with
  | zero => exact absurd rfl hflag
  | none =>
    have hchars : Spec.chars ⟨.none, width, long, kind, hfits, hplain⟩ ++ post =
        widthChars width ++ (longChars long ++ kind.char :: post) := by
      simp [Spec.chars, Flag.chars]
    rw [hchars]
    by_cases hwidth : width = 0
    · subst hwidth
      rw [widthChars, if_pos rfl, List.nil_append, hlong]
      simp [Spec.chars, Flag.chars, widthChars, Spec.npad]
    · have hnum := fmtnum_width hwidth hc rest
      rw [← hbehind] at hnum
      obtain ⟨f, tail, hcons, hlo, hhi⟩ := widthChars_cons hwidth
      rw [hcons, List.cons_append] at hnum ⊢
      rw [conversion_width (.inl ⟨hlo, hhi⟩) (by simpa using hnum), Nat.add_sub_cancel,
        List.drop_left, hlong]
      simp [Spec.chars, Flag.chars, hcons, Spec.npad]
      omega
  | minus =>
    have hchars : Spec.chars ⟨.minus, width, long, kind, hfits, hplain⟩ ++ post =
        0x2d#8 :: (widthChars width ++ (longChars long ++ kind.char :: post)) := by
      simp [Spec.chars, Flag.chars]
    have hnum := fmtnum_minus width hc rest
    rw [← hbehind] at hnum
    rw [hchars, conversion_width (.inr rfl) (by simpa using hnum), Nat.add_sub_cancel,
      List.drop_left, hlong]
    simp [Spec.chars, Flag.chars, Spec.npad]
    omega

/-! ### The text of a conversion -/

theorem Spec.text_eq (spec : Spec) (args : PrintArgs) : spec.sign args ++ spec.body args =
    match spec.kind with
    | .d => signedText 10 (args.words 0).toInt
    | .x => numeralText 16 (args.words 0).toNat
    | .s => (args.strings (args.words 0)).chars := by
  unfold Spec.sign Spec.body signedText
  cases spec.kind with
  | d =>
    simp only [true_and]
    split <;> rfl
  | x => simp
  | s => simp

theorem directive_output (spec : Spec) (args : PrintArgs)
    (hmin : spec.kind = .d → args.words 0 ≠ LONG_MIN) (props : StrProps) :
    (spec.kind.directive props).output args 0 =
      padded (spec.sign args ++ spec.body args) props.pad props.npad.toInt := by
  rw [Spec.text_eq]
  cases hkind : spec.kind with
  | d =>
    simp only [Kind.directive, Directive.output]
    rw [takeWhile_intBuffer args.around (hmin hkind)]
  | x => rfl
  | s => rfl

theorem Spec.toInt_npad (spec : Spec) : spec.npad.toInt =
    if spec.flag = .minus then -(spec.width : Int) else spec.width := by
  have hfits := spec.fits
  have hwidth : (BitVec.ofNat 32 spec.width).toInt = spec.width :=
    Signed.toInt_ofNat_of_lt (by omega)
  unfold Spec.npad
  split
  · rw [Signed.toInt_neg_of_range (by omega), hwidth]
  · exact hwidth

/-- The padding of `print_str` is the one of C. -/
theorem padded_eq_cOutput (spec : Spec) (args : PrintArgs) (hflag : spec.flag ≠ .zero) :
    padded (spec.sign args ++ spec.body args) 0x20#8 spec.npad.toInt = spec.cOutput args := by
  rw [Spec.toInt_npad]
  unfold Spec.cOutput
  cases hspec : spec.flag with
  | none =>
    rw [if_neg (by decide), padded_of_nonneg (Int.natCast_nonneg _)]
    simp only
    congr 2
    omega
  | minus =>
    rw [if_pos rfl]
    rcases Nat.eq_zero_or_pos spec.width with hzero | hpos
    · rw [hzero, Nat.cast_zero, Int.neg_zero, padded_zero]
      simp
    · rw [padded_of_neg (by omega)]
      simp only
      congr 2
      omega
  | zero => exact absurd hspec hflag

/-! ### Literal text -/

theorem directives_text {pre : List Byte} (hpre : 0x25#8 ∉ pre) (rest : List Byte) :
    directives (pre ++ rest) = (pre.map .text ++ (directives rest).1, (directives rest).2) := by
  induction pre with
  | nil => rfl
  | cons c pre ih =>
    simp only [List.mem_cons, not_or] at hpre
    rw [List.cons_append, directives, if_pos (Ne.symm hpre.1), ih hpre.2]
    rfl

theorem directives_literal {post : List Byte} (hpost : 0x25#8 ∉ post) :
    directives post = (post.map .text, .done) := by
  have htext := directives_text hpost []
  rw [List.append_nil, directives, List.append_nil] at htext
  exact htext

theorem outputs_text (args : PrintArgs) (va : Nat) (cs : List Byte) (ds : List Directive) :
    outputs args va (cs.map .text ++ ds) = cs ++ outputs args va ds := by
  induction cs with
  | nil => rfl
  | cons c cs ih =>
    rw [List.map_cons, List.cons_append, outputs]
    exact congrArg (c :: ·) ih

theorem outputs_literal (args : PrintArgs) (va : Nat) (cs : List Byte) :
    outputs args va (cs.map .text) = cs := by
  have htext := outputs_text args va cs []
  rwa [List.append_nil, outputs, List.append_nil] at htext

/-- A format with one conversion. -/
theorem directives_conversion {pre rest : List Byte} (hpre : 0x25#8 ∉ pre) {d : Directive}
    {k : Nat} (hconv : conversion 0 ⟨0x20#8, 0#32⟩ rest = (.prints d, k)) (hk : k ≤ rest.length)
    (hpost : 0x25#8 ∉ rest.drop k) :
    directives (pre ++ 0x25#8 :: rest) =
      (pre.map .text ++ d :: (rest.drop k).map .text, .done) := by
  rw [directives_text hpre, directives, if_neg (by simp), hconv]
  simp only
  rw [if_neg (by omega), directives_literal hpost]

/-- A format that ends at its NUL prints the texts of its directives, and no
other text. -/
theorem prints_iff {args : PrintArgs} {fmt : CString} {ds : List Directive}
    (hds : directives fmt.chars = (ds, .done)) (text : List Byte) :
    Prints args fmt text ↔ outputs args 0 ds = text := by
  have hend : (directives fmt.chars).2 = .done := by rw [hds]
  constructor
  · intro h
    obtain ⟨r, s, hrun, hsent, -⟩ := h 0#32 0#32 fun _ => 0#8
    rw [vsnprintf_done hend, hds] at hrun
    injection hrun with _ hs
    rw [← hsent, ← hs]
    exact (sent_after ..).symm
  · rintro rfl buf size mem
    refine ⟨_, _, vsnprintf_done hend buf size mem, ?_, fun hroom => ?_⟩
    · rw [hds]
      exact sent_after ..
    · have hlt := @BitVec.two_mul_toInt_lt 32 size
      have hsize : size.toInt = size.toNat := BitVec.toInt_eq_toNat_of_lt (by
        have hcond := BitVec.toInt_eq_toNat_cond size
        split at hcond <;> omega)
      obtain ⟨hstring, -⟩ := buffer_terminate buf (by omega : 1 ≤ size.toInt) mem
        (outputs args 0 ds)
      rw [Nat.min_eq_left (by omega), List.take_of_length_le (by omega)] at hstring
      rw [hds]
      refine ⟨?_, hstring⟩
      have hcount := Signed.toInt_ofNat_of_lt (w := 32)
        (show ((outputs args 0 ds).length + 1) * 2 < 2 ^ 32 by omega)
      rw [hcount]
      push_cast
      ring

/-! ### The '0' flag -/

/-- The conversion behind its '0' flag. -/
def Spec.tail (spec : Spec) : List Byte :=
  widthChars spec.width ++ longChars spec.long ++ [spec.kind.char]

theorem Spec.chars_zero {spec : Spec} (hflag : spec.flag = .zero) :
    spec.chars = 0x30#8 :: spec.tail := by
  rw [Spec.chars, hflag, Spec.tail]
  rfl

theorem digitChar_ne {c : Byte} (hc : ∀ d < 16, digitChar d ≠ c) {n : Nat} (base : Base) :
    c ∉ numeralText base.val.toNat n := by
  intro h
  obtain ⟨d, hd, hchar⟩ := List.mem_map.mp h
  exact hc d (numeral_lt_sixteen base hd) hchar

theorem percent_not_mem_tail (spec : Spec) : 0x25#8 ∉ spec.tail := by
  have hwidth : 0x25#8 ∉ widthChars spec.width := by
    unfold widthChars
    split
    · exact List.not_mem_nil
    · exact digitChar_ne (by decide) decimal
  have hlong : 0x25#8 ∉ longChars spec.long := by
    cases spec.long <;> decide
  have hkind : 0x25#8 ≠ spec.kind.char := by
    cases spec.kind <;> decide
  simp only [Spec.tail, List.mem_append, List.mem_singleton, not_or]
  exact ⟨⟨hwidth, hlong⟩, hkind⟩

/-- The letter of a number conversion is no character of its result. -/
theorem kind_not_mem_cOutput {spec : Spec} (args : PrintArgs) (hflag : spec.flag = .zero) :
    spec.kind.char ∉ spec.cOutput args := by
  have hkind : spec.kind ≠ .s := fun h => (spec.plain h).1 hflag
  have hbody : spec.kind.char ∉ spec.body args := by
    unfold Spec.body
    cases hspec : spec.kind with
    | d =>
      intro h
      obtain ⟨d, hd, hchar⟩ := List.mem_map.mp h
      have hten := (isNumeral_numeral (by decide : 1 < 10) _).digit d hd
      have hall : ∀ d < 10, digitChar d ≠ 0x64#8 := by decide
      exact hall d hten hchar
    | x => exact digitChar_ne (by decide) hexadecimal
    | s => exact absurd hspec hkind
  have hzero : spec.kind.char ≠ 0x30#8 := by
    cases spec.kind <;> decide
  have hsign : spec.kind.char ∉ spec.sign args := by
    unfold Spec.sign
    split
    · cases spec.kind <;> decide
    · exact List.not_mem_nil
  unfold Spec.cOutput
  rw [hflag]
  simp only [List.mem_append, not_or]
  refine ⟨⟨hsign, fun h => hzero (List.eq_of_mem_replicate h)⟩, hbody⟩

/-- The result without a width is "0" for the value 0 only. -/
theorem text_zero_iff {spec : Spec} (args : PrintArgs) (hkind : spec.kind ≠ .s) :
    spec.sign args ++ spec.body args = [0x30#8] ↔ args.words 0 = 0#32 := by
  rw [Spec.text_eq]
  cases hspec : spec.kind with
  | d =>
    change signedText 10 (args.words 0).toInt = _ ↔ _
    constructor
    · intro h
      have hread := readSigned_signedText decimal (args.words 0).toInt
      change readSigned 10 (signedText 10 _) = _ at hread
      rw [h] at hread
      exact BitVec.eq_of_toInt_eq (hread.symm.trans (by decide))
    · intro h
      rw [h]
      decide
  | x =>
    change numeralText 16 (args.words 0).toNat = _ ↔ _
    constructor
    · intro h
      have hread := readText_numeralText hexadecimal (args.words 0).toNat
      change readText 16 (numeralText 16 _) = _ at hread
      rw [h] at hread
      exact BitVec.eq_of_toNat_eq (hread.symm.trans (by decide))
    · intro h
      rw [h]
      decide
  | s => exact absurd hspec hkind

/-- What the code prints with the '0' flag, and when C asks for it. -/
theorem zeroFlag_iff {spec : Spec} (args : PrintArgs) (hflag : spec.flag = .zero) :
    0x30#8 :: spec.tail.drop 1 = spec.cOutput args ↔
      spec.width = 0 ∧ spec.long = false ∧ args.words 0 = 0#32 := by
  have hkind : spec.kind ≠ .s := fun h => (spec.plain h).1 hflag
  have hletter := kind_not_mem_cOutput args hflag
  by_cases hbare : spec.width = 0 ∧ spec.long = false
  · obtain ⟨hwidth, hlong⟩ := hbare
    have htail : spec.tail.drop 1 = [] := by
      rw [Spec.tail, hwidth, hlong]
      rfl
    have houtput : spec.cOutput args = spec.sign args ++ spec.body args := by
      unfold Spec.cOutput
      rw [hflag, hwidth]
      simp
    rw [htail, houtput, eq_comm, text_zero_iff args hkind]
    exact ⟨fun h => ⟨hwidth, hlong, h⟩, fun h => h.2.2⟩
  · refine ⟨fun h => ?_, fun h => absurd ⟨h.1, h.2.1⟩ hbare⟩
    -- the letter is still printed behind the character that was skipped
    have hmem : spec.kind.char ∈ spec.tail.drop 1 := by
      have hlen : 1 ≤ (widthChars spec.width ++ longChars spec.long).length := by
        rw [List.length_append]
        by_cases hwidth : spec.width = 0
        · have hlong : spec.long = true := by
            simpa [hwidth] using hbare
          rw [hlong]
          exact Nat.le_add_left 1 _
        · obtain ⟨f, rest, hcons, -⟩ := widthChars_cons hwidth
          rw [hcons, List.length_cons]
          omega
      rw [Spec.tail, List.drop_append_of_le_length hlen]
      simp
    rw [← h] at hletter
    exact absurd (List.mem_cons_of_mem _ hmem) hletter

/-! ### Any conversion -/

/-- A conversion with literal text around it prints what C asks for, unless it
has the '0' flag; then it does for a bare "%0d" or "%0x" of 0 only. -/
theorem conversion_prints_iff (args : PrintArgs) (spec : Spec) {pre post : List Byte}
    {fmt : CString} (hfmt : fmt.chars = pre ++ 0x25#8 :: (spec.chars ++ post))
    (hpre : 0x25#8 ∉ pre) (hpost : 0x25#8 ∉ post)
    (hmin : spec.kind = .d → args.words 0 ≠ LONG_MIN) :
    Prints args fmt (pre ++ spec.cOutput args ++ post) ↔
      (spec.flag = .zero → spec.width = 0 ∧ spec.long = false ∧ args.words 0 = 0#32) := by
  by_cases hflag : spec.flag = .zero
  · have hrest : spec.chars ++ post = 0x30#8 :: (spec.tail ++ post) := by
      rw [Spec.chars_zero hflag, List.cons_append]
    have hconv : conversion 0 ⟨0x20#8, 0#32⟩ (0x30#8 :: (spec.tail ++ post)) =
        (.prints (.text 0x30#8), 2) := by
      rw [conversion]
      rfl
    have hlen : 1 ≤ spec.tail.length := by
      rw [Spec.tail, List.length_append]
      exact Nat.le_add_left 1 _
    have hdrop : (0x30#8 :: (spec.tail ++ post)).drop 2 = spec.tail.drop 1 ++ post := by
      rw [List.drop_succ_cons, List.drop_append_of_le_length hlen]
    have hliteral : 0x25#8 ∉ spec.tail.drop 1 ++ post := by
      simp only [List.mem_append, not_or]
      exact ⟨fun h => percent_not_mem_tail spec (List.mem_of_mem_drop h), hpost⟩
    have hds := directives_conversion hpre hconv (by
      rw [List.length_cons, List.length_append]
      omega) (hdrop ▸ hliteral)
    rw [← hrest, ← hfmt, hrest, hdrop] at hds
    have houtputs : outputs args 0
        (pre.map .text ++ .text 0x30#8 :: (spec.tail.drop 1 ++ post).map .text) =
        pre ++ 0x30#8 :: spec.tail.drop 1 ++ post := by
      rw [outputs_text, outputs, outputs_literal]
      simp [Directive.output]
    rw [prints_iff hds, houtputs, List.append_left_inj, List.append_right_inj,
      zeroFlag_iff args hflag]
    exact ⟨fun h _ => h, fun h => h hflag⟩
  · have hds := directives_conversion hpre (conversion_spec spec hflag post) (by
      rw [List.length_append]
      omega) (by rwa [List.drop_left])
    rw [← hfmt, List.drop_left] at hds
    have houtputs : outputs args 0 (pre.map .text ++
        spec.kind.directive ⟨0x20#8, spec.npad⟩ :: post.map .text) =
        pre ++ spec.cOutput args ++ post := by
      rw [outputs_text, outputs, outputs_literal, directive_output spec args hmin,
        padded_eq_cOutput spec args hflag, List.append_assoc]
    rw [prints_iff hds, houtputs]
    exact ⟨fun _ h => absurd h hflag, fun _ => rfl⟩

/-! ### Two formats -/

/-- The argument 42. -/
def answerArgs : PrintArgs := { noArgs with words := fun _ => 42#32 }

/-- "-5d" -/
def leftSpec : Spec := ⟨.minus, 5, false, .d, by decide, by decide⟩

/-- "05d" -/
def zeroSpec : Spec := ⟨.zero, 5, false, .d, by decide, by decide⟩

/-- "%-5d" -/
def leftFormat : CString := ⟨[0x25#8, 0x2d#8, 0x35#8, 0x64#8], by decide, by decide⟩

/-- "%05d" -/
def zeroFormat : CString := ⟨[0x25#8, 0x30#8, 0x35#8, 0x64#8], by decide, by decide⟩

theorem widthChars_five : widthChars 5 = [0x35#8] := by
  simp [widthChars, numeralText, numeral, digitChar, digits]

theorem conversion_prints_left :
    Prints answerArgs leftFormat ([] ++ leftSpec.cOutput answerArgs ++ []) :=
  (conversion_prints_iff answerArgs leftSpec (by
    rw [Spec.chars, leftSpec, widthChars_five]
    rfl) List.not_mem_nil List.not_mem_nil fun _ => by decide).mpr fun h => by cases h

/-- "%05d" prints "0d". -/
theorem zero_flag_not_printed : ¬ ∀ (args : PrintArgs) (spec : Spec) (pre post : List Byte)
    (fmt : CString), fmt.chars = pre ++ 0x25#8 :: (spec.chars ++ post) →
    0x25#8 ∉ pre → 0x25#8 ∉ post → (spec.kind = .d → args.words 0 ≠ LONG_MIN) →
    Prints args fmt (pre ++ spec.cOutput args ++ post) := by
  intro hall
  have hchars : zeroFormat.chars = [] ++ 0x25#8 :: (zeroSpec.chars ++ []) := by
    rw [Spec.chars, zeroSpec, widthChars_five]
    rfl
  have hprints := hall answerArgs zeroSpec [] [] zeroFormat hchars List.not_mem_nil
    List.not_mem_nil fun _ => by decide
  have hds : directives zeroFormat.chars = ([.text 0x30#8, .text 0x64#8], .done) := by
    simp [zeroFormat, directives, conversion]
  rw [prints_iff hds] at hprints
  have hcode : outputs answerArgs 0 [.text 0x30#8, .text 0x64#8] = [0x30#8, 0x64#8] := rfl
  have hletter : (0x64#8 : Byte) ∉ zeroSpec.cOutput answerArgs :=
    @kind_not_mem_cOutput zeroSpec answerArgs rfl
  rw [hcode, List.nil_append, List.append_nil] at hprints
  rw [← hprints] at hletter
  exact absurd hletter (by decide)

end Qboot
