import Qboot.Printf.Refinement

/-!
Where a call writes, and what a smaller buffer changes. The text goes into the
first `size - 1` bytes and the NUL behind it; all characters are counted. Two
formats get past this: one that ends in a '0' flag, behind which the cursor
leaves the format, and any format with a buffer of no byte.
-/

namespace Qboot

open Bytes ByteMemory Emission Numerals

/-! ### The buffer after a call -/

/-- Everything a call gives to `addchar`. -/
def fullOutput (args : PrintArgs) (buf size : BitVec 32) (fmt : CString) (mem : Mem) : List Byte :=
  (StateRun.final (vsnprintf args buf size fmt mem)).sent

theorem sent_after (buf size : BitVec 32) (mem : Mem) (out : List Byte) :
    (Printer.after buf size mem out).sent = out := by
  rw [Printer.after, Printer.sendAll_eq]
  exact List.nil_append out

theorem fullOutput_eq (args : PrintArgs) (buf size : BitVec 32) (fmt : CString) (mem : Mem) :
    fullOutput args buf size fmt mem = outputs args 0 (directives fmt.chars).1 := by
  rw [fullOutput, vsnprintf_eq]
  cases (directives fmt.chars).2 with
  | _ => exact sent_after ..

theorem mem_after (buf size : BitVec 32) (mem : Mem) (out : List Byte) :
    (Printer.after buf size mem out).mem = store mem buf (out.take (size - 1#32).toNat) := by
  rw [Printer.after, Printer.sendAll_eq]
  rfl

/-- The text that fits and the NUL behind it. -/
theorem mem_terminate (buf size : BitVec 32) (mem : Mem) (out : List Byte) :
    (Printer.after buf size mem out).terminate.mem =
      store mem buf (out.take (size - 1#32).toNat ++ [0#8]) := by
  have hroom := (size - 1#32).isLt
  have hlen : (out.take (size - 1#32).toNat).length = min out.length (size - 1#32).toNat := by
    rw [List.length_take, Nat.min_comm]
  have hbuffer : (Printer.after buf size mem out).stream.buffer =
      buf + BitVec.ofNat 32 (out.take (size - 1#32).toNat).length := by
    rw [Printer.after, Printer.sendAll_eq, hlen]
    rfl
  rw [Printer.terminate, mem_after, hbuffer]
  exact store_append mem buf (by rw [List.length_singleton]; omega)

theorem toNat_room {size : BitVec 32} (h : 1 ≤ size.toInt) :
    (size - 1#32).toNat = size.toNat - 1 ∧ 1 ≤ size.toNat := by
  have hpos : 1 ≤ size.toNat := by
    have hzero : size.toNat ≠ 0 := fun hz => by
      have hsize : size = 0#32 := BitVec.eq_of_toNat_eq hz
      rw [hsize] at h
      exact absurd h (by decide)
    omega
  refine ⟨?_, hpos⟩
  have hlt := size.isLt
  rw [BitVec.toNat_sub]
  change (2 ^ 32 - 1 + size.toNat) % 2 ^ 32 = _
  omega

/-- The string a call leaves, and the bytes it leaves alone. -/
theorem buffer_terminate (buf : BitVec 32) {size : BitVec 32} (h : 1 ≤ size.toInt) (mem : Mem)
    (out : List Byte) :
    load (Printer.after buf size mem out).terminate.mem buf
        (min out.length (size.toNat - 1) + 1) = out.take (size.toNat - 1) ++ [0#8] ∧
      ∀ a, size.toNat ≤ offset buf a →
        (Printer.after buf size mem out).terminate.mem a = mem a := by
  obtain ⟨hroom, hpos⟩ := toNat_room h
  have hlt := size.isLt
  have hlen : (out.take (size.toNat - 1) ++ [0#8]).length =
      min out.length (size.toNat - 1) + 1 := by
    rw [List.length_append, List.length_take, Nat.min_comm]
    rfl
  rw [mem_terminate, hroom]
  constructor
  · have hload := load_store mem buf (show (out.take (size.toNat - 1) ++ [0#8]).length ≤ 2 ^ 32 by
      omega)
    rwa [hlen] at hload
  · intro a ha
    exact store_of_not_within mem (by unfold Within; omega)

theorem mem_after_outside {buf size : BitVec 32} (h : 1 ≤ size.toInt) (mem : Mem)
    (out : List Byte) {a : BitVec 32} (ha : size.toNat ≤ offset buf a) :
    (Printer.after buf size mem out).mem a = mem a := by
  obtain ⟨hroom, hpos⟩ := toNat_room h
  rw [mem_after, hroom]
  refine store_of_not_within mem ?_
  unfold Within
  rw [List.length_take]
  omega

/-! ### A flag in front of the NUL -/

/-- The format has a '0' flag directly in front of its NUL. The first argument
says whether the characters belong to a conversion, and how many `l` it has so
far; where the code panics it reads no further. -/
def zeroFlagLast : Option Nat → List Byte → Bool
  | _, [] => false
  | none, c :: cs => zeroFlagLast (if c = 0x25#8 then some 0 else none) cs
  | some nlong, c :: cs =>
    if c = 0x30#8 then
      if cs = [] then true else zeroFlagLast none cs.tail
    else if startsWidth c then zeroFlagLast (some nlong) (cs.dropWhile (isDigit ·))
    else if c = 0x6c#8 then zeroFlagLast (some (nlong + 1)) cs
    else if (c = 0x64#8 ∨ c = 0x78#8) ∧ 2 ≤ nlong then false
    else zeroFlagLast none cs
termination_by _ cs => cs.length
decreasing_by
  · simp
  · simp only [List.length_tail, List.length_cons]
    omega
  · have hle := (List.dropWhile_sublist (isDigit ·) (l := cs)).length_le
    simp only [List.length_cons]
    omega
  · simp
  · simp

theorem drop_countDigits (cs : List Byte) :
    cs.drop (countDigits (cs ++ [0#8])) = cs.dropWhile (isDigit ·) := by
  induction cs with
  | nil => rfl
  | cons c cs ih =>
    rw [List.cons_append, countDigits]
    by_cases hc : isDigit c
    · rw [if_pos hc, List.drop_succ_cons, ih, List.dropWhile_cons_of_pos (by simpa using hc)]
    · rw [if_neg hc, List.drop_zero, List.dropWhile_cons_of_neg (by simpa using hc)]

/-- Behind a width the digits are used up. -/
theorem drop_fmtnum {f : Byte} (hf : startsWidth f) (rest : List Byte) :
    rest.drop ((fmtnum (f :: (rest ++ [0#8]))).2 - 1) = rest.dropWhile (isDigit ·) := by
  have hlen : (fmtnum (f :: (rest ++ [0#8]))).2 = countDigits (rest ++ [0#8]) + 1 := by
    rw [fmtnum]
    by_cases hminus : f = 0x2d#8
    · rw [if_pos hminus]
    · rcases hf with ⟨hlo, hhi⟩ | hf
      · have hdigit : isDigit f := ⟨by omega, hhi⟩
        rw [if_neg hminus, countDigits, if_pos hdigit]
      · exact absurd hf hminus
  rw [hlen, Nat.add_sub_cancel, drop_countDigits]

/-- Whether the flag comes last, by the conversion in front of the cursor. -/
def flagBehind (cs : List Byte) : Conversion × Nat → Bool
  | (.prints _, k) => if cs.length < k then true else zeroFlagLast none (cs.drop k)
  | _ => false

theorem flagBehind_shift {cs : List Byte} {j : Nat} (hj : j ≤ cs.length)
    (next : Conversion × Nat) :
    flagBehind cs (next.1, j + next.2) = flagBehind (cs.drop j) next := by
  obtain ⟨conv, k⟩ := next
  cases conv with
  | prints d =>
    have hiff : cs.length < j + k ↔ (cs.drop j).length < k := by
      rw [List.length_drop]
      omega
    simp only [flagBehind, hiff, List.drop_drop]
  | ended => rfl
  | panics => rfl

theorem flagBehind_one (f : Byte) (rest : List Byte) (d : Directive) :
    flagBehind (f :: rest) (.prints d, 1) = zeroFlagLast none rest := by
  rw [flagBehind, List.length_cons, if_neg (by omega)]
  rfl

/-- A conversion and the flag: where the cursor is behind the NUL, the flag was
the last character. -/
theorem zeroFlagLast_conversion (nlong : Nat) (props : StrProps) (cs : List Byte) :
    zeroFlagLast (some nlong) cs = flagBehind cs (conversion nlong props cs) := by
  induction hn : cs.length using Nat.strong_induction_on generalizing nlong props cs with
  | _ n ih =>
    subst hn
    cases cs with
    | nil =>
      rw [zeroFlagLast, conversion]
      rfl
    | cons f rest =>
      simp only [List.length_cons] at ih
      rw [zeroFlagLast, conversion]
      by_cases hpercent : f = 0x25#8
      · subst hpercent
        rw [if_pos rfl, flagBehind_one]
        simp [startsWidth]
      rw [if_neg hpercent]
      by_cases hchar : f = 0x63#8
      · subst hchar
        rw [if_pos rfl, flagBehind_one]
        simp [startsWidth]
      rw [if_neg hchar]
      by_cases hzero : f = 0x30#8
      · rw [if_pos hzero, if_pos hzero]
        cases rest with
        | nil => rfl
        | cons c rest =>
          rw [if_neg (by simp), flagBehind, if_neg (by simp)]
          rfl
      rw [if_neg hzero, if_neg hzero]
      by_cases hwidth : startsWidth f
      · have hpos := fmtnum_pos hwidth (rest ++ [0#8])
        have hle := fmtnum_le f rest
        have hdrop := drop_fmtnum hwidth rest
        have hcons : (f :: rest).drop (fmtnum (f :: (rest ++ [0#8]))).2 =
            rest.drop ((fmtnum (f :: (rest ++ [0#8]))).2 - 1) := by
          rw [List.drop_cons hpos]
        rw [if_pos hwidth, if_pos hwidth, ← hdrop]
        simp only [List.cons_append]
        rw [flagBehind_shift (by rw [List.length_cons]; exact hle), hcons]
        exact ih _ (by rw [List.length_drop]; omega) nlong _ _ rfl
      rw [if_neg hwidth, if_neg hwidth]
      by_cases hlong : f = 0x6c#8
      · rw [if_pos hlong, if_pos hlong]
        simp only
        rw [flagBehind_shift (by rw [List.length_cons]; omega)]
        exact ih rest.length (by omega) (nlong + 1) props rest rfl
      rw [if_neg hlong, if_neg hlong]
      by_cases hint : f = 0x64#8
      · subst hint
        by_cases hn : nlong < 2
        · rw [if_pos rfl, if_pos hn, flagBehind_one, if_neg (by omega)]
        · rw [if_pos rfl, if_neg hn, if_pos ⟨.inl rfl, by omega⟩]
          rfl
      rw [if_neg hint]
      by_cases hhex : f = 0x78#8
      · subst hhex
        by_cases hn : nlong < 2
        · rw [if_pos rfl, if_pos hn, flagBehind_one, if_neg (by omega)]
        · rw [if_pos rfl, if_neg hn, if_pos ⟨.inr rfl, by omega⟩]
          rfl
      rw [if_neg hhex, if_neg (by rintro ⟨h | h, -⟩ <;> contradiction)]
      split_ifs
      · exact (flagBehind_one ..).symm
      · exact (flagBehind_one ..).symm
      · exact (flagBehind_one ..).symm

/-- The cursor leaves a format behind a '0' flag in front of the NUL only. -/
theorem directives_runsOver_iff (cs : List Byte) :
    (directives cs).2 = .runsOver ↔ zeroFlagLast none cs = true := by
  induction hn : cs.length using Nat.strong_induction_on generalizing cs with
  | _ n ih =>
    subst hn
    cases cs with
    | nil =>
      rw [zeroFlagLast, directives]
      decide
    | cons c rest =>
      simp only [List.length_cons] at ih
      rw [zeroFlagLast, directives]
      by_cases htext : c ≠ 0x25#8
      · rw [if_pos htext, if_neg htext]
        exact ih rest.length (by omega) rest rfl
      rw [if_neg htext, if_pos (not_ne_iff.mp htext),
        zeroFlagLast_conversion 0 ⟨0x20#8, 0#32⟩ rest]
      rcases conversion 0 ⟨0x20#8, 0#32⟩ rest with ⟨conv, k⟩
      cases conv with
      | ended => simp [flagBehind]
      | panics => simp [flagBehind]
      | prints d =>
        simp only [flagBehind]
        split
        · simp
        · exact ih _ (by rw [List.length_drop]; omega) (rest.drop k) rfl

/-! ### Truncation -/

/-- A call that returns: what it returned and what it left. -/
theorem vsnprintf_done {args : PrintArgs} {fmt : CString} (hend : (directives fmt.chars).2 = .done)
    (buf size : BitVec 32) (mem : Mem) :
    vsnprintf args buf size fmt mem =
      .ok (BitVec.ofNat 32 ((outputs args 0 (directives fmt.chars).1).length + 1))
        (Printer.after buf size mem (outputs args 0 (directives fmt.chars).1)).terminate := by
  rw [vsnprintf_eq, hend]
  rfl

theorem vsnprintf_panics {args : PrintArgs} {fmt : CString}
    (hend : (directives fmt.chars).2 = .panics) (buf size : BitVec 32) (mem : Mem) :
    vsnprintf args buf size fmt mem = .error .panic
      (Printer.after buf size mem (outputs args 0 (directives fmt.chars).1)) := by
  rw [vsnprintf_eq, hend]
  rfl

theorem vsnprintf_runsOver {args : PrintArgs} {fmt : CString}
    (hend : (directives fmt.chars).2 = .runsOver) (buf size : BitVec 32) (mem : Mem) :
    vsnprintf args buf size fmt mem = .error .overrun
      (Printer.after buf size mem (outputs args 0 (directives fmt.chars).1)) := by
  rw [vsnprintf_eq, hend]
  rfl

/-- Two calls with buffers of `k` and `m` bytes return the same length, and the
smaller buffer gets the first characters of the full output. -/
theorem vsnprintf_truncates (args : PrintArgs) {fmt : CString} {buf buf' k m : BitVec 32}
    {mem mem' : Mem} (hk : 1 ≤ k.toInt) (_hkm : k.toInt ≤ m.toInt)
    (hflag : zeroFlagLast none fmt.chars = false)
    (hpanic : ∀ s, vsnprintf args buf' m fmt mem' ≠ .error .panic s)
    (hlen : (fullOutput args buf' m fmt mem').length < 2 ^ 31 - 1) :
    let out := fullOutput args buf' m fmt mem'
    ∃ r s s', vsnprintf args buf k fmt mem = .ok r s ∧ vsnprintf args buf' m fmt mem' = .ok r s' ∧
      r.toInt = out.length + 1 ∧ s.sent = out ∧
      load s.mem buf (min out.length (k.toNat - 1) + 1) = out.take (k.toNat - 1) ++ [0#8] ∧
      ∀ a, k.toNat ≤ offset buf a → s.mem a = mem a := by
  intro out
  have hout : out = outputs args 0 (directives fmt.chars).1 := fullOutput_eq ..
  have hend : (directives fmt.chars).2 = .done := by
    cases h : (directives fmt.chars).2 with
    | done => rfl
    | panics => exact absurd (vsnprintf_panics h buf' m mem') (hpanic _)
    | runsOver =>
      rw [directives_runsOver_iff fmt.chars, hflag] at h
      cases h
  obtain ⟨hstring, hframe⟩ := buffer_terminate buf hk mem out
  have hcount : (BitVec.ofNat 32 (out.length + 1)).toInt = (out.length + 1 : Nat) :=
    Signed.toInt_ofNat_of_lt (by
      change out.length < _ at hlen
      omega)
  refine ⟨_, _, _, vsnprintf_done hend buf k mem, vsnprintf_done hend buf' m mem', ?_, ?_, ?_, ?_⟩
  · rw [← hout, hcount]
    rfl
  · rw [← hout]
    exact sent_after ..
  · rw [← hout]
    exact hstring
  · rw [← hout]
    exact hframe

/-! ### Staying inside -/

/-- For any memory: the call ends or panics without a read behind the format's
NUL, and changes no byte outside of the first `size` bytes of the buffer. -/
def StaysInside (args : PrintArgs) (buf size : BitVec 32) (fmt : CString) : Prop :=
  ∀ mem : Mem, (∀ s, vsnprintf args buf size fmt mem ≠ .error .spent s) ∧
    (∀ s, vsnprintf args buf size fmt mem ≠ .error .overrun s) ∧
    ∀ a, size.toNat ≤ offset buf a →
      (StateRun.final (vsnprintf args buf size fmt mem)).mem a = mem a

/-- The directives are conversions of empty strings without a width. -/
def Silent (args : PrintArgs) : Nat → List Directive → Prop
  | _, [] => True
  | va, .str props :: ds =>
    props.npad = 0#32 ∧ (args.strings (args.words va)).chars = [] ∧ Silent args (va + 1) ds
  | _, _ :: _ => False

/-- The call panics before it has any character to write. -/
def SilentPanic (args : PrintArgs) (fmt : CString) : Prop :=
  (directives fmt.chars).2 = .panics ∧ Silent args 0 (directives fmt.chars).1

theorem padded_eq_nil_iff {cs : List Byte} {pad : Byte} {npad : Int} :
    padded cs pad npad = [] ↔ cs = [] ∧ npad = 0 := by
  have hlen := length_padded cs pad npad
  constructor
  · intro h
    rw [h, List.length_nil] at hlen
    exact ⟨List.length_eq_zero_iff.mp (by omega), by omega⟩
  · rintro ⟨rfl, rfl⟩
    exact padded_zero [] pad

theorem numeralText_ne_nil (base n : Nat) : numeralText base n ≠ [] := by
  unfold numeralText numeral
  split
  · simp
  · rename_i hn
    simpa [Nat.digits_ne_nil_iff_ne_zero] using hn

theorem signedText_ne_nil (base : Nat) (v : Int) : signedText base v ≠ [] := by
  unfold signedText
  split
  · simp
  · exact numeralText_ne_nil base _

/-- Any other value has no NUL in its text. -/
theorem takeWhile_intBuffer (around : Int → Byte) {n : BitVec 32} (hn : n ≠ LONG_MIN) :
    (intBuffer around n decimal).takeWhile (· ≠ 0#8) = signedText 10 n.toInt := by
  have htext : intBuffer around n decimal = signedText 10 n.toInt := intBuffer_eq around hn decimal
  rw [htext, List.takeWhile_eq_self_iff]
  intro c hc
  have hne : c ≠ 0#8 := fun h => nul_not_mem_signedText decimal n.toInt (h ▸ hc)
  simpa using hne

/-- Even for the most negative value something is printed: the sign. -/
theorem takeWhile_intBuffer_ne_nil (around : Int → Byte) (n : BitVec 32) :
    (intBuffer around n decimal).takeWhile (· ≠ 0#8) ≠ [] := by
  by_cases hn : n = LONG_MIN
  · subst hn
    have hsign : ∃ rest, intBuffer around LONG_MIN decimal = 0x2d#8 :: rest := by
      have hneg : LONG_MIN.toInt < 0 := by decide
      simp only [intBuffer, swapEnds_half]
      rw [if_pos hneg, if_neg (by simp), List.reverse_append]
      exact ⟨_, rfl⟩
    obtain ⟨rest, hrest⟩ := hsign
    rw [hrest, List.takeWhile_cons_of_pos (by decide)]
    simp
  · rw [takeWhile_intBuffer around hn]
    exact signedText_ne_nil _ _

theorem outputs_eq_nil_iff (args : PrintArgs) (va : Nat) (ds : List Directive) :
    outputs args va ds = [] ↔ Silent args va ds := by
  induction ds generalizing va with
  | nil => simp [outputs, Silent]
  | cons d ds ih =>
    rw [outputs, List.append_eq_nil_iff, ih]
    cases d with
    | text c => simp [Directive.output, Silent]
    | char => simp [Directive.output, Silent]
    | int props =>
      have hne := takeWhile_intBuffer_ne_nil args.around (args.words va)
      simp only [Directive.output, padded_eq_nil_iff, Silent, hne, false_and]
    | hex props =>
      simp only [Directive.output, padded_eq_nil_iff, Silent, numeralText_ne_nil, false_and]
    | pointer props =>
      simp only [Directive.output, List.append_eq_nil_iff, padded_eq_nil_iff, Silent,
        numeralText_ne_nil, false_and, and_false]
    | str props =>
      have hzero : props.npad.toInt = 0 ↔ props.npad = 0#32 :=
        ⟨fun h => BitVec.eq_of_toInt_eq (h.trans BitVec.toInt_zero.symm), fun h => by rw [h]; rfl⟩
      simp only [Directive.output, padded_eq_nil_iff, Silent, hzero, Directive.words]
      tauto

theorem staysInside_of_pos {args : PrintArgs} {buf size : BitVec 32} {fmt : CString}
    (hsize : 1 ≤ size.toInt) :
    StaysInside args buf size fmt ↔ zeroFlagLast none fmt.chars = false := by
  have hiff := directives_runsOver_iff fmt.chars
  constructor
  · intro h
    by_contra hflag
    have hover := hiff.mpr (Bool.not_eq_false _ ▸ hflag)
    exact (h fun _ => 0#8).2.1 _ (vsnprintf_runsOver hover buf size _)
  · intro hflag mem
    cases hend : (directives fmt.chars).2 with
    | done =>
      rw [vsnprintf_done hend]
      refine ⟨fun s => by simp, fun s => by simp, fun a ha => ?_⟩
      exact (buffer_terminate buf hsize mem _).2 a ha
    | panics =>
      rw [vsnprintf_panics hend]
      exact ⟨fun s => by simp, fun s => by simp, fun a ha => mem_after_outside hsize mem _ ha⟩
    | runsOver =>
      rw [hiff, hflag] at hend
      cases hend

/-- With no byte for the text, the room counter starts at -1, and the first
character is written. -/
theorem staysInside_zero {args : PrintArgs} {buf : BitVec 32} {fmt : CString} :
    StaysInside args buf 0#32 fmt ↔ SilentPanic args fmt := by
  constructor
  · intro h
    rw [SilentPanic, ← outputs_eq_nil_iff]
    cases hend : (directives fmt.chars).2 with
    | done =>
      -- the NUL is written whatever the size is
      obtain ⟨t, ht⟩ : ∃ t, Printer.after buf 0#32 (fun _ => 1#8)
          (outputs args 0 (directives fmt.chars).1) = t := ⟨_, rfl⟩
      have hframe := (h fun _ => 1#8).2.2 t.stream.buffer (Nat.zero_le _)
      rw [vsnprintf_done hend, ht] at hframe
      have hnul : t.terminate.mem t.stream.buffer = 0#8 := by
        rw [Printer.terminate, store_singleton]
        simp
      have hone : t.terminate.mem t.stream.buffer = 1#8 := hframe
      rw [hnul] at hone
      cases hone
    | runsOver => exact absurd (vsnprintf_runsOver hend buf 0#32 _) ((h fun _ => 0#8).2.1 _)
    | panics =>
      refine ⟨rfl, ?_⟩
      cases hout : outputs args 0 (directives fmt.chars).1 with
      | nil => rfl
      | cons c out =>
        have hframe := (h fun _ => c + 1#8).2.2 buf (Nat.zero_le _)
        rw [vsnprintf_panics hend, hout] at hframe
        have hfirst : (Printer.after buf 0#32 (fun _ => c + 1#8) (c :: out)).mem buf = c := by
          rw [mem_after]
          have hroom : (0#32 - 1#32).toNat = 2 ^ 32 - 2 + 1 := by decide
          rw [hroom, List.take_succ_cons, store, offset_self]
          rfl
        have hnext : c = c + 1#8 := hfirst.symm.trans hframe
        have hlt := congrArg BitVec.toNat hnext
        rw [BitVec.toNat_add] at hlt
        change c.toNat = (c.toNat + 1) % 256 at hlt
        have hc := c.isLt
        omega
  · rintro ⟨hend, hsilent⟩ mem
    have hout := (outputs_eq_nil_iff args 0 _).mpr hsilent
    rw [vsnprintf_panics hend, hout]
    exact ⟨fun s => by simp, fun s => by simp, fun a _ => rfl⟩

/-- For every size from 0 on: the formatter stays inside its buffers unless a
'0' flag ends the format, or the size is 0 and it gets to write anything. -/
theorem vsnprintf_stays_inside_iff (args : PrintArgs) (buf : BitVec 32) {size : BitVec 32}
    (fmt : CString) (hsize : 0 ≤ size.toInt) :
    StaysInside args buf size fmt ↔
      1 ≤ size.toInt ∧ zeroFlagLast none fmt.chars = false ∨
        size = 0#32 ∧ SilentPanic args fmt := by
  rcases Int.lt_or_eq_of_le hsize with hpos | hzero
  · have hne : size ≠ 0#32 := by
      rintro rfl
      exact absurd hpos (by decide)
    rw [staysInside_of_pos hpos]
    exact ⟨fun h => .inl ⟨hpos, h⟩, fun h => h.elim And.right fun h => absurd h.1 hne⟩
  · have hsize' : size = 0#32 := BitVec.eq_of_toInt_eq (hzero.symm.trans BitVec.toInt_zero.symm)
    subst hsize'
    rw [staysInside_zero]
    exact ⟨fun h => .inr ⟨rfl, h⟩, fun h => h.elim (fun h => absurd h.1 (by decide)) And.right⟩

/-! ### Two calls -/

/-- Arguments that are all zero, with empty strings. -/
def noArgs : PrintArgs where
  words := fun _ => 0#32
  strings := fun _ => ⟨[], by decide, by decide⟩
  around := fun _ => 0#8

/-- "%0" -/
def flagFormat : CString := ⟨[0x25#8, 0x30#8], by decide, by decide⟩

theorem flagFormat_zeroFlagLast : zeroFlagLast none flagFormat.chars = true := by
  simp [flagFormat, zeroFlagLast]

/-- "id %x" -/
def hexFormat : CString := ⟨[0x69#8, 0x64#8, 0x20#8, 0x25#8, 0x78#8], by decide, by decide⟩

/-- Every word of the arguments is 0xbeef. -/
def beefArgs : PrintArgs := { noArgs with words := fun _ => 0xbeef#32 }

theorem hexFormat_directives : directives hexFormat.chars =
    ([.text 0x69#8, .text 0x64#8, .text 0x20#8, .hex ⟨0x20#8, 0#32⟩], .done) := by
  have hwidth : ¬ startsWidth 0x78#8 := by decide
  simp [hexFormat, directives, conversion, hwidth]

/-- "id beef" -/
theorem hexFormat_output : outputs beefArgs 0 (directives hexFormat.chars).1 =
    [0x69#8, 0x64#8, 0x20#8, 0x62#8, 0x65#8, 0x65#8, 0x66#8] := by
  rw [hexFormat_directives]
  decide +kernel

/-- A buffer of five bytes gets "id b", and both calls return 8. -/
theorem vsnprintf_truncates_five : ∃ r s s',
    vsnprintf beefArgs 0x1000#32 5#32 hexFormat (fun _ => 0xaa#8) = .ok r s ∧
      vsnprintf beefArgs 0x2000#32 16#32 hexFormat (fun _ => 0xaa#8) = .ok r s' ∧
      r.toInt = 8 ∧ load s.mem 0x1000#32 5 = [0x69#8, 0x64#8, 0x20#8, 0x62#8, 0#8] ∧
      s.mem 0x1005#32 = 0xaa#8 := by
  have hflag : zeroFlagLast none hexFormat.chars = false := by
    simp [hexFormat, zeroFlagLast]
  have hend : (directives hexFormat.chars).2 = .done := by rw [hexFormat_directives]
  have hpanic : ∀ s, vsnprintf beefArgs 0x2000#32 16#32 hexFormat (fun _ => 0xaa#8) ≠
      .error .panic s := by
    intro s
    rw [vsnprintf_done hend]
    simp
  have hout : fullOutput beefArgs 0x2000#32 16#32 hexFormat (fun _ => 0xaa#8) =
      [0x69#8, 0x64#8, 0x20#8, 0x62#8, 0x65#8, 0x65#8, 0x66#8] := by
    rw [fullOutput_eq, hexFormat_output]
  obtain ⟨r, s, s', hrun, hrun', hr, -, hbytes, hframe⟩ := @vsnprintf_truncates beefArgs hexFormat
    0x1000#32 0x2000#32 5#32 16#32 (fun _ => 0xaa#8) (fun _ => 0xaa#8) (by decide) (by decide)
    hflag hpanic (by rw [hout]; decide)
  rw [hout] at hr hbytes
  exact ⟨r, s, s', hrun, hrun', hr, hbytes, hframe 0x1005#32 (by decide)⟩

theorem vsnprintf_stays_inside_two :
    StaysInside noArgs 0x1000#32 2#32 flagFormat ↔
      1 ≤ (2#32).toInt ∧ zeroFlagLast none flagFormat.chars = false ∨
        2#32 = 0#32 ∧ SilentPanic noArgs flagFormat :=
  vsnprintf_stays_inside_iff noArgs 0x1000#32 flagFormat (by decide)

/-- The format "%0" is read past its NUL, with any buffer. -/
theorem vsnprintf_runs_over : ¬ ∀ (args : PrintArgs) (buf size : BitVec 32) (fmt : CString),
    0 ≤ size.toInt → StaysInside args buf size fmt := by
  intro hall
  have hinside := (staysInside_of_pos (by decide)).mp
    (hall noArgs 0x1000#32 16#32 flagFormat (by decide))
  rw [flagFormat_zeroFlagLast] at hinside
  cases hinside

end Qboot
