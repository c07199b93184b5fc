import Qboot.Printf.Format

/-!
`vsnprintf` does what the directives of its format say: it sends their texts,
and ends as the format does. None of this depends on the buffer.
-/

namespace Qboot

open Bytes ByteMemory Emission Numerals

/-! ### One directive -/

theorem length_intIndexes_le (base : Base) (n : BitVec 32) {k : Nat}
    (hn : n.toInt.natAbs < base.val.toNat ^ k) : (intIndexes base n).length ≤ k := by
  induction n using intIndexes.induct base generalizing k with
  | case1 => simp [intIndexes]
  | case2 n hne ih =>
    have hint : n.toInt ≠ 0 := fun hzero => hne (BitVec.eq_of_toInt_eq (by rw [hzero]; rfl))
    cases k with
    | zero =>
      rw [pow_zero] at hn
      omega
    | succ k =>
      have hdiv : (n.sdiv base.val).toInt.natAbs < base.val.toNat ^ k := by
        rw [toInt_sdiv_base, Int.natAbs_tdiv, Int.natAbs_natCast]
        exact Nat.div_lt_of_lt_mul (by rwa [pow_succ'] at hn)
      have hrest := ih hdiv
      rw [intIndexes, dif_neg hne, List.length_cons]
      omega

theorem length_intBuffer_le (around : Int → Byte) (n : BitVec 32) (base : Base) :
    (intBuffer around n base).length ≤ 33 := by
  have hmagnitude : (intIndexes base (magnitude n)).length ≤ 32 := by
    have hlt := @BitVec.two_mul_toInt_lt 32 (magnitude n)
    have hle := @BitVec.le_two_mul_toInt 32 (magnitude n)
    have hpow : 2 ^ 32 ≤ base.val.toNat ^ 32 := Nat.pow_le_pow_left base.two_le 32
    exact length_intIndexes_le base _ (by omega)
  simp only [intBuffer, swapEnds_half, List.length_reverse]
  by_cases hneg : n.toInt < 0
  · rw [if_pos hneg, if_neg (by simp), List.length_append, List.length_map]
    exact Nat.add_le_add_right hmagnitude 1
  · rw [if_neg hneg]
    split
    · rename_i hnil
      rw [hnil]
      decide
    · rw [List.length_map]
      omega

theorem takeWhile_append_nul (cs : List Byte) :
    ∃ rest, cs ++ [0#8] = cs.takeWhile (· ≠ 0#8) ++ 0#8 :: rest := by
  induction cs with
  | nil => exact ⟨[], rfl⟩
  | cons c cs ih =>
    obtain ⟨rest, hrest⟩ := ih
    by_cases hc : c = 0#8
    · exact ⟨cs ++ [0#8], by simp [hc]⟩
    · refine ⟨rest, ?_⟩
      rw [List.takeWhile_cons_of_pos (by simpa using hc), List.cons_append, List.cons_append, hrest]

theorem nul_not_mem_takeWhile (cs : List Byte) : 0#8 ∉ cs.takeWhile (· ≠ 0#8) := by
  intro h
  simpa using List.mem_takeWhile_imp h

/-- `print_int` for any value: the characters up to the first NUL. -/
theorem printInt_sends_any (around : Int → Byte) (n : BitVec 32) (props : StrProps) :
    Sends Printer.add (printInt around n decimal props)
      (padded ((intBuffer around n decimal).takeWhile (· ≠ 0#8)) props.pad
        props.npad.toInt) () := by
  have hlen := length_intBuffer_le around n decimal
  have hprefix : ((intBuffer around n decimal).takeWhile (· ≠ 0#8)).length ≤
      (intBuffer around n decimal).length := (List.takeWhile_sublist _).length_le
  obtain ⟨rest, hrest⟩ := takeWhile_append_nul (intBuffer around n decimal)
  rw [printInt, hrest]
  exact printStr_sends_padded (nul_not_mem_takeWhile _) (by omega) rest props

theorem printStr_sends_bytes (s : CString) (props : StrProps) :
    Sends Printer.add (printStr s.bytes props) (padded s.chars props.pad props.npad.toInt) () :=
  printStr_sends_padded s.noNul (by have h := s.fits; omega) [] props

/-! ### The cursor -/

theorem bytes_drop (fmt : CString) {i : Nat} (hi : i ≤ fmt.chars.length) :
    fmt.bytes.drop i = fmt.chars.drop i ++ [0#8] := List.drop_append_of_le_length hi

theorem eq_length_of_drop_nil {fmt : CString} {i : Nat} (hi : i ≤ fmt.chars.length)
    (h : fmt.chars.drop i = []) : i = fmt.chars.length :=
  le_antisymm hi (List.drop_eq_nil_iff.mp h)

theorem fetch_cons {fmt : CString} {i : Nat} {f : Byte} {rest : List Byte}
    (h : fmt.chars.drop i = f :: rest) : Sends Printer.add (fetch fmt i) [] f ∧ f ≠ 0#8 ∧
      fmt.chars.drop (i + 1) = rest ∧ i < fmt.chars.length := by
  have hlt : i < fmt.chars.length := by
    by_contra hle
    rw [List.drop_eq_nil_of_le (not_lt.mp hle)] at h
    cases h
  have hget : fmt.chars[i] = f := by
    have hdrop := List.drop_eq_getElem_cons hlt
    rw [h] at hdrop
    exact (List.cons.inj hdrop).1.symm
  have hbytes : fmt.bytes[i]? = some f := by
    rw [CString.bytes, List.getElem?_append_left hlt, List.getElem?_eq_getElem hlt, hget]
  refine ⟨?_, ?_, ?_, hlt⟩
  · rw [fetch, hbytes]
    exact Sends.pure f
  · rintro rfl
    exact fmt.noNul (hget ▸ List.getElem_mem hlt)
  · rw [List.drop_add_one_eq_tail_drop, h, List.tail_cons]

theorem fetch_nil {fmt : CString} : Sends Printer.add (fetch fmt fmt.chars.length) [] 0#8 := by
  have hbytes : fmt.bytes[fmt.chars.length]? = some 0#8 := by
    simp [CString.bytes]
  rw [fetch, hbytes]
  exact Sends.pure 0#8

theorem fetch_behind {fmt : CString} {i : Nat} (hi : fmt.chars.length < i) :
    Stops Printer.add (fetch fmt i) [] .overrun := by
  have hbytes : fmt.bytes[i]? = none := by
    rw [List.getElem?_eq_none]
    simpa [CString.bytes] using hi
  rw [fetch, hbytes]
  exact Stops.throw _

/-! ### One conversion -/

/-- The code does what a conversion says, and moves the cursor as far. -/
def Refines (args : PrintArgs) (va i : Nat) (x : Print (Nat × Nat)) :
    Conversion × Nat → Prop
  | (.prints d, k) => Sends Printer.add x (d.output args va) (i + k, va + d.words)
  | (.ended, k) => Sends Printer.add x [] (i + k, va)
  | (.panics, _) => Stops Printer.add x [] .panic

theorem Refines.shift {args : PrintArgs} {va i j : Nat} {x : Print (Nat × Nat)}
    {next : Conversion × Nat} (h : Refines args va (i + j) x next) :
    Refines args va i x (next.1, j + next.2) := by
  obtain ⟨conv, k⟩ := next
  cases conv with
  | prints d =>
    change Sends _ _ _ (i + (j + k), _)
    rw [← Nat.add_assoc]
    exact h
  | ended =>
    change Sends _ _ _ (i + (j + k), _)
    rw [← Nat.add_assoc]
    exact h
  | panics => exact h

theorem Refines.of_fetch {args : PrintArgs} {va i : Nat} {fmt : CString} {f : Byte}
    {x : Byte → Print (Nat × Nat)} {next : Conversion × Nat}
    (hfetch : Sends Printer.add (fetch fmt i) [] f) (h : Refines args va i (x f) next) :
    Refines args va i (fetch fmt i >>= x) next := by
  obtain ⟨conv, k⟩ := next
  cases conv with
  | prints d => exact hfetch.bind h
  | ended => exact hfetch.bind h
  | panics => exact Stops.bind_right hfetch h

/-- A directive is sent and the cursor moves on. -/
theorem Refines.of_sends {args : PrintArgs} {va i k n : Nat} {d : Directive} {x : Print Unit}
    (h : Sends Printer.add x (d.output args va) ()) (hn : n = va + d.words) :
    Refines args va i (x >>= fun _ => pure (i + k, n)) (.prints d, k) := by
  subst hn
  have hall := Sends.bind (f := fun _ => pure (i + k, va + d.words)) h (Sends.pure _)
  rwa [List.append_nil] at hall

/-- A width has at least the character it starts with. -/
theorem fmtnum_pos {f : Byte} (hf : startsWidth f) (rest : List Byte) :
    0 < (fmtnum (f :: rest)).2 := by
  have hdigit : f ≠ 0x2d#8 → isDigit f := fun hne => by
    rcases hf with ⟨hlo, hhi⟩ | hminus
    · exact ⟨by omega, hhi⟩
    · exact absurd hminus hne
  unfold fmtnum
  split
  · rename_i hnil
    cases hnil
  · rename_i c rest' heq
    obtain ⟨rfl, rfl⟩ := List.cons.inj heq
    by_cases hminus : f = 0x2d#8
    · simp [hminus]
    · simp [hminus, countDigits, hdigit hminus]

theorem countDigits_append_nul (cs : List Byte) : countDigits (cs ++ [0#8]) ≤ cs.length := by
  induction cs with
  | nil => decide
  | cons c cs ih =>
    rw [List.cons_append, countDigits, List.length_cons]
    split <;> omega

/-- A width ends in front of the NUL. -/
theorem fmtnum_le (f : Byte) (rest : List Byte) :
    (fmtnum (f :: (rest ++ [0#8]))).2 ≤ rest.length + 1 := by
  have hrest := countDigits_append_nul rest
  have hall := countDigits_append_nul (f :: rest)
  rw [List.cons_append, List.length_cons] at hall
  unfold fmtnum
  simp only
  split <;> omega

/-- A width moves the cursor on, inside of the format. -/
theorem fmtnum_cursor {fmt : CString} {i : Nat} {f : Byte} {rest : List Byte}
    (hsuffix : fmt.chars.drop i = f :: rest) (hwidth : startsWidth f) {num : BitVec 32} {len : Nat}
    (hnum : fmtnum (f :: (rest ++ [0#8])) = (num, len)) :
    0 < len ∧ i + len ≤ fmt.chars.length ∧
      fmt.chars.drop (i + len) = rest.drop (len - 1) := by
  have hpos := fmtnum_pos hwidth (rest ++ [0#8])
  have hle := fmtnum_le f rest
  rw [hnum] at hpos hle
  have hlen : rest.length + 1 = fmt.chars.length - i := by
    rw [← List.length_drop, hsuffix, List.length_cons]
  refine ⟨hpos, by omega, ?_⟩
  rw [← List.drop_drop, hsuffix, List.drop_cons hpos]

theorem not_startsWidth_zero : ¬ startsWidth 0x30#8 := by decide

/-- The loop over flags, widths and length modifiers follows `conversion`. -/
theorem morefmt_refines (args : PrintArgs) (fmt : CString) (va : Nat) :
    ∀ (fuel i nlong : Nat) (props : StrProps), i ≤ fmt.chars.length →
      (fmt.chars.drop i).length < fuel →
      Refines args va i (morefmt args fmt fuel i nlong props va)
        (conversion nlong props (fmt.chars.drop i)) := by
  intro fuel
  induction fuel with
  | zero =>
    intro i nlong props _ hfuel
    exact absurd hfuel (Nat.not_lt_zero _)
  | succ fuel ih =>
    intro i nlong props hi hfuel
    cases hsuffix : fmt.chars.drop i with
    | nil =>
      obtain rfl := eq_length_of_drop_nil hi hsuffix
      rw [morefmt, conversion]
      refine Refines.of_fetch fetch_nil ?_
      exact Sends.pure _
    | cons f rest =>
      obtain ⟨hfetch, hne, hrest, hlt⟩ := fetch_cons hsuffix
      rw [hsuffix, List.length_cons] at hfuel
      rw [morefmt, conversion]
      refine Refines.of_fetch hfetch ?_
      by_cases hpercent : f = 0x25#8
      · rw [if_pos hpercent, if_pos hpercent]
        exact Refines.of_sends (addchar_sends 0x25#8) rfl
      rw [if_neg hpercent, if_neg hpercent]
      by_cases hchar : f = 0x63#8
      · rw [if_pos hchar, if_pos hchar]
        exact Refines.of_sends (addchar_sends _) rfl
      rw [if_neg hchar, if_neg hchar, if_neg hne]
      by_cases hzero : f = 0x30#8
      · -- no later test matches the flag, so it is sent as a character
        subst hzero
        simp only [if_pos, if_neg not_startsWidth_zero]
        exact Refines.of_sends (addchar_sends 0x30#8) rfl
      simp only [if_neg hzero]
      by_cases hwidth : startsWidth f
      · have hbytes : fmt.bytes.drop i = f :: (rest ++ [0#8]) := by
          rw [bytes_drop fmt hi, hsuffix, List.cons_append]
        rcases hnum : fmtnum (f :: (rest ++ [0#8])) with ⟨num, len⟩
        obtain ⟨hpos, hend, hdrop⟩ := fmtnum_cursor hsuffix hwidth hnum
        have hnext := ih (i + len) nlong { props with npad := num } hend (by
          rw [hdrop, List.length_drop]
          omega)
        rw [hdrop] at hnext
        simp only [if_pos hwidth, Nat.add_sub_cancel, hbytes, List.cons_append, hnum]
        exact hnext.shift
      simp only [if_neg hwidth]
      by_cases hlong : f = 0x6c#8
      · rw [if_pos hlong, if_pos hlong]
        have hnext := ih (i + 1) (nlong + 1) props hlt (by rw [hrest]; omega)
        rw [hrest] at hnext
        exact hnext.shift
      rw [if_neg hlong, if_neg hlong]
      by_cases hint : f = 0x64#8
      · rw [if_pos hint, if_pos hint]
        split
        · exact Refines.of_sends (printInt_sends_any _ _ props) rfl
        · exact Stops.throw _
      rw [if_neg hint, if_neg hint]
      by_cases hhex : f = 0x78#8
      · rw [if_pos hhex, if_pos hhex]
        split
        · exact Refines.of_sends (printUnsigned_sends _ _ hexadecimal props) rfl
        · exact Stops.throw _
      rw [if_neg hhex, if_neg hhex]
      by_cases hpointer : f = 0x70#8
      · rw [if_pos hpointer, if_pos hpointer, ← bind_assoc]
        have hprefix : 0#8 ∉ [0x30#8, 0x78#8] := by decide
        have hsends := Sends.bind
          (f := fun _ => printUnsigned args.around (args.words va) hexadecimal props)
          (printStr_sends_padded hprefix (by decide) [] props)
          (printUnsigned_sends args.around (args.words va) hexadecimal props)
        exact Refines.of_sends hsends rfl
      rw [if_neg hpointer, if_neg hpointer]
      by_cases hstr : f = 0x73#8
      · rw [if_pos hstr, if_pos hstr]
        exact Refines.of_sends (printStr_sends_bytes _ props) rfl
      rw [if_neg hstr, if_neg hstr]
      exact Refines.of_sends (addchar_sends f) rfl

/-- A conversion that the format's NUL ends leaves the cursor there. -/
theorem conversion_ended (nlong : Nat) (props : StrProps) (cs : List Byte)
    (h : (conversion nlong props cs).1 = .ended) :
    (conversion nlong props cs).2 = cs.length := by
  induction hn : cs.length using Nat.strong_induction_on generalizing nlong props cs with
  | _ n ih =>
    subst hn
    cases cs with
    | nil =>
      rw [conversion]
      rfl
    | cons f rest =>
      simp only [List.length_cons] at ih ⊢
      rw [conversion] at h ⊢
      split_ifs at h ⊢ with _ _ _ hwidth
      · have hpos := fmtnum_pos hwidth (rest ++ [0#8])
        have hle := fmtnum_le f rest
        have hnext := ih _ (by rw [List.length_drop]; omega) _ _ _ h rfl
        rw [List.length_drop] at hnext
        simp only [List.cons_append] at hnext ⊢
        omega
      · have hnext := ih rest.length (by omega) _ _ _ h rfl
        simp only at hnext ⊢
        omega

/-! ### The whole format -/

/-- A run that sends `out` and ends as a format does. -/
def Ends (x : Print Unit) (out : List Byte) : FormatEnd → Prop
  | .done => Sends Printer.add x out ()
  | .panics => Stops Printer.add x out .panic
  | .runsOver => Stops Printer.add x out .overrun

theorem Ends.after {α : Type} {x : Print α} {f : α → Print Unit} {items more : List Byte} {a : α}
    {e : FormatEnd} (hx : Sends Printer.add x items a) (hf : Ends (f a) more e) :
    Ends (x >>= f) (items ++ more) e := by
  cases e with
  | done => exact hx.bind hf
  | panics => exact Stops.bind_right hx hf
  | runsOver => exact Stops.bind_right hx hf

theorem Ends.after_silent {α : Type} {x : Print α} {f : α → Print Unit} {out : List Byte} {a : α}
    {e : FormatEnd} (hx : Sends Printer.add x [] a) (hf : Ends (f a) out e) :
    Ends (x >>= f) out e :=
  Ends.after hx hf

/-- At the NUL the loop ends. -/
theorem vsnprintfLoop_nul (args : PrintArgs) (fmt : CString) (fuel va : Nat) :
    Ends (vsnprintfLoop args fmt (fuel + 1) fmt.chars.length va) [] .done := by
  rw [vsnprintfLoop]
  exact Ends.after_silent fetch_nil (Sends.pure ())

/-- Behind the NUL it reads on. -/
theorem vsnprintfLoop_behind (args : PrintArgs) {fmt : CString} (fuel va : Nat) {i : Nat}
    (hi : fmt.chars.length < i) : Ends (vsnprintfLoop args fmt (fuel + 1) i va) [] .runsOver := by
  rw [vsnprintfLoop]
  exact Stops.bind_left (fetch_behind hi)

theorem vsnprintfLoop_refines (args : PrintArgs) (fmt : CString) :
    ∀ fuel i va : Nat, i ≤ fmt.chars.length → (fmt.chars.drop i).length < fuel →
      Ends (vsnprintfLoop args fmt fuel i va)
        (outputs args va (directives (fmt.chars.drop i)).1) (directives (fmt.chars.drop i)).2 := by
  intro fuel
  induction fuel with
  | zero =>
    intro i va _ hfuel
    exact absurd hfuel (Nat.not_lt_zero _)
  | succ fuel ih =>
    intro i va hi hfuel
    cases hsuffix : fmt.chars.drop i with
    | nil =>
      obtain rfl := eq_length_of_drop_nil hi hsuffix
      rw [directives]
      exact vsnprintfLoop_nul args fmt fuel va
    | cons c rest =>
      obtain ⟨hfetch, hne, hrest, hlt⟩ := fetch_cons hsuffix
      rw [hsuffix, List.length_cons] at hfuel
      rw [vsnprintfLoop, directives]
      refine Ends.after_silent hfetch ?_
      rw [if_neg hne]
      by_cases htext : c ≠ 0x25#8
      · have hnext := ih (i + 1) va hlt (by rw [hrest]; omega)
        rw [hrest] at hnext
        rw [if_pos htext, if_pos htext]
        exact Ends.after (addchar_sends c) hnext
      rw [if_neg htext, if_neg htext]
      have hconv := morefmt_refines args fmt va (fmt.bytes.length + 1) (i + 1) 0 ⟨0x20#8, 0#32⟩ hlt
        (by
          rw [List.length_drop, CString.bytes, List.length_append]
          omega)
      rw [hrest] at hconv
      rcases hnext : conversion 0 ⟨0x20#8, 0#32⟩ rest with ⟨conv, k⟩
      rw [hnext] at hconv
      have hlen : rest.length + 1 = fmt.chars.length - i := by
        rw [← List.length_drop, hsuffix, List.length_cons]
      cases conv with
      | ended =>
        have hk : k = rest.length := by
          have hended := conversion_ended 0 ⟨0x20#8, 0#32⟩ rest
          rw [hnext] at hended
          exact hended rfl
        have hend : i + 1 + k = fmt.chars.length := by omega
        obtain ⟨fuel, rfl⟩ : ∃ m, fuel = m + 1 := ⟨fuel - 1, by omega⟩
        have hstop := vsnprintfLoop_nul args fmt fuel va
        rw [← hend] at hstop
        exact Ends.after_silent hconv hstop
      | panics => exact Stops.bind_left hconv
      | prints d =>
        simp only
        split
        · obtain ⟨fuel, rfl⟩ : ∃ m, fuel = m + 1 := ⟨fuel - 1, by omega⟩
          have hstop := vsnprintfLoop_behind args fuel (va + d.words)
            (by omega : fmt.chars.length < i + 1 + k)
          exact Ends.after hconv hstop
        · have hdrop : fmt.chars.drop (i + 1 + k) = rest.drop k := by
            rw [← List.drop_drop, hrest]
          have hloop := ih (i + 1 + k) (va + d.words) (by omega) (by
            rw [hdrop, List.length_drop]
            omega)
          rw [hdrop] at hloop
          exact Ends.after hconv hloop

/-! ### The call -/

/-- The stream and the memory after a text. -/
def Printer.after (buf size : BitVec 32) (mem : Mem) (out : List Byte) : Printer :=
  sendAll Printer.add (Printer.initial buf size mem) out

/-- What a call returns, or how it stops, by the end of its format. -/
def callResult (buf size : BitVec 32) (mem : Mem) (out : List Byte) :
    FormatEnd → EStateM.Result PrintStop Printer (BitVec 32)
  | .done => .ok (BitVec.ofNat 32 (out.length + 1)) (Printer.after buf size mem out).terminate
  | .panics => .error .panic (Printer.after buf size mem out)
  | .runsOver => .error .overrun (Printer.after buf size mem out)

/-- A call of `vsnprintf` sends the texts of its format's directives and ends as
the format does. -/
theorem vsnprintf_eq (args : PrintArgs) (buf size : BitVec 32) (fmt : CString) (mem : Mem) :
    vsnprintf args buf size fmt mem =
      callResult buf size mem (outputs args 0 (directives fmt.chars).1)
        (directives fmt.chars).2 := by
  have hloop := vsnprintfLoop_refines args fmt (fmt.bytes.length + 1) 0 0 (Nat.zero_le _) (by
    rw [CString.bytes, List.length_append, List.drop_zero]
    omega)
  rw [List.drop_zero] at hloop
  rw [vsnprintf]
  cases hend : (directives fmt.chars).2 with
  | done =>
    rw [hend] at hloop
    have hadded : (Printer.after buf size mem
        (outputs args 0 (directives fmt.chars).1)).terminate.stream.added =
        BitVec.ofNat 32 ((outputs args 0 (directives fmt.chars).1).length + 1) := by
      rw [Printer.terminate, Printer.after, Printer.sendAll_eq, BitVec.ofNat_add]
      simp [Printer.initial]
    refine (StateRun.bind_of_ok (hloop _)).trans ?_
    rw [callResult, ← hadded]
    rfl
  | panics =>
    rw [hend] at hloop
    exact StateRun.bind_of_error (hloop _)
  | runsOver =>
    rw [hend] at hloop
    exact StateRun.bind_of_error (hloop _)

end Qboot
