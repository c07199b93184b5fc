import Qboot.Printf.Numbers

/-!
`vsnprintf`. The code moves a cursor through the format, forward and back, and
jumps back into a conversion after a width or a length modifier. What it does
for a format is a list of directives: they are found without looking at the
arguments, and each of them sends its own text.
-/

namespace Qboot

open Bytes ByteMemory Emission Numerals

/-! ### The function -/

/-- What a call reads besides the format: the words of the argument list, the
string behind each pointer, and the memory around the digit table. -/
structure PrintArgs where
  words : Nat → BitVec 32
  strings : BitVec 32 → CString
  around : Int → Byte

/-- The loop of `fmtnum`: how many digits follow. -/
def countDigits : List Byte → Nat
  | [] => 0
  | c :: f => if isDigit c then countDigits f + 1 else 0

/-- `fmtnum`: the number and by how much the cursor moves. -/
def fmtnum (f : List Byte) : BitVec 32 × Nat :=
  match f with
  | [] => (atol f, 0)
  | c :: rest => (atol f, if c = 0x2d#8 then countDigits rest + 1 else countDigits f)

/-- `*fmt` -/
def fetch (fmt : CString) (i : Nat) : Print Byte :=
  match fmt.bytes[i]? with
  | some c => pure c
  | none => throw .overrun

/-- `(f >= '1' && f <= '9') || f == '-'` -/
def startsWidth (f : Byte) : Prop := 0x31 ≤ f.toNat ∧ f.toNat ≤ 0x39 ∨ f = 0x2d#8

instance (f : Byte) : Decidable (startsWidth f) := inferInstanceAs (Decidable (_ ∨ _))

/-- From the label `morefmt` to the end of the loop's body, with the cursor, the
number of `l`, the properties and the position in the argument list. Returns the
cursor and the position. -/
def morefmt (args : PrintArgs) (fmt : CString) :
    Nat → Nat → Nat → StrProps → Nat → Print (Nat × Nat)
  | 0, _, _, _, _ => throw .spent
  | fuel + 1, i, nlong, props, va => do
    let f ← fetch fmt i
    let i := i + 1
    if f = 0x25#8 then do
      addchar 0x25#8
      pure (i, va)
    else if f = 0x63#8 then do
      addchar ((args.words va).setWidth 8)
      pure (i, va + 1)
    else if f = 0#8 then pure (i - 1, va)
    else
      -- the flag is taken, the cursor moves on, and `f` is still the flag
      let props := if f = 0x30#8 then { props with pad := 0x30#8 } else props
      let i := if f = 0x30#8 then i + 1 else i
      if startsWidth f then
        let i := i - 1
        let (num, len) := fmtnum (fmt.bytes.drop i)
        morefmt args fmt fuel (i + len) nlong { props with npad := num } va
      else if f = 0x6c#8 then morefmt args fmt fuel i (nlong + 1) props va
      else if f = 0x64#8 then
        if nlong < 2 then do
          printInt args.around (args.words va) decimal props
          pure (i, va + 1)
        else throw .panic
      else if f = 0x78#8 then
        if nlong < 2 then do
          printUnsigned args.around (args.words va) hexadecimal props
          pure (i, va + 1)
        else throw .panic
      else if f = 0x70#8 then do
        printStr [0x30#8, 0x78#8, 0#8] props
        printUnsigned args.around (args.words va) hexadecimal props
        pure (i, va + 1)
      else if f = 0x73#8 then do
        printStr (args.strings (args.words va)).bytes props
        pure (i, va + 1)
      else do
        addchar f
        pure (i, va)

/-- The loop `while (*fmt)`. -/
def vsnprintfLoop (args : PrintArgs) (fmt : CString) : Nat → Nat → Nat → Print Unit
  | 0, _, _ => throw .spent
  | fuel + 1, i, va => do
    let f ← fetch fmt i
    if f = 0#8 then pure ()
    else if f ≠ 0x25#8 then do
      addchar f
      vsnprintfLoop args fmt fuel (i + 1) va
    else do
      let (i, va) ← morefmt args fmt (fmt.bytes.length + 1) (i + 1) 0 ⟨0x20#8, 0#32⟩ va
      vsnprintfLoop args fmt fuel i va

/-- `*s.buffer = 0; ++s.added;` -/
def Printer.terminate (s : Printer) : Printer :=
  { s with
    mem := store s.mem s.stream.buffer [0#8]
    stream := { s.stream with added := s.stream.added + 1#32 } }

def Printer.initial (buf size : BitVec 32) (mem : Mem) : Printer where
  mem := mem
  stream := { buffer := buf, remain := size - 1#32, added := 0#32 }
  sent := []

def vsnprintf (args : PrintArgs) (buf size : BitVec 32) (fmt : CString) (mem : Mem) :
    EStateM.Result PrintStop Printer (BitVec 32) :=
  (do
    vsnprintfLoop args fmt (fmt.bytes.length + 1) 0 0
    modify Printer.terminate
    let s ← get
    pure s.stream.added : Print (BitVec 32)) (Printer.initial buf size mem)

/-! ### The directives of a format -/

/-- What the code does for a part of the format. -/
inductive Directive where
  | text (c : Byte)
  | char
  | int (props : StrProps)
  | hex (props : StrProps)
  | pointer (props : StrProps)
  | str (props : StrProps)

/-- How a conversion goes on: with a directive, at the end of the format, or not
at all. -/
inductive Conversion where
  | prints (d : Directive)
  | ended
  | panics

/-- How the code leaves a format: at its NUL, by `panic()`, or with the cursor
behind the NUL. -/
inductive FormatEnd where
  | done
  | panics
  | runsOver
deriving DecidableEq

/-- The conversion in front of the cursor, and by how much the cursor moves. -/
def conversion (nlong : Nat) (props : StrProps) : List Byte → Conversion × Nat
  | [] => (.ended, 0)
  | f :: rest =>
    if f = 0x25#8 then (.prints (.text 0x25#8), 1)
    else if f = 0x63#8 then (.prints .char, 1)
    else if f = 0x30#8 then (.prints (.text 0x30#8), 2)
    else if startsWidth f then
      let num := fmtnum (f :: rest ++ [0#8])
      let next := conversion nlong { props with npad := num.1 } (rest.drop (num.2 - 1))
      (next.1, num.2 + next.2)
    else if f = 0x6c#8 then
      let next := conversion (nlong + 1) props rest
      (next.1, 1 + next.2)
    else if f = 0x64#8 then (if nlong < 2 then .prints (.int props) else .panics, 1)
    else if f = 0x78#8 then (if nlong < 2 then .prints (.hex props) else .panics, 1)
    else if f = 0x70#8 then (.prints (.pointer props), 1)
    else if f = 0x73#8 then (.prints (.str props), 1)
    else (.prints (.text f), 1)
termination_by f => f.length
decreasing_by
  all_goals simp only [List.length_cons, List.length_drop]; omega

/-- The directives of a format and how it ends. -/
def directives : List Byte → List Directive × FormatEnd
  | [] => ([], .done)
  | c :: rest =>
    if c ≠ 0x25#8 then
      let next := directives rest
      (.text c :: next.1, next.2)
    else
      let conv := conversion 0 ⟨0x20#8, 0#32⟩ rest
      match conv.1 with
      | .ended => ([], .done)
      | .panics => ([], .panics)
      | .prints d =>
        if rest.length < conv.2 then ([d], .runsOver)
        else
          let next := directives (rest.drop conv.2)
          (d :: next.1, next.2)
termination_by f => f.length
decreasing_by
  all_goals simp only [List.length_cons, List.length_drop]; omega

/-- How many words of the argument list a directive takes. -/
def Directive.words : Directive → Nat
  | .text _ => 0
  | _ => 1

/-- The text a directive sends. -/
def Directive.output (args : PrintArgs) (va : Nat) : Directive → List Byte
  | .text c => [c]
  | .char => [(args.words va).setWidth 8]
  | .int props =>
    padded ((intBuffer args.around (args.words va) decimal).takeWhile (· ≠ 0#8)) props.pad
      props.npad.toInt
  | .hex props => padded (numeralText 16 (args.words va).toNat) props.pad props.npad.toInt
  | .pointer props =>
    padded [0x30#8, 0x78#8] props.pad props.npad.toInt ++
      padded (numeralText 16 (args.words va).toNat) props.pad props.npad.toInt
  | .str props => padded (args.strings (args.words va)).chars props.pad props.npad.toInt

/-- The text of all directives. -/
def outputs (args : PrintArgs) : Nat → List Directive → List Byte
  | _, [] => []
  | va, d :: ds => d.output args va ++ outputs args (va + d.words) ds

end Qboot
