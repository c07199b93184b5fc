import Qboot.Acpi.Bounds
import Qboot.Boot.Footprint
import Qboot.Smbios.Published

/-!
The variables that the table loader, the memory map and the MP table leave alone,
whatever the device holds and wherever its commands write.
-/

namespace Qboot

open Bytes ByteMemory

/-- The program leaves `f` alone, wherever it writes. -/
abbrev Spares {α β : Type} (f : Firmware → β) (x : Fw α) : Prop := Touches f (fun _ => True) x

section Spares

variable {α β γ : Type} {f : Firmware → γ}

theorem Spares.modify {g : Firmware → Firmware} (hallocs : ∀ s, (g s).allocs = s.allocs)
    (hkept : ∀ s, f (g s) = f s) : Spares f (modify g : Fw PUnit) :=
  fun s => ⟨[], hallocs s, fun _ ha => absurd trivial ha, hkept s⟩

/-- `f` also does not see what the table loader keeps. -/
structure SettledAcpi (f : Firmware → γ) : Prop extends Settled f where
  fileAddress : ∀ (s : Firmware) (g : Fin 20 → BitVec 32), f { s with fileAddress := g } = f s
  startInfo : ∀ (s : Firmware) (info : HvmStartInfo), f { s with startInfo := info } = f s

/-- `f` also does not see what `extract_e820` sets. -/
structure SettledE820 (f : Firmware → γ) : Prop extends Settled f where
  e820 : ∀ (s : Firmware) (p : BitVec 32), f { s with e820 := p } = f s
  e820Seg : ∀ (s : Firmware) (seg : BitVec 16), f { s with e820Seg := seg } = f s
  lowmem : ∀ (s : Firmware) (n : BitVec 32), f { s with lowmem := n } = f s

theorem Spares.poke (hf : Settled f) (p : BitVec 32) (bs : List Byte) : Spares f (poke p bs) :=
  Touches.poke hf fun _ _ => trivial

theorem Spares.malloc (hf : Settled f) (zone : Zone) {n align : BitVec 32} {g : BitVec 32 → Fw α}
    (hg : ∀ p, Spares f (g p)) : Spares f (mallocIn zone n align >>= g) := by
  apply Touches.mallocIn hf zone
  intro p s
  obtain ⟨new, h⟩ := hg p s
  exact ⟨new, h.mono fun _ _ => Or.inl trivial⟩

/-! The table loader. -/

section Acpi

variable (hf : SettledAcpi f)

theorem idToAddr_spares (f : Firmware → γ) (id : Int) : Spares f (idToAddr id) := by
  refine Touches.get.bind fun s => ?_
  split
  · exact Touches.pure _
  · exact Touches.throw _

include hf

theorem setFileAddr_spares (id : Int) (p : BitVec 32) : Spares f (setFileAddr id p) := by
  intro s
  rw [setFileAddr, StateRun.bind_of_ok (StateRun.get_apply s)]
  split
  · exact ⟨[], rfl, fun _ ha => absurd trivial ha, hf.fileAddress s _⟩
  · exact ⟨[], Touched.refl _ _ s⟩

theorem saveRsdp_spares (zone : Byte) (id : Int) (p : BitVec 32) :
    Spares f (saveRsdp zone id p) := by
  apply Touches.ite _ (Touches.pure _)
  apply (Touches.peek _ _).bind
  intro bs
  apply Touches.ite _ (Touches.pure _)
  apply (idToAddr_spares f id).bind
  intro addr
  exact Spares.modify (fun _ => rfl) fun s => hf.startInfo s _

theorem doAlloc_spares (file : List Byte) (align : BitVec 32) (zone : Byte) :
    Spares f (doAlloc file align zone) := by
  apply (Touches.fileId _).bind
  intro id
  apply (Touches.fileSize _).bind
  intro n
  apply (Touches.panicIf _).bind
  intro _
  apply Spares.malloc hf.toSettled (zoneOf zone)
  intro p
  apply (setFileAddr_spares hf _ _).bind
  intro _
  apply (Touches.readFile hf.toSettled fun _ _ => trivial).bind
  intro _
  exact saveRsdp_spares hf _ _ _

theorem doPtr_spares (dest src : List Byte) (offset : BitVec 32) (size : Byte) :
    Spares f (doPtr dest src offset size) := by
  refine (Touches.fileId _).bind fun _ => (idToAddr_spares f _).bind fun _ =>
    (Touches.panicIf _).bind fun _ => (Touches.fileId _).bind fun _ =>
      (idToAddr_spares f _).bind fun _ => (Touches.panicIf _).bind fun _ => ?_
  apply Touches.ite (Touches.throw _)
  exact (Touches.peek _ _).bind fun _ => Spares.poke hf.toSettled _ _

theorem doChecksum_spares (file : List Byte) (offset start len : BitVec 32) :
    Spares f (doChecksum file offset start len) :=
  (Touches.fileId _).bind fun _ => (idToAddr_spares f _).bind fun _ =>
    (Touches.panicIf _).bind fun _ => (Touches.fileSize _).bind fun _ =>
      (Touches.panicIf _).bind fun _ => Touches.get.bind fun _ => Spares.poke hf.toSettled _ _

theorem runScript_spares (script : List LoaderCmd) : Spares f (runScript script) := by
  induction script with
  | nil => exact Touches.pure _
  | cons cmd rest ih =>
    cases cmd with
    | quit => exact Touches.pure _
    | alloc file align zone => exact (doAlloc_spares hf file align zone).bind fun _ => ih
    | ptr dest src offset size => exact (doPtr_spares hf dest src offset size).bind fun _ => ih
    | checksum file offset start len =>
      exact (doChecksum_spares hf file offset start len).bind fun _ => ih
    | unknown cmd => exact (Touches.throw _).bind fun _ => ih

theorem extractAcpi_spares : Spares f extractAcpi := by
  apply (Touches.fileId _).bind
  intro id
  apply (Touches.fileSize _).bind
  intro n
  apply Touches.ite (Touches.pure _)
  apply Touches.ite (Touches.throw _)
  have hread : Spares f (fwCfgReadFileLocal id n) := by
    apply Touches.get.bind
    intro s
    refine Touches.bind ?_ fun _ => (Touches.readFile hf.toSettled fun _ _ => trivial).bind fun _ =>
      Touches.get.bind fun t => Touches.bind ?_ fun _ => Touches.pure _
    · exact Spares.modify (fun _ => rfl) fun u => hf.mem u _
    · exact Spares.modify (fun _ => rfl) fun u => hf.mem u _
  exact hread.bind fun _ => runScript_spares hf _

end Acpi

/-! The memory map. -/

theorem storeEntries_spares (hf : Settled f) (e820 : BitVec 32) (i : Nat) (es : List E820Entry) :
    Spares f (storeEntries e820 i es) := by
  induction es generalizing i with
  | nil => exact Touches.pure _
  | cons e es ih => exact (Spares.poke hf _ _).bind fun _ => ih (i + 1)

theorem rebaseLoop_spares (hf : SettledE820 f) (e820 : BitVec 32) (i n : Nat) :
    Spares f (rebaseLoop e820 i n) := by
  induction n generalizing i with
  | zero => exact Touches.pure _
  | succ n ih =>
    apply (Touches.peek _ _).bind
    intro addr
    refine Touches.ite ((Touches.peek _ _).bind fun size => Touches.bind ?_ fun _ => ?_)
      (ih (i + 1))
    · exact Spares.modify (fun _ => rfl) fun s => hf.lowmem s _
    · exact (Spares.poke hf.toSettled _ _).bind fun _ => Spares.poke hf.toSettled _ _

theorem extractE820_spares (hf : SettledE820 f) : Spares f extractE820 := by
  apply (Touches.fileId _).bind
  intro id
  apply (Touches.panicIf _).bind
  intro _
  apply (Touches.fileSize _).bind
  intro size
  apply Spares.malloc hf.toSettled .low
  intro e820
  refine Touches.bind ?_ fun _ => (Spares.poke hf.toSettled _ _).bind fun _ =>
    (storeEntries_spares hf.toSettled _ _ _).bind fun _ => Touches.get.bind fun s =>
      (storeEntries_spares hf.toSettled _ _ _).bind fun _ =>
        (Touches.readFile hf.toSettled fun _ _ => trivial).bind fun _ =>
          (Touches.peek _ _).bind fun count => (rebaseLoop_spares hf _ _ _).bind fun _ => ?_
  · exact Spares.modify (fun _ => rfl) fun s => hf.e820 s _
  · exact Spares.modify (fun _ => rfl) fun s => hf.e820Seg s _

/-! The MP table. -/

section Mptable

variable (hf : Settled f)

include hf

theorem storeMem_spares (g : Firmware → Mem) :
    Spares f (modify fun s => { s with mem := g s } : Fw PUnit) :=
  Spares.modify (fun _ => rfl) fun s => hf.mem s _

theorem putEntry_spares (offset size : Nat) (fields : List (Nat × List Byte))
    (checksum : BitVec 32) : Spares f (putEntry offset size fields checksum) :=
  (storeMem_spares hf _).bind fun _ => Touches.get.bind fun _ => Touches.pure _

theorem cpuLoop_spares (stepping features : BitVec 32) (n i offset : Nat)
    (checksum : BitVec 32) : Spares f (cpuLoop stepping features n i offset checksum) := by
  induction n generalizing i offset checksum with
  | zero => exact Touches.pure _
  | succ n ih => exact (putEntry_spares hf _ _ _ _).bind fun _ => ih _ _ _

theorem intsrcLoop_spares (irq0Override : Bool) (numCpus : BitVec 32) (l : List Nat)
    (offset : Nat) (checksum : BitVec 32) :
    Spares f (intsrcLoop irq0Override numCpus l offset checksum) := by
  induction l generalizing offset checksum with
  | nil => exact Touches.pure _
  | cons i l ih =>
    refine Touches.ite ?_ ?_
    · exact (storeMem_spares hf _).bind fun _ => ih _ _
    · exact (putEntry_spares hf _ _ _ _).bind fun _ => ih _ _

theorem setupMptable_spares (stepping features : BitVec 32) :
    Spares f (setupMptable stepping features) := by
  have hstart : Spares f startMptable :=
    (storeMem_spares hf _).bind fun _ => Touches.get.bind fun _ =>
      (Spares.poke hf _ _).bind fun _ => storeMem_spares hf _
  have hfinish (offset : Nat) (checksum : BitVec 32) : Spares f (finishMptable offset checksum) :=
    (putEntry_spares hf _ _ _ _).bind fun _ => (storeMem_spares hf _).bind fun _ =>
      Touches.get.bind fun _ => (Spares.poke hf _ _).bind fun _ => Touches.get.bind fun _ =>
        Spares.poke hf _ _
  have hdevice (numCpus : BitVec 32) (offset : Nat) (checksum : BitVec 32) :
      Spares f (deviceEntries numCpus offset checksum) :=
    (putEntry_spares hf _ _ _ _).bind fun _ => (putEntry_spares hf _ _ _ _).bind fun _ =>
      (Touches.select hf _).bind fun _ => (Touches.readlLe hf).bind fun _ =>
        (intsrcLoop_spares hf _ _ _ _ _).bind fun _ => hfinish _ _
  exact hstart.bind fun _ => (Touches.select hf _).bind fun _ => (Touches.readlLe hf).bind fun _ =>
    (cpuLoop_spares hf _ _ _ _ _ _).bind fun _ => hdevice _ _ _

end Mptable

end Spares

end Qboot
