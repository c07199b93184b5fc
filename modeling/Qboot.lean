import Qboot.Acpi.Bounds
import Qboot.Acpi.Checksums
import Qboot.Acpi.Loader
import Qboot.Acpi.Permutation
import Qboot.Acpi.Plan
import Qboot.Acpi.Reference
import Qboot.Acpi.Refinement
import Qboot.Acpi.Reread
import Qboot.Acpi.Safety
import Qboot.Bios.Bios32
import Qboot.Bios.Entry
import Qboot.Bios.Handlers
import Qboot.Bios.Interrupts
import Qboot.Bios.MapCalls
import Qboot.Bios.PciCalls
import Qboot.Bios.Returns
import Qboot.Bios.Services
import Qboot.Bios.Stack
import Qboot.Boot.Blocks
import Qboot.Boot.Footprint
import Qboot.Boot.Kernel
import Qboot.Boot.Layout
import Qboot.Boot.Plan
import Qboot.Boot.Room
import Qboot.Boot.Setup
import Qboot.Boot.Snapshot
import Qboot.Boot.Stages
import Qboot.Boot.Writes
import Qboot.E820
import Qboot.FwCfg.Calls
import Qboot.FwCfg.Directory
import Qboot.FwCfg.Files
import Qboot.FwCfg.Names
import Qboot.FwCfg.Reread
import Qboot.FwCfg.Transport
import Qboot.Handover
import Qboot.Hardware.HostBridge
import Qboot.Hardware.Irqs
import Qboot.Hardware.Pic
import Qboot.Hardware.Shadow
import Qboot.Hardware.Vectors
import Qboot.Heap
import Qboot.Int15
import Qboot.Lib.ByteCopy
import Qboot.Lib.ByteMemory
import Qboot.Lib.Bytes
import Qboot.Lib.Emission
import Qboot.Lib.Numerals
import Qboot.Lib.Occurrence
import Qboot.Lib.Rounding
import Qboot.Lib.Signed
import Qboot.Lib.StateRun
import Qboot.Lib.Words
import Qboot.Linuxboot.Assembled
import Qboot.Linuxboot.Boot
import Qboot.Linuxboot.Bzimage
import Qboot.Linuxboot.ElfBoots
import Qboot.Linuxboot.Outcomes
import Qboot.Linuxboot.Patching
import Qboot.Linuxboot.Placement
import Qboot.Machine
import Qboot.Main
import Qboot.Malloc
import Qboot.MemoryMap
import Qboot.Mptable.ApicIds
import Qboot.Mptable.Entries
import Qboot.Mptable.EntryCount
import Qboot.Mptable.Published
import Qboot.Mptable.Setup
import Qboot.Pci.Bios
import Qboot.Pci.BusNumbers
import Qboot.Pci.Cycles
import Qboot.Pci.Enumeration
import Qboot.Pci.Function
import Qboot.Pci.Interrupts
import Qboot.Pci.Numbering
import Qboot.Pci.Recursion
import Qboot.Pci.Run
import Qboot.Pci.Scan
import Qboot.Pci.Setup
import Qboot.Pci.Topology
import Qboot.Pci.Visits
import Qboot.Pci.Wraparound
import Qboot.Printf.Conversions
import Qboot.Printf.Format
import Qboot.Printf.Numbers
import Qboot.Printf.PrintStr
import Qboot.Printf.Refinement
import Qboot.Printf.Stream
import Qboot.Printf.Truncation
import Qboot.Reserved
import Qboot.Smbios.EntryPoint
import Qboot.Smbios.Extract
import Qboot.Smbios.Published
import Qboot.Smbios.Structures
import Qboot.Smbios.Type0
import Qboot.Smbios.Walk
import Qboot.Smbios.WalkSafety
import Qboot.StringOps
import Qboot.Strings.Memmove
import Qboot.Strings.Strstr
