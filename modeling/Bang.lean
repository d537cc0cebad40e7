import Bang.Memory.Filled
import Bang.Memory.TagChain
import Bang.Multiboot.Mb2Terminated
import Bang.Multiboot.Mb1Decode
import Bang.Elf.Records
import Bang.Handoff.Preserved
import Bang.Config.RoundTrip
import Bang.Config.Unusable
import Bang.Config.Independent
import Bang.Config.Bootable
import Bang.Menu.Unattended
import Bang.Menu.Merge
import Bang.Discover.Own
import Bang.Discover.Examined
import Bang.Discover.Offers
import Bang.Linux.Accesses
import Bang.Elf.Covered
import Bang.Elf.LastWriter
import Bang.Elf.Detect
import Bang.Elf.Reads
import Bang.Handoff.Names
import Bang.Handoff.ModuleScan
import Bang.Multiboot.Mb1Order
import Bang.Multiboot.Mb1Safe
import Bang.Config.Defaults
import Bang.Menu.Reference
import Bang.Menu.Redraw
import Bang.Handoff.ShortReads
import Bang.Machine.X86
import Bang.Machine.X86Rules
import Bang.Handoff.Assembly
import Bang.Handoff.FarReturn
import Bang.Handoff.ProtectedMode
import Bang.Handoff.Enters
import Bang.Handoff.ModulePages
import Bang.Handoff.Started
import Bang.Handoff.Writes
import Bang.Multiboot.RootPointer
import Bang.Multiboot.Screen
import Bang.Multiboot.Told
import Bang.Linux.Received
import Bang.Elf.Loads
import Bang.Menu.Selectable
import Bang.Uefi.DevicePath
import Bang.Discover.Chain
import Bang.Handoff.Run
import Bang.Config.Excerpts
import Bang.Handoff.Stops
import Bang.Handoff.Arrival
import Bang.Config.NormalForm
