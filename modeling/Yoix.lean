import Yoix.Acpi.Checksum
import Yoix.Acpi.FindTable
import Yoix.Apic.Base
import Yoix.Boot.Bytes
import Yoix.Boot.Framebuffer
import Yoix.Boot.Kmain
import Yoix.Buddy.Coalescing
import Yoix.Buddy.InitSafety
import Yoix.Buddy.MismatchedFrees
import Yoix.Buddy.RoundTrip
import Yoix.Buddy.UsablePages
import Yoix.Heap.FreeSmall
import Yoix.Heap.FreshSlab
import Yoix.Heap.Isolation
import Yoix.Heap.LargeSizes
import Yoix.Interrupt.Acknowledge
import Yoix.Interrupt.Routing
import Yoix.Interrupt.Timer
import Yoix.Ioapic.Madt
import Yoix.Ioapic.Redirection
import Yoix.Ioapic.TableSafety
import Yoix.Ioapic.Target
import Yoix.Ioapic.Windows
import Yoix.Pic.Lines
import Yoix.System.Ownership
import Yoix.System.Remap
import Yoix.Vmm.DeviceFrames
import Yoix.Vmm.MappedFrames
import Yoix.Vmm.Refinement
import Yoix.Vmm.Rights
import Yoix.Vmm.Tlb
