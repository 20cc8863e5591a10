import KeropOS.Lib.Transition
import KeropOS.Lib.Linked
import KeropOS.Lib.Trail
import KeropOS.Fat.Layout
import KeropOS.Fat.Disk
import KeropOS.Fat.Driver
import KeropOS.Fat.Cells
import KeropOS.Fat.Spec
import KeropOS.Fat.Tree
import KeropOS.Fat.Run
import KeropOS.Fat.Calls
import KeropOS.Fat.Partition
import KeropOS.Fat.FileMap
import KeropOS.Fat.Reading
import KeropOS.Fat.NewFolder
import KeropOS.Fat.Residue
import KeropOS.Fat.Lookup
import KeropOS.Fat.Allocation
import KeropOS.Fat.Walk
import KeropOS.Proc.Context
import KeropOS.Proc.Paging
import KeropOS.Proc.Process
import KeropOS.Proc.Spec
import KeropOS.Proc.Invariant
import KeropOS.Proc.Isolation
import KeropOS.Proc.Conservation
import KeropOS.Proc.Table
import KeropOS.Proc.Admission
import KeropOS.Proc.GivesBack
import KeropOS.Proc.Release
import KeropOS.Proc.Resume
import KeropOS.Proc.Rotation
import KeropOS.Proc.ActiveDirectory
import KeropOS.Proc.Accounting
import KeropOS.Proc.Inheritance
import KeropOS.Proc.Exit
import KeropOS.Proc.Kill
import KeropOS.Shell.Emvi
import KeropOS.Shell.Tables
import KeropOS.Shell.Conserve
import KeropOS.Shell.Cede
import KeropOS.Shell.Stack
import KeropOS.Shell.Commands
import KeropOS.Shell.Keys
import KeropOS.Shell.Line
import KeropOS.Shell.Files
import KeropOS.Shell.Cat
import KeropOS.Fat.Below
import KeropOS.Shell.Copy
import KeropOS.Shell.Resolve
import KeropOS.Shell.Complete
import KeropOS.Shell.Strcmp
import KeropOS.Shell.Queue
import KeropOS.Shell.Strtok
import KeropOS.Shell.Editor
import KeropOS.Shell.Dispatch
import KeropOS.Device.Framebuffer
import KeropOS.Device.Screen
import KeropOS.Device.Backspace
import KeropOS.Device.Keyboard
import KeropOS.Stdlib.Memory
import KeropOS.Fat.Ata
import KeropOS.Fat.Inserter
import KeropOS.Fat.PowerCycle
import KeropOS.Cpu.Interrupt
import KeropOS.Device.Clock
import KeropOS.Shell.Nano
import KeropOS.Shell.Session
import KeropOS.System.Listing
import KeropOS.Shell.Eles
import KeropOS.System.VirtualMemory
import KeropOS.System.Machine
import KeropOS.System.Separation
import KeropOS.System.Loading
import KeropOS.System.Programs
import KeropOS.System.Execute
