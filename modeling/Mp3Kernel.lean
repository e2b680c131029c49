import Mp3Kernel.Library.Run
import Mp3Kernel.Library.Machine
import Mp3Kernel.Library.Cells
import Mp3Kernel.Library.Sheet
import Mp3Kernel.Library.Chain
import Mp3Kernel.Library.PageTable
import Mp3Kernel.Library.X86
import Mp3Kernel.Library.Picture
import Mp3Kernel.Library.Text
import Mp3Kernel.Library.Lines
import Mp3Kernel.Console.Basic
import Mp3Kernel.Console.Effects
import Mp3Kernel.Console.Mirror
import Mp3Kernel.Console.Sheet
import Mp3Kernel.Console.Bounds
import Mp3Kernel.Console.Cursor
import Mp3Kernel.Console.Frame
import Mp3Kernel.Terminal.Basic
import Mp3Kernel.Terminal.Session
import Mp3Kernel.Terminal.Modifiers
import Mp3Kernel.Terminal.Read
import Mp3Kernel.Terminal.KernelLoop
import Mp3Kernel.Terminal.Editing
import Mp3Kernel.Terminal.LineEditor
import Mp3Kernel.Terminal.Release
import Mp3Kernel.Terminal.Write
import Mp3Kernel.Terminal.Transcript
import Mp3Kernel.Rtc.Basic
import Mp3Kernel.Rtc.Write
import Mp3Kernel.Rtc.Answer
import Mp3Kernel.Rtc.Read
import Mp3Kernel.Rtc.Driver
import Mp3Kernel.Idt.Basic
import Mp3Kernel.Idt.Install
import Mp3Kernel.Paging.Basic
import Mp3Kernel.Paging.Init
import Mp3Kernel.Paging.Palloc
import Mp3Kernel.Console.Paged
import Mp3Kernel.Filesys.Basic
import Mp3Kernel.Filesys.Image
import Mp3Kernel.Filesys.ReadData
import Mp3Kernel.Filesys.Containment
import Mp3Kernel.Filesys.Lookup
import Mp3Kernel.Filesys.Sequential
import Mp3Kernel.Filesys.Load
import Mp3Kernel.Filesys.Names
import Mp3Kernel.Filesys.ByName
import Mp3Kernel.Filesys.Failure
import Mp3Kernel.Filesys.Directory
import Mp3Kernel.Filesys.Enumerate
import Mp3Kernel.Filesys.Store
import Mp3Kernel.Blink.Basic
import Mp3Kernel.Blink.Chain
import Mp3Kernel.Blink.Display
import Mp3Kernel.Blink.Period
import Mp3Kernel.Blink.Place
import Mp3Kernel.Fish.Basic
import Mp3Kernel.Fish.Frames
import Mp3Kernel.Fish.Animation
import Mp3Kernel.Gdt.Basic
import Mp3Kernel.Gdt.Delivery
import Mp3Kernel.Pic.Basic
import Mp3Kernel.Pic.Masks
import Mp3Kernel.Interrupts.Basic
import Mp3Kernel.Interrupts.Nesting
import Mp3Kernel.Routines.Basic
import Mp3Kernel.Routines.Copy
import Mp3Kernel.Routines.Move
import Mp3Kernel.Format.Basic
import Mp3Kernel.Format.Itoa
import Mp3Kernel.Format.Conversion
import Mp3Kernel.Format.Printf
import Mp3Kernel.Format.Literal
import Mp3Kernel.Exceptions.Basic
import Mp3Kernel.Exceptions.Screen
import Mp3Kernel.Exceptions.Report
import Mp3Kernel.Boot.Basic
import Mp3Kernel.Boot.Report
import Mp3Kernel.Syscalls.Support
import Mp3Kernel.Syscalls.Getargs
import Mp3Kernel.Syscalls.Grep
import Mp3Kernel.Syscalls.Matches
import Mp3Kernel.Syscalls.Execute
import Mp3Kernel.Syscalls.Shell
import Mp3Kernel.Syscalls.Programs
