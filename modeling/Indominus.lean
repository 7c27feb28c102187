import Indominus.Boot.Hardening
import Indominus.Boot.KernelImage
import Indominus.Boot.RelocationWrites
import Indominus.Fat.Overwrite
import Indominus.Fat.Slots
import Indominus.Files.PipeIsolation
import Indominus.Fs.InitrdRoundTrip
import Indominus.Fs.InitrdSafety
import Indominus.Fs.Listing
import Indominus.Memory.SharedFrames
import Indominus.Memory.Teardown
import Indominus.Sched.Deferred
import Indominus.Sched.Lineage
import Indominus.Sched.Orphans
import Indominus.Sched.PipeWakeup
import Indominus.Sched.RoundRobin
import Indominus.Sched.States
import Indominus.Sched.TerminalSignals
import Indominus.Sched.WaitStatus
import Indominus.Sched.Waiting
import Indominus.Sys.BreakRuns
import Indominus.Sys.BufferCheck
import Indominus.Sys.Creation
import Indominus.Sys.ExecRecords
import Indominus.Sys.Randomizer
import Indominus.User.Argv
