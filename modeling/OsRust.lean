import OsRust.Panics
import OsRust.Settle
import OsRust.Stacks
import OsRust.Gasket
import OsRust.Ownership
import OsRust.Mapping
import OsRust.ContextSwitch
import OsRust.Deadlock
import OsRust.Fifo
import OsRust.Slots
import OsRust.FirstFit
import OsRust.Metadata
import OsRust.Recycled
import OsRust.SpinLock
import OsRust.CurrentThread
import OsRust.Screen
import OsRust.PageWrites
import OsRust.Balance
import OsRust.Spawn
import OsRust.Rotation
import OsRust.Resync
import OsRust.Waiting
import OsRust.Lib.Rounds
import OsRust.Levelled
import OsRust.Progress
import OsRust.Backed
import OsRust.AnyCalls
import OsRust.Lib.Sections
import OsRust.Serial
import OsRust.Atomic
import OsRust.Smp
import OsRust.Log
