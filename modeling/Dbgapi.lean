import Dbgapi.Basic.Types
import Dbgapi.Basic.Bytes
import Dbgapi.Wave.Basic
import Dbgapi.Wave.Registers
import Dbgapi.Wave.DisplacedStepping
import Dbgapi.Wave.StateMachine
import Dbgapi.Wave.Api
import Dbgapi.Wave.Transitions
import Dbgapi.Wave.Parking
import Dbgapi.Wave.Invariant
import Dbgapi.Wave.Events
import Dbgapi.Wave.Buffers
import Dbgapi.Wave.Client
import Dbgapi.Wave.Exceptions
import Dbgapi.Wave.RegisterFile
import Dbgapi.Wave.FirstUpdate
import Dbgapi.Process.Step
import Dbgapi.Process.Invariant
import Dbgapi.Process.Events
import Dbgapi.Process.EntryPoints
import Dbgapi.Process.Buffers
import Dbgapi.Process.Client
import Dbgapi.Process.WaveList
import Dbgapi.Process.Control
import Dbgapi.Process.Handshake
import Dbgapi.Memory.Xfer
import Dbgapi.Memory.Swizzled
