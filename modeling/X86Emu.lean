import X86Emu.Word
import X86Emu.Memory
import X86Emu.MemoryFacts
import X86Emu.MemoryWidth
import X86Emu.Paging
import X86Emu.PageTree
import X86Emu.WalkMarks
import X86Emu.EffectiveAddress
import X86Emu.Inst
import X86Emu.Devices.Pic
import X86Emu.Devices.Timers
import X86Emu.Devices.Keyboard
import X86Emu.Devices.Display
import X86Emu.Devices.Storage
import X86Emu.PicPriority
import X86Emu.PicInit
import X86Emu.Lib.StateRules
import X86Emu.Lib.SignedWords
import X86Emu.Lib.ShiftSteps
import X86Emu.Lib.NearestEven
import X86Emu.Lib.RadixWalk
import X86Emu.Lib.Lanes
import X86Emu.Lib.Gregorian
import X86Emu.State
import X86Emu.Vmcs
import X86Emu.Translate
import X86Emu.Operand
import X86Emu.Alu
import X86Emu.AluFlags
import X86Emu.Arith
import X86Emu.Strings
import X86Emu.Port
import X86Emu.PitChannels
import X86Emu.PitTicks
import X86Emu.RealTimeClock
import X86Emu.System
import X86Emu.Bios
import X86Emu.BiosBounds
import X86Emu.Boot
import X86Emu.IdentityMap
import X86Emu.MemoryMap
import X86Emu.VmExit
import X86Emu.Deliver
import X86Emu.Control
import X86Emu.VmInst
import X86Emu.Packed
import X86Emu.Float
import X86Emu.FloatFormats
import X86Emu.Sse
import X86Emu.Execute
import X86Emu.Division
import X86Emu.Multiply
import X86Emu.Shifts
import X86Emu.Run
import X86Emu.Effects
import X86Emu.UserFrame
import X86Emu.Frame
import X86Emu.GuestState
import X86Emu.IoBitmap
import X86Emu.VmcsFacts
import X86Emu.GuestRoundTrip
import X86Emu.ExceptionRouting
import X86Emu.FaultingDelivery
import X86Emu.Injection
import X86Emu.ExternalInterrupts
import X86Emu.FirstFault
import X86Emu.HostBits
import X86Emu.VmcsRegions
import X86Emu.UserMode
import X86Emu.ModeSwitch
import X86Emu.Decode
import X86Emu.ModeRun
import X86Emu.ModeSteps
import X86Emu.ModeEvents
import X86Emu.ModeExecute
import X86Emu.ModeDrift
import X86Emu.PciSpace
import X86Emu.SseAtomic
import X86Emu.PackedLanes
import X86Emu.IdePio
import X86Emu.Virtqueue
import X86Emu.BlkRequest
import X86Emu.KeyboardQueue
import X86Emu.WriteProtect
import X86Emu.X87Operands
import X86Emu.Branches
import X86Emu.PushedWords
import X86Emu.CallReturn
import X86Emu.BitStrings
import X86Emu.PageFetch
import X86Emu.FetchCache
import X86Emu.DecodeOp
import X86Emu.InstLength
import X86Emu.PrefixLoop
import X86Emu.FxRoundTrip
import X86Emu.TlbTransparency
import X86Emu.SplitAccess
import X86Emu.ShiftRuns
import X86Emu.LongArithmetic
import X86Emu.KeyScript
import X86Emu.VmxSteps
import X86Emu.VmxOrder
import X86Emu.KeyPace
import X86Emu.BzImageLoad
import X86Emu.Teletype
import X86Emu.IdleWake
import X86Emu.StringBlocks
