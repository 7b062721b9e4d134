import JniLog.Framework.System
import JniLog.Framework.Bytes
import JniLog.Framework.Escape
import JniLog.Framework.Framing
import JniLog.Framework.Ledger
import JniLog.Framework.Numeral
import JniLog.Framework.Nested
import JniLog.Framework.Text
import JniLog.Framework.Utf8
import JniLog.Framework.Painted
import JniLog.Framework.CutShort
import JniLog.Framework.Units
import JniLog.Framework.Cursor
import JniLog.Framework.Probing
import JniLog.Framework.Intervals
import JniLog.Framework.GrowBuffer
import JniLog.Framework.Memory
import JniLog.Framework.Brackets
import JniLog.Framework.Guarded
import JniLog.JlFmt
import JniLog.Value
import JniLog.Visualize
import JniLog.WireEscape
import JniLog.FloatBits
import JniLog.ExtractArgs
import JniLog.TypedArgs
import JniLog.ArrayItems
import JniLog.Truncation
import JniLog.RefArray
import JniLog.StringHooks
import JniLog.HookTable
import JniLog.ConfigGate
import JniLog.Configurator
import JniLog.Tui
import JniLog.RegisterNatives
import JniLog.Alloc.Model
import JniLog.Alloc.Blocks
import JniLog.Alloc.Calls
import JniLog.Alloc.Sizes
import JniLog.ProcMaps
import JniLog.RangeSet
import JniLog.MapsLine
import JniLog.SignatureCache
import JniLog.ExecRanges
import JniLog.KernelMaps
import JniLog.Symbolize
import JniLog.ModuleRuns
import JniLog.InMemoryCode
import JniLog.ElfBounds
import JniLog.Mutex
import JniLog.Once
import JniLog.RangeLock
import JniLog.Activation
import JniLog.CriticalSections
import JniLog.HookScope
import JniLog.RawWord
import JniLog.EventPipe.Datagram
import JniLog.EventPipe.SafeTrunc
import JniLog.EventPipe.Reader
import JniLog.EventPipe.Untrusted
import JniLog.EventPipe.PendingMap
import JniLog.EventPipe.Deferred
import JniLog.EventPipe.Substitution
import JniLog.EventPipe.CallIds
import JniLog.EventPipe.Sidecar
import JniLog.EventPipe.OwnedRefs
import JniLog.EventPipe.CallPairing
import JniLog.Logger.Format
import JniLog.Logger.Signature
import JniLog.Logger.Emit
import JniLog.Logger.ControlChars
import JniLog.Logger.SingleLine
import JniLog.FormatCursor
import JniLog.IntConversions
import JniLog.Framework.Rounding
import JniLog.SignificantDigits
import JniLog.LineReader
import JniLog.HookTransparency
import JniLog.ExceptionHooks
import JniLog.ReferenceHooks
import JniLog.ElfLookup
import JniLog.LoaderHook
import JniLog.LookupHooks
import JniLog.AppRanges
