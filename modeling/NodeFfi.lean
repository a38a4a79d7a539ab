import NodeFfi.Closure.Model
import NodeFfi.Threaded.Spurious
import NodeFfi.Closure.Stale
import NodeFfi.Layout.CType
import NodeFfi.Libffi.Describe
import NodeFfi.Types.TypeObject
import NodeFfi.Types.StructLayout
import NodeFfi.Blocks.Memory
import NodeFfi.Js.Basic
import NodeFfi.Marshal.Machine
import NodeFfi.Marshal.Callback
import NodeFfi.Marshal.Conversion
import NodeFfi.Marshal.Call
import NodeFfi.Marshal.RoundTrip
import NodeFfi.Marshal.Report
import NodeFfi.Marshal.EventLoop
import NodeFfi.Marshal.Agreement
import NodeFfi.Memo.Code
import NodeFfi.Memo.Table
import NodeFfi.Variadic.Model
import NodeFfi.Variadic.Ids
import NodeFfi.Variadic.Session
import NodeFfi.Variadic.Signatures
import NodeFfi.Marshal.ResultBuffer
import NodeFfi.Threaded.Referenced
import NodeFfi.DynamicLibrary.Model
import NodeFfi.DynamicLibrary.Outcome
import NodeFfi.Resolve.BuiltIns
import NodeFfi.Resolve.Coherence
import NodeFfi.Resolve.Rejection
import NodeFfi.Resolve.History
import NodeFfi.FunctionType.Model
import NodeFfi.FunctionType.Related
import NodeFfi.FunctionType.RoundTrip
import NodeFfi.Threaded.Locks
import NodeFfi.Threaded.Reuse
import NodeFfi.Variadic.Completeness
import NodeFfi.Native.Model
import NodeFfi.Layout.Fill
import NodeFfi.Native.Conservation
import NodeFfi.Resolve.Elements
import NodeFfi.Bytes.Area
import NodeFfi.Dlfcn.Posix
import NodeFfi.Dlfcn.Refinement
import NodeFfi.DynamicLibrary.Class
import NodeFfi.Library.Model
import NodeFfi.Library.Outcome
import NodeFfi.Library.Windows
import NodeFfi.Unix64.Abi
import NodeFfi.Unix64.CTypes
import NodeFfi.Win64.Closure
import NodeFfi.Win64.RoundTrip
import NodeFfi.Ia32.Call
import NodeFfi.Ia32.Convention
import NodeFfi.Ia32.Trampoline
import NodeFfi.Ia32.Closure
