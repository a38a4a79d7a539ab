/-!
# The status of libffi's calls
-/

namespace NodeFfi.Libffi

/-- `ffi_status`. -/
inductive Status where
  | ok
  | badTypedef
  | badAbi
  deriving DecidableEq, Repr

end NodeFfi.Libffi
