import NodeFfi.DynamicLibrary.Model

/-!
# `dlopen` on Windows

`dlopen`, `dlclose`, `dlsym` and `dlerror` of `win32-dlfcn.cc`. What the functions of Windows answer
may depend on everything that has happened so far; what they do is their documented effect on a
`Process`. A function that fails has a code for it, which is not zero.
-/

namespace NodeFfi.Dlfcn

open DynamicLibrary

/-- A code that is not `ERROR_SUCCESS`. -/
structure ErrorCode where
  code : BitVec 32
  ne_zero : code ≠ 0
  deriving DecidableEq

/-- `ERROR_OUTOFMEMORY`. -/
def errorOutOfMemory : ErrorCode := ⟨14, by decide⟩

/-- `SEM_FAILCRITICALERRORS`. -/
def semFailCriticalErrors : BitVec 32 := 1

/-- What happens to the system's own state. -/
inductive Event (Handle : Type) where
  | setErrorMode (mode : BitVec 32)
  /-- `LoadLibraryW` in this mode. -/
  | loadLibrary (mode : BitVec 32) (file : Path)
  | freeLibrary (handle : Handle)

/-- The process: what Windows and the C library keep, and the static variables of the file. -/
structure Process (Handle : Type) where
  /-- What `GetLastError` returns. -/
  threadError : BitVec 32
  errorMode : BitVec 32
  /-- How often a module is loaded, by whomever. -/
  loads : Handle → Nat
  /-- The blocks that `malloc` has returned and that have not been freed. -/
  heap : List Nat
  nextBlock : Nat
  log : List (Event Handle)
  lastError : BitVec 32
  errorMessage : List Char

/-- What Windows decides. -/
structure Windows (Handle Address : Type) where
  /-- A text as `WCHAR`s. -/
  wide : Path → Path
  convertFails : Process Handle → Path → Option ErrorCode
  mallocFails : Process Handle → Nat → Bool
  loadLibrary : Process Handle → Path → Except ErrorCode Handle
  freeLibraryFails : Process Handle → Handle → Option ErrorCode
  getProcAddress : Process Handle → Handle → Path → Except ErrorCode Address
  /-- `GetModuleHandle(NULL)`. -/
  mainModule : Handle
  /-- What is freed was loaded. -/
  loaded : ∀ p h, freeLibraryFails p h = none → 0 < p.loads h

namespace Process

variable {Handle : Type}

/-- A function of Windows fails. -/
def fail (p : Process Handle) (e : ErrorCode) : Process Handle := { p with threadError := e.code }

/-- `lastError = GetLastError()`. -/
def keepError (p : Process Handle) : Process Handle := { p with lastError := p.threadError }

def setErrorMode (p : Process Handle) (mode : BitVec 32) : Process Handle :=
  { p with errorMode := mode, log := p.log ++ [.setErrorMode mode] }

def free (p : Process Handle) (block : Nat) : Process Handle :=
  { p with heap := p.heap.erase block }

end Process

namespace Windows

variable {Handle Address : Type} [DecidableEq Handle] (w : Windows Handle Address)

/-! ### The functions of Windows -/

/-- `MultiByteToWideChar(CP_UTF8, 0, s, -1, ..)`: the characters with the terminator, or zero. -/
def multiByteToWideChar (s : Path) (p : Process Handle) : Nat × Process Handle :=
  match w.convertFails p s with
  | some e => (0, p.fail e)
  | none => ((w.wide s).length + 1, p)

def malloc (size : Nat) (p : Process Handle) : Option Nat × Process Handle :=
  if w.mallocFails p size then (none, p)
  else (some p.nextBlock, { p with heap := p.nextBlock :: p.heap, nextBlock := p.nextBlock + 1 })

/-- `LoadLibraryW`. -/
def loadLibraryW (file : Path) (p : Process Handle) : Option Handle × Process Handle :=
  let logged := { p with log := p.log ++ [Event.loadLibrary p.errorMode file] }
  match w.loadLibrary p file with
  | .ok handle => (some handle, { logged with
      loads := Function.update p.loads handle (p.loads handle + 1) })
  | .error e => (none, logged.fail e)

/-- `FreeLibrary`. -/
def freeLibrary (handle : Handle) (p : Process Handle) : Bool × Process Handle :=
  let logged := { p with log := p.log ++ [Event.freeLibrary handle] }
  match w.freeLibraryFails p handle with
  | none => (true, { logged with
      loads := Function.update p.loads handle (p.loads handle - 1) })
  | some e => (false, logged.fail e)

/-! ### `win32-dlfcn.cc` -/

/-- `UTF8toWCHAR`: the block of the new string. -/
def utf8ToWchar (inputString : Path) (p : Process Handle) : Option Nat × Process Handle :=
  let (outputSize, p) := w.multiByteToWideChar inputString p
  if outputSize = 0 then (none, p)
  else
    match w.malloc (outputSize * 2) p with
    | (none, p) => (none, p.fail errorOutOfMemory)
    | (some outputString, p) =>
      let (written, p) := w.multiByteToWideChar inputString p
      if written ≠ outputSize then (none, p.free outputString)
      else (some outputString, p)

/-- `dlopen`, which ignores the mode. -/
def dlopen (file : Option Path) (p : Process Handle) : Option Handle × Process Handle :=
  match file with
  | none => (some w.mainModule, p)
  | some file =>
    match w.utf8ToWchar file p with
    | (none, p) => (none, p.keepError)
    | (some unicodeFilename, p) =>
      let errorMode := p.errorMode
      let p := p.setErrorMode (errorMode ||| semFailCriticalErrors)
      let (handle, p) := w.loadLibraryW (w.wide file) p
      let p := if handle.isNone then p.keepError else p
      let p := p.setErrorMode errorMode
      (handle, p.free unicodeFilename)

/-- `dlclose`; `true` is a `rc` other than zero. -/
def dlclose (handle : Handle) (p : Process Handle) : Bool × Process Handle :=
  let (rc, p) :=
    if handle ≠ w.mainModule then
      let (freed, p) := w.freeLibrary handle p
      (!freed, p)
    else (false, p)
  (rc, if rc then p.keepError else p)

/-- `dlsym`. -/
def dlsym (handle : Handle) (name : Path) (p : Process Handle) : Option Address × Process Handle :=
  match w.getProcAddress p handle name with
  | .ok address => (some address, p)
  | .error e => (none, (p.fail e).keepError)

/-- `sprintf(errorMessage, "Win32 error %lu", lastError)`. -/
def message (code : BitVec 32) : List Char := "Win32 error ".toList ++ Nat.toDigits 10 code.toNat

end Windows

/-- `dlerror`. -/
def dlerror {Handle : Type} (p : Process Handle) : Option (List Char) × Process Handle :=
  if p.lastError ≠ 0 then
    let errorMessage := Windows.message p.lastError
    (some errorMessage, { p with errorMessage := errorMessage, lastError := 0 })
  else (none, p)

end NodeFfi.Dlfcn
