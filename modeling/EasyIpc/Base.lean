import Mathlib.Data.List.Basic
import Mathlib.Data.Int.Notation

/-!
# Basic data of easyipc

Strings, constants and small records of `easyipc_base.h` and `easyipc_daemon.h`.

A C string is the list of its bytes before the terminator, so `strcmp` is equality and a field
`char name[n]` filled by `snprintf(name, n, "%s", s)` holds the first `n - 1` bytes of `s`.
Process ids, ports and tick counters are `int`s whose overflow is undefined in C; they are
integers here.  The two magic numbers count calls and are compared only, so they wrap as the
32-bit words they are.
-/

namespace EasyIpc

/-- A C string: its bytes before the terminator. -/
abbrev CStr := List UInt8

/-- `PROCESS_NAME_MAX_SIZE`. -/
def processNameMaxSize : ℕ := 64

/-- `IPC_MSG_MAX_SIZE`. -/
def ipcMsgMaxSize : ℕ := 64

/-- `IPC_SYSCMD_SIZE`. -/
def ipcSyscmdSize : ℕ := 256

/-- `IPC_LIVE_TIMEOUT_NUM`. -/
def ipcLiveTimeoutNum : ℤ := 14

/-- `API_TIMEOUT_MAX`, the count of a call without a timeout. -/
def apiTimeoutMax : ℤ := 0xffffff

/-- What `snprintf(dst, n, "%s", s)` leaves in `dst`. -/
def snprintf (n : ℕ) (s : CStr) : CStr := s.take (n - 1)

theorem snprintf_of_lt {n : ℕ} {s : CStr} (h : s.length < n) : snprintf n s = s :=
  List.take_of_length_le (by omega)

theorem length_snprintf_lt {n : ℕ} (hn : 0 < n) (s : CStr) : (snprintf n s).length < n := by
  rw [snprintf, List.length_take]
  omega

/-- `tolower`, in the locale the daemon runs in. -/
def tolower (c : UInt8) : UInt8 := if 65 ≤ c ∧ c ≤ 90 then c + 32 else c

/-- A counter that wraps: the `int` magic numbers, compared for equality only. -/
abbrev Magic := BitVec 32

/-- The name `"*"`, under which a process subscribes to every message. -/
def anyName : CStr := [42]

/-- `struct timespec`. -/
structure Timespec where
  tvSec : ℤ
  tvNsec : ℤ
  deriving DecidableEq, Repr

/-- `timespec_sum`. -/
def timespecSum (src dest : Timespec) : Timespec :=
  let sec := src.tvSec + dest.tvSec
  let nsec := src.tvNsec + dest.tvNsec
  if nsec ≥ 1000000000 then ⟨sec + 1, nsec - 1000000000⟩ else ⟨sec, nsec⟩

/-- `IPC_API_RET`. -/
inductive IpcApiRet where
  | ackOk
  | ackFail
  | inParamError
  | ackCantfindApi
  | ackCantfindProgram
  | ackTimeout
  /-- A value of the `int` that the enumeration has no name for. -/
  | other (code : ℤ)
  deriving DecidableEq, Repr

/-- The result codes that come from the function a caller asked for: `ENUM_APT_ACK_OK` and
`ENUM_APT_ACK_FAIL`. -/
def IpcApiRet.fromUser (r : IpcApiRet) : Prop := r = .ackOk ∨ r = .ackFail

instance (r : IpcApiRet) : Decidable r.fromUser := inferInstanceAs (Decidable (_ ∨ _))

/-- Where a datagram goes: an IPv4 address and a port. -/
structure Endpoint where
  addr : ℕ
  port : ℤ
  deriving DecidableEq, Repr

/-- The port that `htons` leaves of an `int` in `sin_port`. -/
def htons (port : ℤ) : ℤ := port % 65536

end EasyIpc
