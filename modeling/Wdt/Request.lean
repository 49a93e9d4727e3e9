import Mathlib.Data.List.Basic

/-!
# The transfer request

The command-line front end `wdtCmdLine.cpp` talks to the transfer engine through one value,
a `WdtTransferRequest`: it builds the request from flags (or from a connection URL), fills in
the optional pre-enumerated file list from a manifest, hands it to a `Sender` or `Receiver`,
and turns the engine's summary `ErrorCode` into the process exit status.

This module holds that shared data model:

* `ErrorCode` — the closed enumeration of transfer outcomes (`ErrorCodes.h`, which is not
  part of the sources here, so the constructors follow the specification's list);
* `Int64` — the values of C++ `int64_t`, with the range carried as fields, so that a file size
  outside it cannot be built;
* `WdtFileInfo` — one `(fileName, fileSize)` entry of the file list, a size of `-1` meaning
  that the size is unknown;
* `WdtTransferRequest` — the fields of the request that the front end reads or writes.

The request's other members (ports derived from the start port, URL generation) are computed
by the engine, whose sources are not given; the front end only reads them through
`errorCode`, so they are left out.
-/

namespace Wdt

/-- Modelled from the spec: the exit codes of §6, the closed enumeration of
`ErrorCodes.h`, which is not among the sources. `OK` is `0`. -/
inductive ErrorCode
  | OK
  | ERROR
  | ABORT
  | CONN_ERROR
  | SOCKET_READ_ERROR
  | SOCKET_WRITE_ERROR
  | FILE_READ_ERROR
  | FILE_WRITE_ERROR
  | PROTOCOL_ERROR
  | VERSION_MISMATCH
  | FEWER_PORTS
  | CHECKSUM_MISMATCH
  | ABORTED_BY_APPLICATION
  deriving DecidableEq, Repr, Inhabited

/-- The values of C++ `int64_t`: an integer in `[-2^63, 2^63)`, with `2^63` written out as
`9223372036854775808`. -/
structure Int64 where
  /-- The integer value. -/
  val : Int
  /-- The lower end of the `int64_t` range. -/
  ge : -9223372036854775808 ≤ val
  /-- The upper end of the `int64_t` range. -/
  lt : val < 9223372036854775808
  deriving DecidableEq

/-- The size `-1` that the file list uses for "size unknown". -/
def Int64.unknown : Int64 := ⟨-1, by decide, by decide⟩

@[simp] theorem Int64.unknown_val : Int64.unknown.val = -1 := rfl

/-- Two `int64_t` values are equal when their integers are. -/
@[ext] theorem Int64.ext {a b : Int64} (h : a.val = b.val) : a = b := by
  cases a; cases b; cases h; rfl

/-- One entry of `WdtTransferRequest::fileInfo`, built by
`fileInfo.emplace_back(fileName, fileSize)`. -/
structure WdtFileInfo where
  /-- The path of the file, relative to the transfer's directory. -/
  fileName : String
  /-- The size in bytes, `-1` when it is not known. -/
  fileSize : Int64
  deriving DecidableEq

/-- The fields of `WdtTransferRequest` that the command-line front end reads or writes. -/
structure WdtTransferRequest where
  /-- The transfer id; the receiver generates one when it is empty. -/
  transferId : String
  /-- The protocol version to negotiate. -/
  protocolVersion : Int
  /-- The destination host; empty on the receiver side. -/
  hostName : String
  /-- The root directory to send from or receive into. -/
  directory : String
  /-- The pre-enumerated file list; empty means "walk the directory". -/
  fileInfo : List WdtFileInfo
  /-- The outcome of building or initialising the request. -/
  errorCode : ErrorCode
  deriving DecidableEq, Inhabited

end Wdt
