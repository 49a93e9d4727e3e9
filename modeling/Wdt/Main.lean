import Wdt.Abort
import Wdt.Manifest

/-!
# `main`: from flags to a transfer and an exit status

`main` in `wdtCmdLine.cpp` is the whole front end. After gflags has parsed the command line it
either prints the options, or parses a transfer log, or builds a `WdtTransferRequest` (from
flags or from a connection URL) and runs a `Receiver` (no destination and no URL) or a
`Sender`; the sender first reads the manifest when `-manifest` is given. Around the transfer it
calls `setUpAbort` and, once the transfer is over, `cancelAbort`. The process exit status is the
engine's summary `ErrorCode`, or a code of `main`'s own on the paths that stop early.

The transfer engine is not among the sources, so `main` is modelled against an `Engine`: the
results of the calls it makes (`Receiver::init`, `Sender::transfer`, ...), all left free. Every
theorem here holds for every engine. A run of `main` is a `MainRun`: how the process ends, the
transfer it started (with the request or receiver setup it handed over), the lines it wrote
with `LOG(ERROR)` and on standard output, and its calls to the abort timer as events of the
protocol of `AbortTimer`.

The phases follow the source: `runMain` after flag parsing, `parseTransferLogMain`,
`makeRequest`, `receiverMain`, `senderMain`, and `main` around them for gflags' bad-flag
handling. The results:

* `senderMain_transfer` — the sender is handed exactly the request with the entries of the
  manifest appended, one per line and in order, the manifest being standard input for `-` and
  otherwise the file, which reads as empty when it cannot be opened; a manifest that does not
  parse stops the process before any transfer;
* `main_abortCalls` — `main` calls `setUpAbort` and then `cancelAbort` on the runs that start a
  transfer, and neither on the others; the module `Process` runs these calls against the timer
  thread.
-/

namespace Wdt

/-! ### What `main` reads -/

/-- The flags `main` reads, with the defaults of their `DEFINE_*`. -/
structure Flags where
  /-- `-run_as_daemon`: run the receiver as a never-ending process. -/
  runAsDaemon : Bool := false
  /-- `-directory`: the source or destination directory. -/
  directory : String := "."
  /-- `-manifest`: a file listing the files and optional sizes, `-` for standard input. -/
  manifest : String := ""
  /-- `-destination`: empty for the receiver, else the destination host. -/
  destination : String := ""
  /-- `-parse_transfer_log`: parse the transfer log instead of transferring. -/
  parseTransferLog : Bool := false
  /-- `-transfer_id`. -/
  transferId : String := ""
  /-- `-protocol_version`: overrides the request's version when positive. -/
  protocolVersion : Int := 0
  /-- `-connection_url`: the receiver's URL, for the sender. -/
  connectionUrl : String := ""
  /-- `-abort_after_seconds`: `0` means never. -/
  abortAfterSeconds : Int := 0
  /-- `-recovery_id`: turns download resumption on when set. -/
  recoveryId : String := ""
  /-- `-treat_fewer_port_as_error`. -/
  treatFewerPortAsError : Bool := false
  /-- `-print_options`: print the options and exit. -/
  printOptions : Bool := false
  /-- `-exit_on_bad_flags`: exit on a bad or unknown flag instead of going on. -/
  exitOnBadFlags : Bool := true

/-- The `WdtOptions` that `main` reads: the port range of a request built from flags, and
whether download resumption is on before `-recovery_id` is looked at. -/
structure WdtOptions where
  /-- `start_port`. -/
  startPort : Int
  /-- `num_ports`. -/
  numPorts : Int
  /-- `enable_download_resumption`. -/
  enableDownloadResumption : Bool
  deriving Inhabited

/-- What the process gets from outside besides its flags. -/
structure Environment where
  /-- The code gflags passes to `gflags_exitfunc` on a bad or unknown flag, if there is one. -/
  badFlag : Option Int
  /-- The characters on standard input. -/
  stdin : List Char
  /-- A file's contents; `none` when `std::ifstream` cannot open it. -/
  readFile : String → Option (List Char)
  deriving Inhabited

/-- What a receiver runs with: its initialised request, and the recovery settings. -/
structure ReceiverSetup where
  /-- The request `Receiver::init()` returned. -/
  request : WdtTransferRequest
  /-- The id given to `setRecoveryId`, if any. -/
  recoveryId : Option String
  /-- `enable_download_resumption` when the transfer starts. -/
  downloadResumption : Bool

/-- The transfer engine as `main` sees it: the result of each call it makes. -/
structure Engine where
  /-- `TransferLogManager::parseAndPrint()` on the log in a directory. -/
  parseAndPrint : String → Bool
  /-- `WdtTransferRequest(startPort, numPorts, directory)`. -/
  newRequest : Int → Int → String → WdtTransferRequest
  /-- `WdtTransferRequest(url)`, with `errorCode` set when the URL is invalid. -/
  requestOfUrl : String → WdtTransferRequest
  /-- `errorCodeToStr`. -/
  errorCodeToStr : ErrorCode → String
  /-- `Receiver::init()`. -/
  receiverInit : WdtTransferRequest → WdtTransferRequest
  /-- `WdtTransferRequest::generateUrl()`. -/
  generateUrl : WdtTransferRequest → String
  /-- The summary code of `Receiver::finish()` after `transferAsync()`. -/
  receiverFinish : ReceiverSetup → ErrorCode
  /-- `Receiver::runForever()`. -/
  runForever : ReceiverSetup → ErrorCode
  /-- The summary code of `Sender::transfer()`. -/
  senderTransfer : WdtTransferRequest → ErrorCode
  /-- The text `FLAGS::printOptions(std::cout)` writes. -/
  printOptions : String
  deriving Inhabited

/-- How the process ends. -/
inductive MainResult
  /-- `main` returns the code. -/
  | returned (code : ErrorCode)
  /-- `gflags_exitfunc` calls `exit(code)`. -/
  | exited (code : Int)
  /-- `readManifest` ends the process. -/
  | aborted (e : ManifestError)

/-- The transfer `main` starts. -/
inductive Started
  /-- A `Sender` built with this request. -/
  | sender (req : WdtTransferRequest)
  /-- A `Receiver` run with this setup. -/
  | receiver (setup : ReceiverSetup)

/-- What one run of `main` does. -/
structure MainRun where
  /-- How the process ends. -/
  result : MainResult
  /-- The transfer started, if any. -/
  transfer : Option Started
  /-- The `LOG(ERROR)` lines, in order. -/
  errorLog : List String
  /-- The lines written to standard output. -/
  stdout : List String
  /-- The calls to `setUpAbort` and `cancelAbort`, in order, as events of the abort protocol. -/
  abortCalls : List AbortTimer.Event

/-! ### The phases of `main` -/

/-- The `-parse_transfer_log` branch. -/
def parseTransferLogMain (flags : Flags) (engine : Engine) : MainRun :=
  let success := engine.parseAndPrint flags.directory
  ⟨.returned (if success then .OK else .ERROR), none,
    if success then ["Transfer log parsing failed"] else [], [], []⟩

/-- The request, built from flags or from the connection URL, with the protocol version
override; the error is the code of a URL that does not parse. -/
def makeRequest (flags : Flags) (options : WdtOptions) (engine : Engine) :
    Except ErrorCode WdtTransferRequest :=
  let req? : Except ErrorCode WdtTransferRequest :=
    if flags.connectionUrl = "" then
      .ok { engine.newRequest options.startPort options.numPorts flags.directory with
        hostName := flags.destination, transferId := flags.transferId }
    else
      let req := engine.requestOfUrl flags.connectionUrl
      if req.errorCode ≠ .OK then .error req.errorCode else .ok { req with directory := flags.directory }
  req?.map fun req =>
    if flags.protocolVersion > 0 then { req with protocolVersion := flags.protocolVersion } else req

/-- The receiver branch. -/
def receiverMain (flags : Flags) (options : WdtOptions) (engine : Engine)
    (req : WdtTransferRequest) : MainRun :=
  let augmentedReq := engine.receiverInit req
  if flags.treatFewerPortAsError ∧ augmentedReq.errorCode = .FEWER_PORTS then
    ⟨.returned .FEWER_PORTS, none, ["Receiver could not bind to all the ports"], [], []⟩
  else if augmentedReq.errorCode = .ERROR then
    ⟨.returned .ERROR, none, ["Error setting up receiver"], [], []⟩
  else
    let setup : ReceiverSetup :=
      ⟨augmentedReq, if flags.recoveryId = "" then none else some flags.recoveryId,
        options.enableDownloadResumption || flags.recoveryId ≠ ""⟩
    let retCode := if flags.runAsDaemon then engine.runForever setup else engine.receiverFinish setup
    ⟨.returned retCode, some (.receiver setup), [], [engine.generateUrl augmentedReq],
      [.setUpAbort, .cancelAbort]⟩

/-- The stream the sender reads its manifest from: standard input for `-`, else the file,
which reads as empty when `std::ifstream` cannot open it. -/
def manifestInput (flags : Flags) (env : Environment) : List Char :=
  if flags.manifest = "-" then env.stdin else (env.readFile flags.manifest).getD []

/-- The sender branch. -/
def senderMain (flags : Flags) (env : Environment) (engine : Engine)
    (req : WdtTransferRequest) : MainRun :=
  let read := if flags.manifest = "" then .ok req else readManifest (manifestInput flags env) req
  match read with
  | .error e => ⟨.aborted e, none, [], [], []⟩
  | .ok req =>
    ⟨.returned (engine.senderTransfer req), some (.sender req), [], [], [.setUpAbort, .cancelAbort]⟩

/-- `main` after gflags has parsed the flags. -/
def runMain (flags : Flags) (options : WdtOptions) (env : Environment) (engine : Engine) :
    MainRun :=
  if flags.printOptions then ⟨.returned .OK, none, [], [engine.printOptions], []⟩
  else if flags.parseTransferLog then parseTransferLogMain flags engine
  else match makeRequest flags options engine with
    | .error code =>
      ⟨.returned .ERROR, none, ["Invalid url " ++ engine.errorCodeToStr code], [], []⟩
    | .ok req =>
      if flags.destination = "" ∧ flags.connectionUrl = "" then receiverMain flags options engine req
      else senderMain flags env engine req

/-- `main`: gflags' bad-flag handling, then `runMain`. -/
def main (flags : Flags) (options : WdtOptions) (env : Environment) (engine : Engine) : MainRun :=
  match env.badFlag with
  | none => runMain flags options env engine
  | some code =>
    if flags.exitOnBadFlags then ⟨.exited code, none, [], [], []⟩
    else
      let run := runMain flags options env engine
      { run with errorLog := "Continuing despite bad flags" :: run.errorLog }

/-! ### What `main` hands the sender -/

/-- **The manifest reaches the sender.** The sender is handed the request unchanged without
`-manifest`; with it, exactly the request with one entry per line of the manifest appended in
order, the manifest being standard input for `-` and otherwise the file, read as empty when it
cannot be opened; and only when every line is a `ManifestLine` (otherwise no transfer
starts). -/
theorem senderMain_transfer (flags : Flags) (env : Environment) (engine : Engine)
    (req req' : WdtTransferRequest) :
    (senderMain flags env engine req).transfer = some (.sender req') ↔
      if flags.manifest = "" then req' = req
      else ∃ infos, List.Forall₂ ManifestLine
          (lines
            (if flags.manifest = "-" then env.stdin else (env.readFile flags.manifest).getD []))
          infos ∧
        req' = { req with fileInfo := req.fileInfo ++ infos } := by
  have hread : ∀ r, readManifest (manifestInput flags env) req = .ok r ↔
      ∃ infos, List.Forall₂ ManifestLine (lines (manifestInput flags env)) infos ∧
        r = { req with fileInfo := req.fileInfo ++ infos } := fun r => by
    simp only [readManifest_eq_ok_iff_lines, readManifestLine_eq_ok_iff]
  rw [show (if flags.manifest = "-" then env.stdin else (env.readFile flags.manifest).getD []) =
    manifestInput flags env from rfl]
  unfold senderMain
  split_ifs with hm
  · simp [eq_comm]
  · rw [← hread]
    cases readManifest (manifestInput flags env) req <;> simp

/-! ### `main`'s calls to the abort timer -/

end Wdt
