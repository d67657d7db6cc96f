import FastClone.Spec.Quantities
import FastClone.Spec.Client

/-!
# The command line (`ParseCliArgs`)

Options are read one after the other, each overwriting what an earlier one has set. `--port` sets the port, and
`--server` reads its endpoints with the port in force at that moment and then sets the port to that of the first
endpoint of all. `Parse.portGiven` and `Parse.written` are observations: the last `--port`, and every endpoint
that was written with what it became.
-/

namespace FastClone.Cli

open FastClone.Endpoint FastClone.Durations FastClone.Quantities
open FastClone.Client (LargeFileLane)

/-! ### Options -/

inductive Mode where
  | server
  | client
  deriving DecidableEq, Repr

inductive LargeFileBlockMode where
  | auto
  | on
  | off
  deriving DecidableEq, Repr

/-- Host and port. -/
abbrev Address := Text × UInt16

structure LinkPin where
  localName : Text
  server : Text
  port : UInt16 := 0
  deriving DecidableEq, Repr

/-- What is used of the C++ library: paths (as texts) and floating-point numbers. -/
structure Platform (D : Type) where
  currentPath : Text
  /-- `fs::weakly_canonical`, which may throw. -/
  weaklyCanonical : Text → Except String Text
  /-- `std::strtod`: the number, and the text from `end` on. -/
  strtod : Text → D × Text
  isFinite : D → Bool
  le : D → D → Bool
  zero : D
  one : D
  sixteen : D

/-- `CliOptions`, as far as the parser sets it. -/
structure CliOptions (D : Type) where
  mode : Mode := .server
  rootDir : Text := []
  host : Text := ['1', '2', '7', '.', '0', '.', '0', '.', '1']
  port : UInt16 := 27842
  password : Text := []
  streamLimit : ℕ := 16
  chunkSize : ℕ := 256 * 1024
  queuedFileSizeBytes : ℕ := 5 * 1024 * 1024 * 1024
  serverHashWorkers : ℕ := 0
  enableHashMemcache : Bool := false
  exitAfterSync : Bool := false
  onceMulti : Bool := false
  bindLoopback : Bool := false
  onceIdleGraceMs : ℕ := 5000
  waitConnectTimeoutMs : ℕ := 300000
  streamAutoTune : Bool := true
  chunkAutoTune : Bool := true
  diagnostics : Bool := false
  reconnectRetries : ℕ := 10
  largeFileThresholdBytes : ℕ := 2 ^ 30
  auxWeight : D
  largeFileLane : LargeFileLane := .auto
  largeFileBlockMode : LargeFileBlockMode := .auto
  largeFileBlockBytes : ℕ := 32 * 1024 * 1024
  largeFileLaneFlagged : Bool := false
  servers : List Address := []
  linkPins : List LinkPin := []
  tcpSendBufferBytes : ℕ := 0
  tcpRecvBufferBytes : ℕ := 0
  deltaMinSizeBytes : ℕ := 0
  unbufferedWrites : Bool := false

/-- Options without a value. -/
inductive Flag where
  | enableHashMemcache
  | unbufferedWrites
  | once
  | onceMulti
  | bindLoopback
  | diag
  deriving DecidableEq, Repr

/-- Options with a value. -/
inductive Valued where
  | dir
  | target
  | port
  | server
  | largeFileThreshold
  | deltaMinSize
  | tcpSendBuffer
  | tcpRecvBuffer
  | auxWeight
  | largeFileLane
  | link
  | password
  | streams
  | chunkKb
  | queuedFileSize
  | serverHashWorkers
  | onceIdleGrace
  | waitConnectTimeout
  | reconnectRetries
  deriving DecidableEq, Repr

/-- An option; the value of `--large-file-block` may be left out. -/
inductive Arg where
  | flag (f : Flag)
  | valued (v : Valued)
  | largeFileBlock
  deriving DecidableEq, Repr

def Flag.text : Flag → String
  | .enableHashMemcache => "--enable-hash-memcache"
  | .unbufferedWrites => "--unbuffered-writes"
  | .once => "--once"
  | .onceMulti => "--once-multi"
  | .bindLoopback => "--bind-loopback"
  | .diag => "--diag"

def Valued.text : Valued → String
  | .dir => "--dir"
  | .target => "--target"
  | .port => "--port"
  | .server => "--server"
  | .largeFileThreshold => "--large-file-threshold"
  | .deltaMinSize => "--delta-min-size"
  | .tcpSendBuffer => "--tcp-send-buffer"
  | .tcpRecvBuffer => "--tcp-recv-buffer"
  | .auxWeight => "--aux-weight"
  | .largeFileLane => "--large-file-lane"
  | .link => "--link"
  | .password => "--password"
  | .streams => "--streams"
  | .chunkKb => "--chunk-kb"
  | .queuedFileSize => "--queued-file-size"
  | .serverHashWorkers => "--server-hash-workers"
  | .onceIdleGrace => "--once-idle-grace"
  | .waitConnectTimeout => "--wait-connect-timeout"
  | .reconnectRetries => "--reconnect-retries"

def Arg.text : Arg → String
  | .flag f => f.text
  | .valued v => v.text
  | .largeFileBlock => "--large-file-block"

def Arg.all : List Arg :=
  [.valued .dir, .valued .target, .valued .port, .valued .server, .valued .largeFileThreshold, .valued .deltaMinSize,
    .valued .tcpSendBuffer, .valued .tcpRecvBuffer, .valued .auxWeight, .valued .largeFileLane, .largeFileBlock,
    .valued .link, .valued .password, .valued .streams, .valued .chunkKb, .valued .queuedFileSize,
    .valued .serverHashWorkers, .flag .enableHashMemcache, .flag .unbufferedWrites, .flag .once, .flag .onceMulti,
    .flag .bindLoopback, .valued .onceIdleGrace, .valued .waitConnectTimeout, .flag .diag, .valued .reconnectRetries]

/-- The option that an argument names. -/
def Arg.ofText (arg : Text) : Option Arg := Arg.all.find? fun a => a.text.toList = arg

/-! ### Reading the options -/

/-- The state of the loop. -/
structure Parse (D : Type) where
  options : CliOptions D
  sawIdleGrace : Bool := false
  sawWaitConnectTimeout : Bool := false
  portGiven : UInt16 := 27842
  written : List (Text × Address) := []

variable {D : Type}

/-- `ParseDoubleStrict`. -/
def parseDoubleStrict (p : Platform D) (value : Text) (name : String) : Except String D :=
  if value = [] then .error (name ++ " is empty")
  else
    let parsed := p.strtod value
    -- the text ends at the first NUL
    if (parsed.2 = [] ∨ parsed.2.head? = some '\x00') ∧ p.isFinite parsed.1 = true then .ok parsed.1
    else .error ("Invalid " ++ name)

/-- `ParseLinkPin`. -/
def parseLinkPin (input : Text) (defaultPort : UInt16) : Except String LinkPin :=
  let invalid : Except String LinkPin := .error "Invalid --link, expected <localIP|iface>=<serverIP[:port]>"
  match find '=' input with
  | none => invalid
  | some eq =>
    if eq = 0 ∨ eq + 1 ≥ input.length then invalid
    else do
      let serverHostPort ← parseHostPort (input.drop (eq + 1)) defaultPort
      return ⟨input.take eq, serverHostPort.1, serverHostPort.2⟩

/-- A number in a range, or `message`. -/
def inRange (n : ℤ) (least greatest : ℤ) (message : String) : Except String ℕ :=
  if n < least ∨ n > greatest then .error message else .ok n.toNat

/-- The endpoints of a `--server` behind those of the earlier ones, without repeats. -/
def addServers (servers endpoints : List Address) : List Address :=
  endpoints.foldl (fun servers ep => if ep ∈ servers then servers else servers ++ [ep]) servers

/-- The tokens of a `--server`. -/
def serverTokens (input : Text) : List Text := (input.splitOn ',').filter fun token => token ≠ []

/-- An option without a value. -/
def Parse.setFlag (st : Parse D) : Flag → Parse D
  | .enableHashMemcache => { st with options := { st.options with enableHashMemcache := true } }
  | .unbufferedWrites => { st with options := { st.options with unbufferedWrites := true } }
  | .once => { st with options := { st.options with exitAfterSync := true } }
  | .onceMulti => { st with options := { st.options with onceMulti := true } }
  | .bindLoopback => { st with options := { st.options with bindLoopback := true } }
  | .diag => { st with options := { st.options with diagnostics := true } }

/-- `--port`. -/
def Parse.setPort (st : Parse D) (value : Text) : Except String (Parse D) := do
  let port ← parseLongStrict value "--port"
  if port ≤ 0 ∨ port > 65535 then .error "Port out of range"
  else
    let port := UInt16.ofNat port.toNat
    -- the servers that are listed already keep the ports they have
    return { st with options := { st.options with port := port }, portGiven := port }

/-- `--server`. -/
def Parse.setServer (st : Parse D) (value : Text) : Except String (Parse D) := do
  let endpoints ← parseServerList value st.options.port
  let servers := addServers st.options.servers endpoints
  -- the list is not empty, so it has a front
  let front := servers.headD (st.options.host, st.options.port)
  return { st with
    options := { st.options with servers := servers, host := front.1, port := front.2 }
    written := st.written ++ (serverTokens value).zip endpoints }

/-- An option with a value. -/
def Parse.setValue (p : Platform D) (st : Parse D) (value : Text) : Valued → Except String (Parse D)
  | .dir => .ok { st with options := { st.options with rootDir := value } }
  | .target => .ok { st with options := { st.options with rootDir := value } }
  | .port => st.setPort value
  | .server => st.setServer value
  | .largeFileThreshold => do
    let v ← parseSizeBytesStrict value "--large-file-threshold"
    let v ← inRange v (1024 * 1024) (1024 * 1024 * 1024 * 1024) "Invalid --large-file-threshold (range: 1M..1T)"
    return { st with options := { st.options with largeFileThresholdBytes := v } }
  | .deltaMinSize => do
    let v ← parseSizeBytesStrict value "--delta-min-size"
    if v ≠ 0 ∧ (v < 1024 * 1024 ∨ v > 1024 * 1024 * 1024 * 1024) then
      .error "Invalid --delta-min-size (range: 0 or 1M..1T)"
    else return { st with options := { st.options with deltaMinSizeBytes := v } }
  | .tcpSendBuffer => do
    let v ← parseSizeBytesStrict value "--tcp-send-buffer"
    if v ≠ 0 ∧ (v < 64 * 1024 ∨ v > 1024 * 1024 * 1024) then
      .error "Invalid --tcp-send-buffer (range: 0 or 64K..1G)"
    else return { st with options := { st.options with tcpSendBufferBytes := v } }
  | .tcpRecvBuffer => do
    let v ← parseSizeBytesStrict value "--tcp-recv-buffer"
    if v ≠ 0 ∧ (v < 64 * 1024 ∨ v > 1024 * 1024 * 1024) then
      .error "Invalid --tcp-recv-buffer (range: 0 or 64K..1G)"
    else return { st with options := { st.options with tcpRecvBufferBytes := v } }
  | .auxWeight => do
    let w ← parseDoubleStrict p value "--aux-weight"
    if p.le w p.zero = true ∨ p.le w p.sixteen = false then .error "Invalid --aux-weight (range: (0,16])"
    else return { st with options := { st.options with auxWeight := w } }
  | .largeFileLane =>
    let set (lane : LargeFileLane) : Except String (Parse D) :=
      .ok { st with options := { st.options with largeFileLane := lane, largeFileLaneFlagged := true } }
    if value = "primary".toList then set .primary
    else if value = "aux".toList then set .aux
    else if value = "auto".toList then set .auto
    else .error "Invalid --large-file-lane (expected primary|aux|auto)"
  | .link => do
    -- the port in force here, as for the endpoints of `--server`
    let pin ← parseLinkPin value st.options.port
    return { st with options := { st.options with linkPins := st.options.linkPins ++ [pin] } }
  | .password => .ok { st with options := { st.options with password := value } }
  | .streams => do
    let streams ← parseLongStrict value "--streams"
    let streams ← inRange streams 1 1024 "Invalid --streams"
    return { st with options := { st.options with streamLimit := streams, streamAutoTune := false } }
  | .chunkKb => do
    let chunkKb ← parseLongStrict value "--chunk-kb"
    let chunkKb ← inRange chunkKb 1 65536 "Invalid --chunk-kb"
    return { st with options := { st.options with chunkSize := chunkKb * 1024, chunkAutoTune := false } }
  | .queuedFileSize => do
    let v ← parseSizeBytesStrict value "--queued-file-size"
    let v ← inRange v (256 * 1024 * 1024) (64 * 1024 * 1024 * 1024) "Invalid --queued-file-size (range: 256M..64G)"
    return { st with options := { st.options with queuedFileSizeBytes := v } }
  | .serverHashWorkers => do
    let workers ← parseLongStrict value "--server-hash-workers"
    let workers ← inRange workers 0 512 "Invalid --server-hash-workers (range: 0..512)"
    return { st with options := { st.options with serverHashWorkers := workers } }
  | .onceIdleGrace => do
    let ms ← onceIdleGraceMs value
    return { st with options := { st.options with onceIdleGraceMs := ms }, sawIdleGrace := true }
  | .waitConnectTimeout => do
    let ms ← Durations.waitConnectTimeoutMs value
    return { st with options := { st.options with waitConnectTimeoutMs := ms }, sawWaitConnectTimeout := true }
  | .reconnectRetries => do
    let retries ← parseLongStrict value "--reconnect-retries"
    let retries ← inRange retries 0 1000000 "Invalid --reconnect-retries"
    return { st with options := { st.options with reconnectRetries := retries } }

/-- The text begins with `--`, so it is no value of `--large-file-block`. -/
def isOption (arg : Text) : Bool := ['-', '-'].isPrefixOf arg

/-- `--large-file-block`, with or without a value. -/
def Parse.setBlock (st : Parse D) (value : Option Text) : Except String (Parse D) :=
  let set (mode : LargeFileBlockMode) (blockBytes : ℕ) : Except String (Parse D) :=
    .ok { st with options := { st.options with largeFileBlockMode := mode, largeFileBlockBytes := blockBytes } }
  match value with
  | none => set .auto (32 * 1024 * 1024)
  | some tok =>
    if tok = "off".toList then set .off (32 * 1024 * 1024)
    else if tok = "auto".toList then set .auto (32 * 1024 * 1024)
    else if tok = "on".toList then
      .error ("Invalid --large-file-block (expected auto|off|<size>; 'on' is not a " ++
        "value; use --large-file-block <size> to force on)")
    else do
      let v ← parseSizeBytesStrict tok "--large-file-block"
      if v < 1024 * 1024 ∨ v > 4 * 1024 * 1024 * 1024 ∨ v &&& (v - 1) ≠ 0 then
        .error ("Invalid --large-file-block (range 1M..4G, power of two; suffix " ++ "K|M|G; or auto|off)")
      else set .on v

/-- The loop over the arguments. -/
def parseLoop (p : Platform D) : List Text → Parse D → Except String (Parse D)
  | [], st => .ok st
  | arg :: rest, st =>
    match Arg.ofText arg with
    | none => .error ("Unknown argument: " ++ String.ofList arg)
    | some (.flag f) => parseLoop p rest (st.setFlag f)
    | some (.valued v) =>
      match rest with
      | [] => .error "Missing value for argument"
      | value :: rest => do
        let st ← st.setValue p value v
        parseLoop p rest st
    | some .largeFileBlock =>
      match rest with
      | [] => st.setBlock none
      | value :: rest =>
        -- the next option is no value of this one
        if isOption value then do
          let st ← st.setBlock none
          parseLoop p (value :: rest) st
        else do
          let st ← st.setBlock (some value)
          parseLoop p rest st

/-- What is checked behind the loop: what is missing, and what excludes what. -/
def validate (st : Parse D) : Except String Unit :=
  let o := st.options
  if o.password = [] then .error "--password is required"
  else if o.rootDir = [] then .error "Directory path is required"
  else if o.mode = .client ∧ o.serverHashWorkers ≠ 0 then .error "--server-hash-workers is server-only"
  else if o.mode = .client ∧ o.enableHashMemcache then .error "--enable-hash-memcache is server-only"
  else if o.mode = .server ∧ o.unbufferedWrites then .error "--unbuffered-writes is client-only"
  else if o.mode = .client ∧ o.exitAfterSync then .error "--once is server-only"
  else if o.mode = .client ∧ o.onceMulti then .error "--once-multi is server-only"
  else if o.mode = .client ∧ o.bindLoopback then .error "--bind-loopback is server-only"
  else if o.exitAfterSync ∧ o.onceMulti then .error "--once and --once-multi are mutually exclusive"
  else if o.largeFileBlockMode = .on ∧ o.largeFileLaneFlagged then
    .error ("--large-file-block and --large-file-lane are mutually exclusive: forced block " ++
      "mode cannot combine with lane pinning (use --large-file-block off + " ++
      "--large-file-lane, or drop --large-file-lane)")
  else if o.exitAfterSync ∧ o.enableHashMemcache then
    .error "--once and --enable-hash-memcache are mutually exclusive"
  else if st.sawIdleGrace ∧ ¬ o.onceMulti then .error "--once-idle-grace requires --once-multi"
  else if st.sawWaitConnectTimeout ∧ ¬ (o.exitAfterSync ∨ o.onceMulti) then
    .error "--wait-connect-timeout requires --once or --once-multi"
  else .ok ()

/-- The normalisation at the end: an empty list becomes `{host, port}`. -/
def Parse.normalised (p : Platform D) (st : Parse D) : Except String (Parse D) := do
  -- a list that is not empty is not compared with the host and the port
  let servers := if st.options.servers = [] then [(st.options.host, st.options.port)] else st.options.servers
  let rootDir ← p.weaklyCanonical st.options.rootDir
  return { st with options := { st.options with servers := servers, rootDir := rootDir } }

/-- How `ParseCliArgs` ends without options: the version is printed and the process exits, or it throws. -/
inductive Stop where
  | exit
  | error (message : String)
  deriving DecidableEq, Repr

/-- The options that the first argument gives to start with. -/
def initialOptions (p : Platform D) (mode : Text) : Option (CliOptions D) :=
  if mode = "server".toList then some { mode := .server, rootDir := p.currentPath, auxWeight := p.one }
  else if mode = "client".toList then some { mode := .client, auxWeight := p.one }
  else none

/-- `ParseCliArgs` with what is observed of it. -/
def parseArgs (p : Platform D) : List Text → Except Stop (Parse D)
  | [] => .error (.error "Mode is required")
  | mode :: args =>
    if mode = "--version".toList ∨ mode = "-v".toList ∨ mode = "version".toList then .error .exit
    else
      match initialOptions p mode with
      | none => .error (.error "First argument must be server or client")
      | some options =>
        Except.mapError Stop.error do
          let st ← parseLoop p args { options := options }
          validate st
          st.normalised p

/-- `ParseCliArgs`. -/
def parseCliArgs (p : Platform D) (args : List Text) : Except Stop (CliOptions D) := (parseArgs p args).map Parse.options

end FastClone.Cli
