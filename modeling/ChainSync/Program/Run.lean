import ChainSync.Node.Runner

/-!
# The program

What the program prints and logs, and how it ends: it shows help or its
version, or it loads its configuration and runs a node until interrupted.
-/

namespace ChainSync.Program

def versionNumber : String := "0.1.0"

inductive LogLevel
  | trace
  | debug
  | info
  | warn
  | error
deriving DecidableEq

namespace LogLevel

/-- Anything but the five names means `info`. -/
def ofName (s : String) : LogLevel :=
  match s.toLower with
  | "trace" => trace
  | "debug" => debug
  | "warn" => warn
  | "error" => error
  | _ => info

def severity : LogLevel → Nat
  | trace => 0
  | debug => 1
  | info => 2
  | warn => 3
  | error => 4

end LogLevel

structure LogLine where
  level : LogLevel
  target : String
  text : String

def LogLine.toText (l : LogLine) : String :=
  let level := match l.level with
    | .trace => "TRACE"
    | .debug => "DEBUG"
    | .info => "INFO"
    | .warn => "WARN"
    | .error => "ERROR"
  s!"{level} {l.target}: {l.text}"

structure Outcome where
  code : Nat
  log : List LogLine
  output : String
  error : Option String

/-- All that the program asks of the machine that it runs on. -/
structure Machine where
  /-- What a file holds, nothing if there is no such file. -/
  file : String → Except ConfigError (Option Bytes)
  canListen : SocketAddress → Bool

/-! ## Texts -/

def versionText : String :=
  s!"neo-node {versionNumber}\n"

def versionInfo : String :=
  s!"NEO Rust Node\nVersion: {versionNumber}\nProtocol: {protocolVersion.toNat}\n\n" ++
  "Built with:\n  Tokio for async runtime\n  Axum for the diagnostic API\n"

def helpText : String :=
  "NEO P2P synchronization node\n\nUsage: neo-node [OPTIONS]\n\nOptions:\n" ++
  "  -c, --config <CONFIG>        Path to configuration file [default: neo-node.toml]\n" ++
  "  -n, --network <NETWORK>      Network to connect to [default: mainnet]\n" ++
  "      --api-bind <API_BIND>    API bind address\n" ++
  "      --p2p-bind <P2P_BIND>    P2P bind address\n" ++
  "      --seed <SEED>            Seed address (repeatable); replaces the configured seed list\n" ++
  "      --no-api                 Do not serve the diagnostic API\n" ++
  "      --log-level <LOG_LEVEL>  Log level [default: info]\n" ++
  "      --version-info           Print version and exit\n" ++
  "  -h, --help                   Print help\n" ++
  "  -V, --version                Print version\n"

/-! ## Log lines -/

def note (text : String) : LogLine :=
  ⟨.info, "neo_node", text⟩

def serviceTarget : String := "neo_node::node"

def serviceNote (text : String) : LogLine :=
  ⟨.info, serviceTarget, text⟩

def startLine : LogLine :=
  note s!"Starting NEO Rust Node v{versionNumber}"

def configLines (c : NodeConfig) : List LogLine :=
  [note s!"Chain: {c.chain} (magic {c.magic.toNat})", note s!"P2P: {c.network.bindAddress}"] ++
  if c.api.enabled then [note s!"API: {c.api.bindAddress}"] else []

def apiLines (r : Runner) : List LogLine :=
  match r.apiAddress with
  | .ok (some addr) => [serviceNote s!"Starting API server on {addr.toText}"]
  | _ => []

def stoppedLine (r : Runner) : LogLine :=
  let status := r.service.node.status
  serviceNote s!"Node services stopped header_height={status.headerHeight} block_height={status.blockHeight}"

/-! ## Running -/

/-- A program that has been started: it has ended, or it serves until interrupted. -/
inductive Launch
  | ended (outcome : Outcome)
  | serving (level : LogLevel) (log : List LogLine) (r : Runner)

/-- The lines that are severe enough to be logged. -/
def logged (level : LogLevel) (lines : List LogLine) : List LogLine :=
  lines.filter (level.severity ≤ ·.level.severity)

def fail (level : LogLevel) (lines : List LogLine) (message : String) : Launch :=
  .ended ⟨1, logged level lines, "", some s!"Error: {message}"⟩

/-- Starts the services, of which one that fails is logged. -/
def launchServices [Digest] (machine : Machine) (level : LogLevel) (lines : List LogLine)
    (r : Runner) : Launch :=
  let lines := lines ++ serviceNote "Starting node services..." :: apiLines r
  match r.start machine.canListen with
  | .ok r => .serving level (logged level lines) r
  | .error e =>
    match e with
    | .apiAddress _ | .apiListen _ => fail level lines e.message
    | e =>
      fail level (lines ++ [⟨.error, serviceTarget, s!"Service error: {e.message}"⟩, stoppedLine r]) e.message

def launchNode [Digest] (machine : Machine) (o : Options) : Launch :=
  let level := LogLevel.ofName o.logLevel
  match (machine.file o.config).bind (NodeConfig.load · o) with
  | .error e => fail level [startLine] e.message
  | .ok c =>
    let lines := startLine :: configLines c
    match Runner.ofConfig c with
    | .error e => fail level lines e.message
    | .ok r => launchServices machine level lines r

def launch [Digest] (machine : Machine) (line : List String) : Launch :=
  match Options.parse line with
  | .error .displayHelp => .ended ⟨0, [], helpText, none⟩
  | .error .displayVersion => .ended ⟨0, [], versionText, none⟩
  | .error _ => .ended ⟨2, [], "", none⟩
  | .ok o => if o.versionInfo then .ended ⟨0, [], versionInfo, none⟩ else launchNode machine o

/-- The program is interrupted if it still serves. -/
def Launch.interrupt : Launch → Outcome
  | ended o => o
  | serving level log r =>
    let lines := [note "Shutdown signal received", stoppedLine r.stop, note "NEO node stopped"]
    ⟨0, log ++ logged level lines, "", none⟩

/-- A whole run, interrupted as soon as it serves. -/
def run [Digest] (machine : Machine) (line : List String) : Outcome :=
  (launch machine line).interrupt

end ChainSync.Program
