import ChainSync.Hash.Sha256
import ChainSync.Program.Run

/-!
# The executable

Hands the command line and the configuration file to the program and
prints what it says. Between two ticks the node rests; having no network
below it, each of its dials fails.
-/

namespace ChainSync.Main

def readFile (path : String) : IO (Except ConfigError (Option Bytes)) := do
  try
    return .ok (some (← IO.FS.readBinFile path).toList)
  catch
    | .noFileOrDirectory .. => return .ok none
    | _ => return .error .unreadable

def printLog (log : List Program.LogLine) : IO Unit := do
  for line in log do
    IO.println line.toText

/-- How long the node rests, in milliseconds. -/
def restMillis : UInt32 := 100

/-- Keeps the node's timers going until the process is ended from outside. -/
partial def serve (s : Service) : IO UInt32 := do
  IO.sleep restMillis
  serve (s.advance (.ofMillis restMillis.toNat)).settle

def run (args : List String) : IO UInt32 := do
  let file ← match Options.parse args with
    | .ok o => readFile o.config
    | .error e => do
      unless e.isRequest do IO.eprintln s!"error: {e.message}"
      pure (.ok none)
  match Program.launch ⟨fun _ => file, fun _ => true⟩ args with
  | .ended o =>
    printLog o.log
    IO.print o.output
    if let some e := o.error then IO.eprintln e
    return o.code.toUInt32
  | .serving _ log r =>
    printLog log
    serve r.service

end ChainSync.Main

def main (args : List String) : IO UInt32 :=
  ChainSync.Main.run args
