import Rendezvous.Startup.Daemon

/-!
# The daemon

The command line. The first argument is the path of the configuration. The daemon tells how its
start goes, and stops when its standard input ends.
-/

namespace Rendezvous

/-- A disk with the file at a path, if there is one. -/
def diskWithFile (path : String) : IO Disk := do
  try
    let bytes ← IO.FS.readBinFile path
    return Disk.withFile {} path bytes.toList
  catch _ => return {}

partial def awaitEnd (input : IO.FS.Stream) : IO Unit := do
  let line ← input.getLine
  unless line.isEmpty do awaitEnd input

/-- Starts the daemon, waits, and ends with its exit code. -/
def runDaemon (arguments : List String) : IO UInt32 := do
  let disk ← diskWithFile (arguments.headD defaultConfigPath)
  let token ← IO.getEnv "HOSTDIR_TOKEN"
  let filter ← IO.getEnv "RUST_LOG"
  let report := Daemon.run { arguments, disk, token } filter
  report.opening.forM IO.println
  if report.exitCode = 0 then awaitEnd (← IO.getStdin)
  report.closing.forM IO.println
  IO.eprint report.complaint
  return UInt32.ofNat report.exitCode

end Rendezvous

def main (arguments : List String) : IO UInt32 := Rendezvous.runDaemon arguments
