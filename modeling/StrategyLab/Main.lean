/-
The program: it runs a command line on the files and the clock of the machine, prints what comes
of it, and writes the files of a run.
-/
import Std.Time.DateTime.Timestamp
import StrategyLab.CommandLine.Program
import StrategyLab.Number.Double

namespace StrategyLab.CommandLine

/-- What is found under a path on the machine. -/
def entryOnDisk (path : String) : IO Entry := do
  try
    let text ← IO.FS.readFile path
    pure (.file text)
  catch
    | .noFileOrDirectory .. => pure .nothing
    | .inappropriateType _ 21 _ => pure .directory
    | .inappropriateType .. => pure .blocked
    | e => throw e

/-- The nanoseconds on the clock of the machine. -/
def machineClock : IO Int := do
  let now ← Std.Time.Timestamp.now
  pure now.toNanosecondsSinceUnixEpoch.val

/-- The machine. -/
def machine : Outside IO := { find := entryOnDisk, clock := machineClock }

/-- Writes the files of a run. -/
def writeRun (directory : String) (files : Directory) : IO Unit := do
  IO.FS.createDirAll directory
  for (name, text) in files do
    IO.FS.writeFile (Path.join directory name) text

/-- The exit code of an ending, after saying what there is to say about it. -/
def exitCode : Ending Float → IO UInt32
  | .code n => pure (UInt32.ofNat n)
  | .complaint text => do
    IO.eprintln text
    pure 1
  | .fault f => do
    IO.eprintln (f.kind.name ++ ": " ++ f.message)
    pure 1

end StrategyLab.CommandLine

open StrategyLab.CommandLine in
def main (line : List String) : IO UInt32 := do
  let outcome : Outcome Float ← run machine line
  for (directory, files) in outcome.saved do
    writeRun directory files
  IO.print outcome.output
  for message in outcome.log do
    IO.eprintln ("ERROR - " ++ message)
  exitCode outcome.ending
