import RollingCapture.CommandLine

/-! The program itself. It takes the files that its arguments name from the system, works on them as
values, and gives back the files that are new or changed. -/
namespace RollingCapture

open CommandLine (Options)

/-- A disk on which relative paths begin in the directory where the program was started. -/
def startingDisk : IO Disk := do
  let directory ← IO.currentDir
  let home := Disk.fresh.named ("/" ++ directory.toString)
  return { Disk.fresh.makeDirectories home with home }

/-- Puts the readable ones of the named files on a disk. -/
def loadFiles (d : Disk) : List String → IO Disk
  | [] => return d
  | path :: rest => do
    match ← (IO.FS.readBinFile path).toBaseIO with
    | .ok bytes => loadFiles (d.addFileWith path bytes.data) rest
    | .error _ => loadFiles d rest

/-- Writes the files that `before` did not hold as they are now. -/
def saveFiles (before after : Disk) : IO Unit := do
  let known := { before with home := [] }.files
  for (path, bytes) in { after with home := [] }.files do
    if known.lookup path ≠ some bytes then
      IO.FS.writeBinFile ("/" ++ path) ⟨bytes⟩

end RollingCapture

open RollingCapture in
def main (args : List String) : IO UInt32 := do
  let settings := ((CommandLine.Options.parse args).getD {}).settings
  let start ← startingDisk
  let start := start.makeDirectories (start.named settings.pattern).dropLast
  let disk ← loadFiles start (settings.inputs ++ settings.filterFile.toList)
  let (outcome, world) :=
    CommandLine.run args { disk, library := Capture.Library.load [] none }
  saveFiles disk world.disk
  (← IO.getStdout).putStr outcome.out
  (← IO.getStderr).putStr outcome.err
  return outcome.code.toUInt32
