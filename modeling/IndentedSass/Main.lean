import IndentedSass.Tool.Command

/-!
# The program

Runs the command line on the files of the machine: the working directory is read, the command is run
on that picture of it, and the files that it has written are stored.
-/

namespace IndentedSass.Main
open Tool

/-- The bytes of a file. -/
def readBytes (path : String) : IO Text := do
  return (← IO.FS.readBinFile path).data.toList

/-- Whether a file can matter to a command. -/
def matters (name : Text) : Bool :=
  [".sass", ".css", ".yaml", ".yml"].any fun ext => Path.ext name = Text.ofString ext

/-- Adds the files and directories below a directory to a disk. -/
partial def readTree (disk : Disk) (dir : String) : IO Disk := do
  let mut disk := disk
  for entry in ← ((← IO.currentDir) / dir).readDir do
    let path := entry.path.toString
    let place := (Text.ofString path).drop 1
    if ← entry.path.isDir then
      disk ← readTree (disk.makeDir place) path
    else if matters place then
      let time := (← entry.path.metadata).modified.sec
      disk := disk.write place ⟨← readBytes path, time⟩
  return disk

/-- A picture of the machine: the working directory and a configuration file. -/
def readMachine (config : Text) : IO Machine := do
  let workDir := (← IO.currentDir).toString
  let mut disk ← readTree ⟨[], [(Text.ofString workDir).drop 1], true⟩ workDir
  let m := Machine.new disk (Text.ofString workDir) ⟨[], [], 0⟩
  match m.locate config with
  | .ok place =>
    if !config.isEmpty && (m.disk.file? place).isNone then
      try disk := disk.write place ⟨← readBytes config.display, 0⟩
      catch _ => pure ()
    return Machine.new disk (Text.ofString workDir) ⟨[], [], 0⟩
  | .error _ => return m

/-- Stores the files that are new or changed. -/
def store (before after : Disk) : IO Unit := do
  for dir in after.dirs do
    if !before.isDir dir then IO.FS.createDirAll ("/" ++ dir.display)
  for (place, file) in after.files do
    if (before.file? place).map File.text != some file.text then
      IO.FS.writeBinFile ("/" ++ place.display) ⟨file.text.toArray⟩

/-- Reports a fault. -/
def complain (fault : Fault) : IO UInt32 := do
  IO.eprintln fault.text.display
  return 1

/-- Runs a command once. -/
def runOnce (command : Command) : IO UInt32 := do
  let m ← readMachine (command.given.text "config" [])
  let (out, result, m') := command.run m
  IO.print out.display
  store m.disk m'.disk
  match result with
  | .ok () => return 0
  | .error fault => complain fault

/-- Runs a watching command: looks for changes ten times a second and builds again after each. -/
partial def runWatching (command : Command) (last : List (Text × File)) : IO UInt32 := do
  let m ← readMachine (command.given.text "config" [])
  let sources := m.disk.files.filter fun entry => Path.ext entry.1 = Library.extension
  if sources = last then
    IO.sleep 100
    runWatching command last
  else
    let code ← runOnce command
    if last.isEmpty && code != 0 then return code
    runWatching command sources

end IndentedSass.Main

/-- Runs a command line. -/
def main (args : List String) : IO UInt32 := do
  match IndentedSass.Tool.Command.parse (args.map IndentedSass.Text.ofString) with
  | .error fault => IndentedSass.Main.complain fault
  | .ok command =>
    match command.job with
    | .watch .. => IndentedSass.Main.runWatching command []
    | _ => IndentedSass.Main.runOnce command
