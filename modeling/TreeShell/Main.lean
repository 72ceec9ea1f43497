import Std.Time.DateTime.Timestamp
import TreeShell.Terminal

/-!
# The program

Carries out what the terminal decides. The variables and the files that the settings name are read
from the host, lines are read and answered one at a time, and after each of them the file of the
store is written as the disk then has it. A seed is read if it is a file.
-/

namespace TreeShell.Main

/-- The time, in milliseconds since the beginning of 1970. -/
def now : IO Int := return (← Std.Time.Timestamp.now).toMillisecondsSinceUnixEpoch.toInt

/-- The variables of the host that give settings, as far as they are set. -/
def hostVariables : IO (List (String × String)) :=
  Config.variableNames.filterMapM fun name => return (← IO.getEnv name).map (name, ·)

/-- A disk with the file of the host at a location, if there is one. -/
def addFile (d : Disk) (l : Location) : IO Disk := do
  match ← (IO.FS.readBinFile l.text).toBaseIO with
  | .error _ => return d
  | .ok bytes => return ((d.makeParents l).2.writeBytes l bytes.toList).toOption.getD d

/-- Bring the file of the host at a location to what a disk holds, if it held something else. -/
def writeBack (before after : Disk) (l : Location) : IO Unit := do
  match before.readBytes l, after.readBytes l with
  | old, .ok bytes =>
    unless old.toOption = some bytes do
      IO.FS.createDirAll l.parent.text
      IO.FS.writeBinFile l.text ⟨bytes.toArray⟩
  | .ok _, .error _ => IO.FS.removeFile l.text
  | .error _, .error _ => return

/-- Write back what a store has on a disk; a failure is told, and nothing else. -/
def keep (store : Option Location) (before after : Disk) : IO Unit := do
  match store with
  | none => return
  | some l =>
    try writeBack before after l
    catch e => IO.eprintln (toString e)

/-- Print what is to be printed. -/
def print (p : Terminal.Printed) : IO Unit := do
  IO.print p.output
  (← IO.getStdout).flush
  IO.eprint p.errors

/-- Read what is typed. -/
def readTyped : IO Terminal.Typed := do
  let line ← (← IO.getStdin).getLine
  if line.isEmpty then return .closed
  return .line (Text.withoutTail line "\n")

/-- The code that the program ends with. -/
def exitCode : Except Terminal.Failure Int → IO UInt32
  | .ok code => return UInt32.ofInt (code.emod 256)
  | .error (.exit code) => return UInt32.ofNat code
  | .error e => do
    IO.eprintln e.message
    return 1

/-- Prompt, read and answer until a reply ends it. -/
partial def converse (store : Option Location) (code : Int) (s : Session) : IO UInt32 := do
  print ⟨s.prompt, ""⟩
  let typed ← readTyped
  let r := Terminal.reply code (s.atTime (← now)) typed
  print r.printed
  keep store s.volume.storage.disk r.session.volume.storage.disk
  match r.code, r.goesOn with
  | .ok code, true => converse store code r.session
  | code, _ => exitCode code

/-- Run the program with its arguments. -/
def run (words : List String) : IO UInt32 := do
  let known ← hostVariables
  let home := (← IO.getEnv "HOME").getD "/"
  let clock ← now
  let around : Terminal.Surroundings := ⟨fun name => known.lookup name, home, builtIns, clock⟩
  let config := (Config.ofVariables home around.lookup?).toOption
  let store := config.bind Config.store
  let places := store.toList ++ (config.bind Config.seed).toList
  let disk ← places.foldlM addFile (Disk.blank ⟨clock, clock⟩)
  match Terminal.begin around disk words with
  | .over o =>
    print ⟨o.output, o.errors⟩
    keep store disk o.disk
    exitCode o.code
  | .prompting banner s =>
    print ⟨banner, ""⟩
    keep store disk s.volume.storage.disk
    converse store 0 s

end TreeShell.Main

/-- The program. -/
def main : List String → IO UInt32 := TreeShell.Main.run
