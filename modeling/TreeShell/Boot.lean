import TreeShell.Config
import TreeShell.Session.Basic

/-!
# Booting

From settings to a session: the tree is loaded from its store, or else from the seed, or else made
anew; missing unit files are written; the session starts. Each step that is done adds a line to the
boot log.
-/

namespace TreeShell

/-- The steps of booting. -/
inductive BootStage where
  | storage
  | filesystem
  | commands
  | shell
  deriving DecidableEq, Repr

/-- The name of a step. -/
def BootStage.name : BootStage → String
  | .storage => "storage"
  | .filesystem => "filesystem"
  | .commands => "commands"
  | .shell => "shell"

/-- Where the record of a tree comes from. -/
inductive Origin where
  | storage
  | seed (location : Location)
  deriving DecidableEq, Repr

/-- An origin in words. -/
def Origin.text : Origin → String
  | .storage => "storage"
  | .seed location => "seed " ++ location.text

/-- Why a seed cannot be read. -/
inductive SeedError where
  /-- Its file cannot be loaded. -/
  | load (error : LoadError)
  /-- Its folder gives no record. -/
  | folder (error : ImportError)

/-- What is said of a seed that cannot be read. -/
def SeedError.message : SeedError → String
  | .load error => error.message
  | .folder error => error.message

/-- Why a boot fails. -/
inductive BootError where
  /-- The store cannot be read. -/
  | store (error : LoadError)
  /-- The seed cannot be read. -/
  | seed (location : Location) (error : SeedError)
  /-- The record is no tree. -/
  | corrupt (origin : Origin) (error : RecordError)
  /-- The record is no tree in a way that is not looked for. -/
  | shapeless (error : RecordError)
  /-- The home directory or that of unit files cannot be made. -/
  | tree (error : PathError)
  /-- The tree can never be saved. -/
  | save (error : HostError)

/-- What is said when a boot fails. -/
def BootError.message : BootError → String
  | .store error => "Cannot load filesystem from storage: " ++ error.message
  | .seed location error => "Cannot read seed " ++ location.text ++ ": " ++ error.message
  | .corrupt origin error =>
    "Corrupt filesystem record from " ++ origin.text ++ ": " ++ error.message
  | .shapeless error => error.message
  | .tree error => error.message
  | .save error => error.message

/-- A boot, as far as it has come. -/
structure Boot where
  config : Config
  store : Store
  stage : BootStage
  /-- The boot log. -/
  lines : List String
  /-- What was noted before the boot began. -/
  journal : Journal

namespace Boot

/-- A boot that has not begun. -/
def start (config : Config) (store : Store) : Boot :=
  ⟨config, store, .storage, [], Journal.usual⟩

/-- The text of the file that greets a new user. -/
def welcome : String :=
  "# Welcome to py-sh\n\n" ++
    "A small shell over a virtual filesystem.\n\n" ++
    "- `help` lists the commands.\n" ++
    "- `ls -la`, `cat`, `mkdir -p`, `mv`, `rm -r` work on this tree.\n" ++
    "- Pipes and redirections work too: `ls | grep md > found.txt`.\n" ++
    "- Press Tab to complete commands and paths.\n"

/-- The record that the seed gives, if there is a seed and something there. -/
def seedRecord (c : Config) (disk : Disk) : Except BootError (Option (Origin × Json)) :=
  match c.seed with
  | none => .ok none
  | some l =>
    match disk.isFolder l with
    | .error e => .error (.seed l (.load (.host e)))
    | .ok true =>
      match disk.folderRecord l "/" with
      | .ok record => .ok (some (.seed l, record))
      | .error e => .error (.seed l (.folder e))
    | .ok false =>
      match disk.loadRecord l with
      | .ok record => .ok (record.map fun record => (.seed l, record))
      | .error e => .error (.seed l (.load e))

/-- The record that a boot starts from, if there is one: that of the store before that of the
seed. -/
def record (b : Boot) (s : Storage) : Except BootError (Option (Origin × Json)) :=
  match b.store.load s with
  | .error e => .error (.store e)
  | .ok (some record) => .ok (some (.storage, record))
  | .ok none => seedRecord b.config s.disk

/-- What an error in a record is to a boot. -/
def ofRecordError (origin : Origin) (e : RecordError) : BootError :=
  match e with
  | .notFields | .timeInfinite => .shapeless e
  | _ => .corrupt origin e

/-- The edits that make the usual tree. -/
def usualTree (c : Config) : List Edit :=
  [.makeDirectories c.home, .makeDirectories "/tmp",
    .write (Text.withoutEndSlashes c.home ++ "/README.md") (.string welcome) false]

/-- A line of the boot log, noted in the journal too. -/
def done (b : Boot) (message : String) (v : Volume) : Boot × Volume :=
  ({ b with lines := b.lines ++ ["[OK] " ++ message] }, v.note .info .boot message)

/-- The volume of a boot before there is a tree. -/
def blankVolume (b : Boot) (clock : Int) (s : Storage) : Volume :=
  ⟨Tree.empty clock, some b.store, s, b.journal, clock⟩

/-- The volume with the tree that a record gives or, without one, with the usual tree; what that is
called in the boot log. -/
def fill (b : Boot) (v : Volume) : Option (Origin × Json) → Except BootError String × Volume
  | none =>
    match v.performAll (usualTree b.config) with
    | (.ok _, v) => (.ok "Created default filesystem", v)
    | (.error e, v) => (.error (.tree e), v)
  | some (origin, record) =>
    match Tree.ofRecord v.clock record with
    | .error e => (.error (ofRecordError origin e), v)
    | .ok tree =>
      match { v with tree }.perform "/" (.makeDirectories b.config.home) with
      | (.error e, v) => (.error (.tree e), v)
      | (.ok _, v) =>
        (.ok ("Loaded filesystem from " ++ origin.text), if origin = .storage then v else v.save)

/-- The session that a boot ends with, on a volume with its unit files. -/
def session (b : Boot) (registry : Registry) (v : Volume) : Session :=
  .start v ⟨OrderedMap.ofList b.config.startVariables⟩ registry usualAliases

/-- Write the unit files and start the session, on a volume with its tree. -/
def finish (b : Boot) (registry : Registry) (v : Volume) :
    Except BootError Session × Boot × Storage :=
  let b := { b with stage := .commands }
  match v.install registry b.config.bin with
  | (.error e, v) => (.error (.tree e), b, v.storage)
  | (.ok names, v) =>
    let (b, v) :=
      b.done ("Installed " ++ toString names.length ++ " command units in " ++ b.config.bin) v
    let (b, v) :=
      { b with stage := .shell }.done
        ("Shell ready for " ++ b.config.user ++ "@" ++ b.config.hostname) v
    (.ok (b.session registry v), b, v.storage)

/-- Boot at a time, with the commands of a registry: the session or why there is none, how far the
boot came, and the storage then. -/
def run (b : Boot) (registry : Registry) (clock : Int) (s : Storage) :
    Except BootError Session × Boot × Storage :=
  let b := { b with stage := .filesystem }
  match b.record s with
  | .error e => (.error e, b, s)
  | .ok record =>
    match b.fill (b.blankVolume clock s) record with
    | (.error e, v) => (.error e, b, v.storage)
    | (.ok message, v) =>
      match b.store.refusal? with
      | some e => (.error (.save e), b, v.storage)
      | none =>
        let (b, v) := b.done message v
        b.finish registry v

/-- What is noted when a store is cleared. -/
def clearedMessage : String := "storage cleared"

/-- Forget the saved tree before the boot begins. -/
def forget (b : Boot) (clock : Int) (s : Storage) : Except HostError Boot × Storage :=
  match b.store.clear s with
  | (.error e, s) => (.error e, s)
  | (.ok _, s) =>
    (.ok { b with journal := b.journal.note clock .info .boot clearedMessage }, s)

end Boot

/-- The store that settings ask for; one in memory is made new. -/
def Storage.storeFor (s : Storage) (c : Config) : Storage × Store :=
  match c.store with
  | some l => (s, .file l)
  | none => s.addCell none

end TreeShell
