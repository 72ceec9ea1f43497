import TreeShell.Arguments
import TreeShell.Banner
import TreeShell.Boot
import TreeShell.Session.Run

/-!
# The terminal

A run of the program as a function of its arguments, the host's variables and disk, and the lines
that are typed: what it prints and the code it ends with. Without a line among its arguments it
prompts, until the input is closed, an interrupt comes or a line asks for the end.
-/

namespace TreeShell.Terminal

/-- Why a run ends without a code of a line. -/
inductive Failure where
  /-- The arguments end the program. -/
  | exit (code : Nat)
  /-- A location begins with a tilde that gives no home directory. -/
  | home (error : Location.HomeError)
  /-- The saved tree cannot be forgotten. -/
  | host (error : HostError)
  /-- There is no session. -/
  | boot (error : BootError)
  /-- A line breaks off. -/
  | line (breakdown : Breakdown)

/-- What is said when a run ends without a code of a line; nothing, when the arguments end it. -/
def Failure.message : Failure → String
  | .exit _ => ""
  | .home error => error.message
  | .host error => error.message
  | .boot error => error.message
  | .line breakdown => breakdown.message

/-- What a run comes to. -/
structure Outcome where
  code : Except Failure Int
  output : String
  errors : String
  disk : Disk

/-- What surrounds a run. -/
structure Surroundings where
  /-- The host's variables. -/
  lookup? : String → Option String
  /-- The home directory on the host. -/
  home : String
  registry : Registry
  clock : Int

/-- What clears the display. -/
def clearText : String := "\x1b[2J\x1b[H"

/-- The text that clears the display a number of times. -/
def clearing (count : Nat) : String := String.join (List.replicate count clearText)

/-- The lines that end a conversation. -/
def exitLines : List String := ["exit", "logout"]

/-- What is typed at a prompt. -/
inductive Typed where
  | line (text : String)
  | interrupt
  /-- There is nothing more to read. -/
  | closed
  deriving DecidableEq, Repr

/-- What has been printed. -/
structure Printed where
  output : String
  errors : String

/-- What is printed after something else. -/
def Printed.append (p q : Printed) : Printed := ⟨p.output ++ q.output, p.errors ++ q.errors⟩

/-- What comes of something that is typed. -/
structure Reply where
  /-- The code of the last line, or why there is none. -/
  code : Except Failure Int
  printed : Printed
  session : Session
  /-- Whether another prompt follows. -/
  goesOn : Bool

/-- Run one line: its code, what is printed, and the session after it. -/
def runLine (s : Session) (line : String) : Except Failure Int × Printed × Session :=
  let (result, next) := s.run line
  (result.code.mapError .line,
    ⟨clearing (next.clears - s.clears) ++ result.output, result.errors⟩, next)

/-- Answer what is typed, after a line with the given code. -/
def reply (code : Int) (s : Session) : Typed → Reply
  | .closed => ⟨.ok code, ⟨"\n", ""⟩, s, false⟩
  | .interrupt => ⟨.ok code, ⟨"\nInterrupted.\n", ""⟩, s, false⟩
  | .line text =>
    if exitLines.contains (Text.trimmed text) then ⟨.ok code, ⟨"", ""⟩, s, false⟩
    else
      let (code, printed, next) := runLine s text
      ⟨code, printed, next, code.toOption.isSome⟩

/-- Prompt and answer until a reply ends it; the input is closed after what is typed. -/
def converse (code : Int) (p : Printed) (s : Session) :
    List Typed → Except Failure Int × Printed × Session
  | [] =>
    let r := reply code s .closed
    (r.code, (p.append ⟨s.prompt, ""⟩).append r.printed, r.session)
  | typed :: rest =>
    let r := reply code s typed
    let p := (p.append ⟨s.prompt, ""⟩).append r.printed
    match r.code, r.goesOn with
    | .ok code, true => converse code p r.session rest
    | code, _ => (code, p, r.session)

/-- How a run begins. -/
inductive Opening where
  /-- It ends without a prompt. -/
  | over (outcome : Outcome)
  /-- It goes on with prompts, after a banner. -/
  | prompting (banner : String) (session : Session)

/-- A run that ends before there is a session. -/
def failed (f : Failure) (disk : Disk) : Opening := .over ⟨.error f, "", "", disk⟩

/-- What an order comes to that orders nothing: no line can be taken from it. -/
def nothingToRun : Breakdown := .content (.noOperation "list" "strip")

/-- Boot, and run the line that is given if there is one. -/
def openBooted (around : Surroundings) (a : Arguments) (b : Boot) (storage : Storage) : Opening :=
  match b.run around.registry around.clock storage with
  | (.error e, _, storage) => failed (.boot e) storage.disk
  | (.ok s, b, _) =>
    match a.command with
    | none => .prompting (Banner.text b.lines ++ "\n") s
    | some .nothing => failed (.line nothingToRun) s.volume.storage.disk
    | some (.line text) =>
      let (code, p, s) := runLine s text
      .over ⟨code, p.output, p.errors, s.volume.storage.disk⟩

/-- Begin a run with settings. -/
def openWith (around : Surroundings) (disk : Disk) (a : Arguments) (config : Config) : Opening :=
  let (storage, store) := (⟨disk, []⟩ : Storage).storeFor config
  let b := Boot.start config store
  if a.reset then
    match b.forget around.clock storage with
    | (.error e, storage) => failed (.host e) storage.disk
    | (.ok b, storage) => openBooted around a b storage
  else openBooted around a b storage

/-- Begin a run of the program. -/
def begin (around : Surroundings) (disk : Disk) (words : List String) : Opening :=
  match Arguments.read words with
  | .exit code => failed (.exit code) disk
  | .run a =>
    match Config.ofVariables around.home around.lookup? with
    | .error e => failed (.home e) disk
    | .ok config => openWith around disk a config

/-- A run of the program. -/
def run (around : Surroundings) (disk : Disk) (words : List String) (typed : List Typed) :
    Outcome :=
  match begin around disk words with
  | .over outcome => outcome
  | .prompting banner s =>
    let (code, p, s) := converse 0 ⟨banner, ""⟩ s typed
    ⟨code, p.output, p.errors, s.volume.storage.disk⟩

end TreeShell.Terminal
