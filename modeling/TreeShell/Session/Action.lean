import TreeShell.Calendar
import TreeShell.Session.Basic
import TreeShell.Stage

/-!
# Actions

What a command does: it reads and writes streams, changes the session, and may fail. What was done
before a failure stays done.
-/

namespace TreeShell

/-- Why a command fails. -/
inductive Fault where
  /-- The tree refuses. -/
  | path (error : PathError)
  /-- What a file holds does not allow it. -/
  | content (error : ContentError)
  /-- A time has no date. -/
  | time (error : Calendar.TimeError)
  /-- A number cannot be read. -/
  | numeral (error : Text.NumeralError)
  /-- An argument is missing. -/
  | noArgument
  /-- The command was told to fail with this message. -/
  | told (message : String)
  deriving Repr

/-- What a refusal of the tree is to a command. -/
def Fault.ofPathError : PathError → Fault
  | .content error => .content error
  | error => .path error

/-- What is said when a command fails. -/
def Fault.message : Fault → String
  | .path error => error.message
  | .content error => error.message
  | .time error => error.message
  | .numeral error => error.message
  | .noArgument => "list index out of range"
  | .told message => message

/-- What a command is given. -/
structure Context where
  cwd : String
  /-- A copy of the variables. -/
  env : OrderedMap String String
  arguments : List String
  options : Options
  /-- The words after the command, as they were written. -/
  words : List String
  ends : Ends
  deriving Inhabited

/-- Whether one of some options is set. -/
def Context.flag (ctx : Context) (names : List String) : Bool :=
  names.any fun name => ((ctx.options.get? name).map OptionValue.isSet).getD false

/-- A session with the streams of the line that is being run. -/
structure Job where
  session : Session
  pool : Pool
  deriving Inhabited

namespace Job

/-- The volume and the streams. -/
def wiring (j : Job) : Wiring := ⟨j.session.volume, j.pool⟩

/-- The job with another volume and other streams. -/
def rewire (j : Job) (w : Wiring) : Job :=
  { session := { j.session with volume := w.volume }, pool := w.pool }

/-- Write a text to a stream. -/
def write (j : Job) (stream : Nat) (text : String) : Except PathError Unit × Job :=
  ((j.wiring.write stream text).1, j.rewire (j.wiring.write stream text).2)

/-- What a stream has kept; nothing is left of it there. -/
def read (j : Job) (stream : Nat) : String × Job :=
  ((j.pool.read stream).1, { j with pool := (j.pool.read stream).2 })

/-- Write a text to a stream, or to another if the first refuses it; it fails if the first leads to
a file that no text can be put behind. -/
def report (j : Job) (stream fallback : Nat) (text : String) : Except ContentError Unit × Job :=
  match j.write stream text with
  | (.ok _, j) => (.ok (), j)
  | (.error (.content e), j) => (.error e, j)
  | (.error _, j) => (.ok (), (j.write fallback text).2)

/-- Note something in the journal. -/
def note (j : Job) (level : Level) (source : Source) (message : String) : Job :=
  { j with session := j.session.note level source message }

end Job

/-- What a command does. -/
abbrev Action := ExceptT Fault (StateM Job)

namespace Action

/-- The session as it is. -/
def session : Action Session := return (← get).session

/-- Change the session. -/
def change (f : Session → Session) : Action Unit :=
  modify fun j => { j with session := f j.session }

/-- Do what may be refused by the tree. -/
def allow {α : Type} (f : Job → Except PathError α × Job) : Action α := do
  match f (← get) with
  | (.ok a, j) => set j; return a
  | (.error e, j) => set j; throw (.ofPathError e)

/-- The refusal by the tree that an action fails with, if it does; other failures are kept. -/
def attempt {α : Type} (action : Action α) : Action (Except PathError α) :=
  tryCatch (action >>= fun a => return .ok a) fun
    | .path e => return .error e
    | fault => throw fault

/-- Ask the tree. -/
def ask {α : Type} (f : Tree → Except PathError α) : Action α := do
  match f (← session).volume.tree with
  | .ok a => return a
  | .error e => throw (.ofPathError e)

/-- The text that an operation needs of what a file holds. -/
def need (text : Except ContentError String) : Action String :=
  match text with
  | .ok text => return text
  | .error e => throw (.content e)

/-- Change the tree. -/
def edit (cwd : String) (e : Edit) : Action Unit :=
  allow fun j =>
    let (result, volume) := j.session.volume.perform cwd e
    (result, { j with session := { j.session with volume } })

/-- Write a text to a stream. -/
def write (stream : Nat) (text : String) : Action Unit := allow fun j => j.write stream text

/-- What a stream has kept. -/
def read (stream : Nat) : Action String :=
  allow fun j => let (text, j) := j.read stream; (.ok text, j)

/-- Write a text to the output. -/
def put (ctx : Context) (text : String) : Action Unit := write ctx.ends.output text

/-- Write a line to the output. -/
def putLine (ctx : Context) (line : String) : Action Unit := put ctx (line ++ "\n")

/-- Write a line to the error output. -/
def complain (ctx : Context) (line : String) : Action Unit :=
  write ctx.ends.errors (line ++ "\n")

/-- The code of success. -/
def success : Int := 0

/-- The code of failure. -/
def failure : Int := 1

/-- The code of wrong use. -/
def usage : Int := 2

/-- The code for a command that is not found. -/
def unknown : Int := 127

/-- Do something for each of some things, and fail in the end if it failed for one of them. -/
def each {α : Type} (action : α → Action Bool) : List α → Action Int
  | [] => return success
  | a :: rest => do
    let done ← action a
    let code ← each action rest
    return if done then code else failure

/-- Do what the tree may refuse; a refusal is reported in the given words. -/
def orComplain (ctx : Context) (words : PathError → String) (action : Action Unit) :
    Action Bool := do
  match ← attempt action with
  | .ok _ => return true
  | .error e => complain ctx (words e); return false

end Action

end TreeShell
