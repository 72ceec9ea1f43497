import TreeShell.Line.Pipeline
import TreeShell.Utility

/-!
# Running lines

The stages of a line run one after another, each to its end. What one writes to its output is the
input of the next, unless its output is redirected; the last one writes to the display. The first
stage that exits with a code other than zero ends the line. A stage that cannot be read, or whose
streams cannot be opened, counts as failed; so does one whose command fails. A line breaks off at
digits that stand for no number, and at a file that would have to hold a text and does not.
-/

namespace TreeShell

/-- Why a line breaks off without a code. -/
inductive Breakdown where
  /-- Digits stand for no number. -/
  | numeral (error : Text.NumeralError)
  /-- A file does not hold a text. -/
  | content (error : ContentError)
  deriving Repr

/-- What is said of a line that breaks off. -/
def Breakdown.message : Breakdown → String
  | .numeral error => error.message
  | .content error => error.message

namespace Job

/-- The context of a command in a stage that begins in a working directory. -/
def contextOf (j : Job) (stage : Stage) (cwd : String) : Context :=
  let (arguments, options) := Options.sort stage.arguments
  { cwd, env := j.session.env.vars, arguments, options, words := stage.arguments
    ends := stage.ends }

/-- The code of a stage after a report on it. -/
def codeAfter (code : Int) : Except ContentError Unit × Job → Except Breakdown Int × Job
  | (.ok _, j) => (.ok code, j)
  | (.error e, j) => (.error (.content e), j)

/-- Run the command of a stage; a failure is noted and reported. -/
def runProgram (c : Command) (name : String) (ctx : Context) (fallback : Nat) (j : Job) :
    Except Breakdown Int × Job :=
  match (c.program.run ctx).run.run j with
  | (.ok code, j) => (.ok code, j)
  | (.error fault, j) =>
    codeAfter Action.failure
      ((j.note .error .shell (name ++ ": " ++ fault.message)).report ctx.ends.errors fallback
        (name ++ ": " ++ fault.message ++ "\n"))

/-- Find and run the command of a stage that is ready. -/
def runCommand (name : String) (stage : Stage) (cwd : String) (fallback : Nat) (j : Job) :
    Except Breakdown Int × Job :=
  match j.session.volume.loadCommand j.session.registry name j.session.bin with
  | (.error (.content e), _) => (.error (.content e), j)
  | (.error _, volume) =>
    codeAfter Action.unknown
      ({ j with session := { j.session with volume } }.report stage.ends.errors fallback
        (name ++ ": command not found\n"))
  | (.ok c, volume) =>
    let j := { j with session := { j.session with volume } }
    runProgram c name (j.contextOf stage cwd) fallback j

/-- Run a stage that starts with some streams: its code, and whether its output is redirected. -/
def runStage (command : String) (defaults : Ends) (j : Job) :
    Except Breakdown (Int × Bool) × Job :=
  let cwd := j.session.cwd
  match Stage.resolve command defaults cwd j.wiring with
  | (.error (.line (.numeral e)), w) => (.error (.numeral e), j.rewire w)
  | (.error (.content e), w) => (.error (.content e), j.rewire w)
  | (.error (.line e), w) =>
    (.ok (Action.usage, false),
      ((j.rewire w).write defaults.errors ("py-sh: " ++ e.message ++ "\n")).2)
  | (.error e, w) =>
    (.ok (Action.failure, false),
      ((j.rewire w).write defaults.errors ("py-sh: " ++ e.message ++ "\n")).2)
  | (.ok stage, w) =>
    match stage.name with
    | none => (.ok (Action.success, stage.outputRedirected), j.rewire w)
    | some name =>
      let (code, j) := (j.rewire w).runCommand name stage cwd defaults.errors
      (code.map (·, stage.outputRedirected), j)

/-- Open a stream that keeps a text. -/
def addKeeping (j : Job) (text : String) : Job × Nat :=
  ({ j with pool := (j.pool.addKeeping text).1 }, (j.pool.addKeeping text).2)

/-- Run stages one after another, the first with `piped` as its input; the last writes to the stream
`output`, and all of them report to the stream `errors`. -/
def runStages (output errors : Nat) : (index : Nat) → (piped : String) → List String → Job →
    Except Breakdown Int × Job
  | _, _, [], j => (.ok Action.success, j)
  | _, piped, [command], j =>
    let (j, input) := j.addKeeping piped
    match j.runStage (j.session.expandAlias command) ⟨input, output, errors⟩ with
    | (.error e, j) => (.error e, j)
    | (.ok (code, _), j) => (.ok code, j)
  | index, piped, command :: next :: rest, j =>
    let (j, input) := j.addKeeping piped
    let (j, between) := j.addKeeping ""
    match j.runStage (j.session.expandAlias command) ⟨input, between, errors⟩ with
    | (.error e, j) => (.error e, j)
    | (.ok (code, redirected), j) =>
      if code ≠ Action.success then
        (.ok code,
          j.note .debug .shell
            ("pipeline halted at stage " ++ toString (index + 1) ++ " (" ++ Text.quoted command ++
              "), exit " ++ toString code))
      else if redirected then runStages output errors (index + 1) "" (next :: rest) j
      else
        let (text, j) := j.read between
        runStages output errors (index + 1) text (next :: rest) j

end Job

/-- What a line comes to: its code, or why it broke off, and what it wrote. -/
structure Outcome where
  code : Except Breakdown Int
  output : String
  errors : String

namespace Session

/-- The session with a line in its history, unless the line is empty. -/
def remember (s : Session) (line : String) : Session :=
  if line = "" then s else { s with history := s.history ++ [line] }

/-- Run a line whose output and error output go to two of the streams of a pool. -/
def runIn (s : Session) (line : String) (pool : Pool) (output errors : Nat) :
    Except Breakdown Int × Job :=
  let line := Text.trimmed line
  let (pool, out) := pool.add (.stream output)
  let (pool, err) := pool.add (.stream errors)
  Job.runStages out err 0 "" (Line.stages line) ⟨s.remember line, pool⟩

/-- Run a line, with its output and its error output kept apart. -/
def run (s : Session) (line : String) : Outcome × Session :=
  let (pool, output) := Pool.empty.addKeeping ""
  let (pool, errors) := pool.addKeeping ""
  let (code, j) := s.runIn line pool output errors
  (⟨code, (j.pool.read output).1, (j.pool.read errors).1⟩, j.session)

/-- Run a line, with its output and its error output together as they are written. -/
def execute (s : Session) (line : String) : Except Breakdown Int × String × Session :=
  let (pool, display) := Pool.empty.addKeeping ""
  let (code, j) := s.runIn line pool display display
  (code, (j.pool.read display).1, j.session)

end Session

end TreeShell
