import TreeShell.Session.Action

/-!
# Commands that look into a session

A registry may hold more commands than those of every session. These report what they were given,
exit and fail as they are told, and write to both outputs. No session has them unless they are put
in.
-/

namespace TreeShell

namespace Utility

open TreeShell.Action

/-- Report what the command was given; its input is read. -/
def probe (ctx : Context) : Action Int := do
  let input ← read ctx.ends.input
  change fun s =>
    { s with
      reports := s.reports ++ [⟨ctx.cwd, ctx.env, ctx.arguments, ctx.options, ctx.words, input⟩] }
  return success

/-- Exit with the code that is given. -/
def ret (ctx : Context) : Action Int :=
  match ctx.arguments with
  | [] => throw .noArgument
  | code :: _ =>
    match Text.readInt code with
    | .ok n => return n
    | .error e => throw (.numeral e)

/-- Write to both outputs in turn. -/
def both (ctx : Context) : Action Int := do
  put ctx "out1\n"
  complain ctx "err1"
  put ctx "out2\n"
  complain ctx "err2"
  return if ctx.flag ["f", "fail"] then 3 else success

/-- How a failure reads whose kind and message are given. -/
def toldMessage (kind : Option OptionValue) (message : String) : String :=
  match kind with
  | none | some (.text "runtime") | some (.text "os") | some (.text "value") => message
  | some (.text "key") => Text.quoted message
  | some (.text other) => Text.quoted other
  | some .flag => "True"

/-- Write something, and fail in the way that is given. -/
def boom (ctx : Context) : Action Int := do
  put ctx "before\n"
  throw (.told (toldMessage (ctx.options.get? "kind") (Text.join " " ctx.arguments)))

/-- Write into the copy of the variables, which nobody sees. -/
def scribble (_ : Context) : Action Int := return success

end Utility

/-- What a command does that looks into a session. -/
def Diagnostic.run : Diagnostic → Context → Action Int
  | .idle => fun _ => return Action.success
  | .probe => Utility.probe
  | .ret => Utility.ret
  | .both => Utility.both
  | .boom => Utility.boom
  | .scribble => Utility.scribble

/-- The program that does nothing. -/
def Program.idle : Program := .diagnostic .idle

/-- The commands that look into a session. -/
def diagnostics : Registry :=
  .ofList [
    ⟨"probe", "test probe", .diagnostic .probe⟩,
    ⟨"ret", "return a code", .diagnostic .ret⟩,
    ⟨"both", "write both streams", .diagnostic .both⟩,
    ⟨"boom", "raise", .diagnostic .boom⟩,
    ⟨"scribble", "change the snapshot", .diagnostic .scribble⟩]

end TreeShell
