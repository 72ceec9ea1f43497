import TreeShell.Boot
import TreeShell.Completion
import TreeShell.Session.Run
import TreeShell.Web.Page

/-!
# The program in a browser

Three endpoints over one session: the page, the outcome of a line, and the completion of one. How
requests are read does not matter here: what stands in front of the endpoints finds each request to
be for one of them, with the value of its body, or answers it without them.
-/

namespace TreeShell.Web

/-- An answer. -/
inductive Response where
  /-- A page, with success. -/
  | page (html : String)
  /-- A value, with a status. -/
  | value (status : Nat) (json : Json)
  /-- A status alone. -/
  | status (code : Nat)

/-- The endpoints. -/
inductive Endpoint where
  /-- The page. -/
  | index
  /-- The outcome of a line. -/
  | execute
  /-- The completion of a line. -/
  | complete
  deriving DecidableEq, Repr

/-- What a request is found to be. -/
inductive Routed where
  /-- One that is answered without the endpoints. -/
  | answered (r : Response)
  /-- One for an endpoint, with the value of its body if that can be read. -/
  | endpoint (e : Endpoint) (value : Option Json)

/-- A session that is used in a browser, with its boot log. -/
structure Server where
  session : Session
  log : String

/-- The text in a field of a value. -/
def textField? (name : String) (value : Option Json) : Option String :=
  match value.bind (Json.field? name) with
  | some (.string s) => some s
  | _ => none

/-- The answer to a request that lacks a field. -/
def missing (name : String) : Response :=
  .value 400 (.object [("error", .string ("Missing '" ++ name ++ "' field"))])

namespace Server

/-- The page as it is now. -/
def page (s : Server) : Response := .page (Page.text s.log s.session.prompt)

/-- Run a line. Digits that stand for no number are an error of the server. -/
def execute (s : Server) (line : String) : Response × Server :=
  let (outcome, session) := s.session.run line
  (match outcome.code with
    | .error _ => .status 500
    | .ok code =>
      .value 200 (.object [("output", .string outcome.output), ("errors", .string outcome.errors),
        ("exit_code", .int code), ("prompt", .string session.prompt),
        ("clear", .bool (s.session.clears < session.clears))]),
    { s with session })

/-- A completion as a value. -/
def completionValue : Option Completion → Json
  | none => .object [("type", .null)]
  | some (.complete line) => .object [("type", .string "complete"), ("value", .string line)]
  | some (.suggestions names base) =>
    .object [("type", .string "suggestions"), ("suggestions", .array (names.map .string)),
      ("base", .string base)]

/-- Answer at an endpoint. -/
def handle (s : Server) : Endpoint → Option Json → Response × Server
  | .index, _ => (s.page, s)
  | .execute, value =>
    match textField? "command" value with
    | none => (missing "command", s)
    | some line => s.execute line
  | .complete, value =>
    match textField? "input" value with
    | none => (missing "input", s)
    | some line => (.value 200 (completionValue (s.session.complete line)), s)

/-- Answer a request by what it is found to be. -/
def serve (s : Server) : Routed → Response × Server
  | .answered r => (r, s)
  | .endpoint e value => s.handle e value

/-- The server of settings: a boot in a storage. -/
def start (config : Config) (registry : Registry) (clock : Int) (storage : Storage) :
    Except BootError Server :=
  let (storage, store) := storage.storeFor config
  match (Boot.start config store).run registry clock storage with
  | (.error e, _, _) => .error e
  | (.ok session, b, _) => .ok ⟨session, Text.join "\n" b.lines⟩

end Server

end TreeShell.Web
