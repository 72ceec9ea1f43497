import TreeShell.Json.Encoding
import TreeShell.Web.App
import TreeShell.Web.Target

/-!
# Requests

How a request finds its endpoint, in front of the program: by its method, by the path of its
address, and by what its body is said to be.
-/

namespace TreeShell.Web

/-- The body of a request: what it is said to be, and its text. -/
structure Body where
  contentType : String
  text : String
  deriving DecidableEq, Repr

/-- A request. -/
structure Request where
  method : String
  target : Target
  body : Option Body
  deriving DecidableEq, Repr

/-- Why there is no request. -/
inductive RequestError where
  /-- Its address cannot be used. -/
  | address (error : AddressError)
  /-- A line ends within what its body is said to be. -/
  | lineEnd
  deriving DecidableEq, Repr

/-- What is said when there is no request. -/
def RequestError.message : RequestError → String
  | .address error => error.message
  | .lineEnd => "Header values must not contain newline characters."

namespace Body

/-- Whether what a body is said to be runs over a line. -/
def breaksLine (b : Body) : Bool := b.contentType.toList.any fun c => c == '\n' || c == '\r'

/-- Whether a character may stand around what a body is said to be: a space or a tab, and no other
blank. -/
def isPadding (c : Char) : Bool := c == ' ' || c == '\t'

/-- What a body is said to be, without parameters and padding, in small letters. -/
def mediaType (b : Body) : List Char :=
  let start := (Text.cutFirst ';' b.contentType.toList).1.dropWhile isPadding
  (start.reverse.dropWhile isPadding).reverse.map Char.toLower

/-- Whether a body is said to be a value. -/
def isJson (b : Body) : Bool :=
  b.mediaType == "application/json".toList ||
    (Text.startsWith "application/".toList b.mediaType &&
      (Text.dropTail? "+json".toList b.mediaType).isSome)

/-- The value of a body, whose bytes may be written in wider units. -/
def json? (b : Body) : Option Json :=
  if b.isJson then Json.ofBytes? (Text.utf8 b.text.toList) else none

end Body

/-- The places that answer. -/
inductive Place where
  | endpoint (e : Endpoint)
  /-- A file that goes with the page; there are none. -/
  | asset
  deriving DecidableEq, Repr

namespace Place

/-- Whether a text names a file that goes with the page. -/
def isAssetName : List Char → Bool
  | [] => false
  | c :: cs => c != '/' && !cs.contains '\n'

/-- The place with a path. -/
def ofPath? (path : List Char) : Option Place :=
  match String.ofList path with
  | "/" => some (.endpoint .index)
  | "/api/execute" => some (.endpoint .execute)
  | "/api/complete" => some (.endpoint .complete)
  | _ =>
    match Text.dropStart? "/static/".toList path with
    | some name => if isAssetName name then some .asset else none
    | none => none

/-- Whether a place answers a method. -/
def allows (place : Place) (method : String) : Bool :=
  match place with
  | .endpoint .index | .asset => ["GET", "HEAD", "OPTIONS"].contains method
  | .endpoint .execute | .endpoint .complete => ["POST", "OPTIONS"].contains method

/-- The status of a request that is refused at a place, if it is: one with a method that the place
does not answer, or for a lasting connection. -/
def refusal? (place : Place) (r : Request) : Option Nat :=
  if !place.allows r.method then some 405
  else if r.target.lasting then some 400
  else none

end Place

namespace Request

/-- The request with a method, in capitals or not, to an address. -/
def make (method address : String) (body : Option Body) : Except RequestError Request := do
  let target ← (Target.read address).mapError .address
  if (body.map Body.breaksLine).getD false then throw .lineEnd
  return ⟨String.ofList (Text.capitals method.toList), target, body⟩

/-- What a request is found to be at a place that allows its method. -/
def routedAt (r : Request) (place : Place) : Routed :=
  match place, r.method with
  | _, "OPTIONS" | .endpoint .index, "HEAD" => .answered (.page "")
  | .asset, _ => .answered (.status 404)
  | .endpoint e, _ => .endpoint e (r.body.bind Body.json?)

/-- What a request is found to be. An empty path is led to the page, and a path that names a place
only with its runs of slashes merged is led to that place. -/
def routed (r : Request) : Routed :=
  match r.target.path with
  | [] => .answered (.status (if ((Place.endpoint .index).refusal? r).isSome then 404 else 308))
  | path =>
    match Place.ofPath? path with
    | some place =>
      match place.refusal? r with
      | some code => .answered (.status code)
      | none => r.routedAt place
    | none =>
      match Place.ofPath? (Target.mergeSlashes path) with
      | some place => .answered (.status ((place.refusal? r).getD 308))
      | none => .answered (.status 404)

end Request

/-- Answer a request. -/
def Server.answer (s : Server) (r : Request) : Response × Server := s.serve r.routed

end TreeShell.Web
