/-!
# Streams

Texts on their way. A stream keeps what is written to it until it is read, or hands it on at once:
to another stream, to a sink that collects it, or to a file. Streams and sinks are numbered in a
pool; a chain of streams is followed to its end for every write anew.
-/

namespace TreeShell

/-- Where a stream hands on what is written to it. -/
inductive Destination where
  /-- Nowhere: the stream keeps it. -/
  | kept
  /-- To another stream. -/
  | stream (number : Nat)
  /-- To a sink. -/
  | sink (number : Nat)
  /-- To the end of a file. -/
  | file (path cwd : String)
  deriving DecidableEq, Repr, Inhabited

/-- A stream: where it leads, and what it has kept. -/
structure Stream where
  destination : Destination
  kept : String
  deriving DecidableEq, Repr, Inhabited

/-- A sink: what it is called, and the texts it has received. -/
structure Sink where
  label : String
  received : List String
  deriving DecidableEq, Repr, Inhabited

/-- Streams and sinks by number. -/
structure Pool where
  streams : List Stream
  sinks : List Sink
  deriving DecidableEq, Repr, Inhabited

namespace Pool

/-- No streams and no sinks. -/
def empty : Pool := ⟨[], []⟩

/-- The number of the next stream. -/
def next (p : Pool) : Nat := p.streams.length

/-- Put in a stream that leads somewhere. -/
def add (p : Pool) (destination : Destination) : Pool × Nat :=
  ({ p with streams := p.streams ++ [⟨destination, ""⟩] }, p.next)

/-- Put in a stream that keeps a text. -/
def addKeeping (p : Pool) (text : String) : Pool × Nat :=
  ({ p with streams := p.streams ++ [⟨.kept, text⟩] }, p.next)

/-- Put in a sink. -/
def addSink (p : Pool) (label : String) : Pool × Nat :=
  ({ p with sinks := p.sinks ++ [⟨label, []⟩] }, p.sinks.length)

/-- The end of a chain of streams: the stream that keeps, or the sink or file it leads to. -/
inductive End where
  | keeper (number : Nat)
  | sink (number : Nat)
  | file (path cwd : String)
  /-- The chain has no end. -/
  | nowhere
  deriving DecidableEq, Repr

/-- The end of the chain that begins with a stream, after at most `fuel` streams. -/
def route (p : Pool) : (fuel number : Nat) → End
  | 0, _ => .nowhere
  | fuel + 1, number =>
    match p.streams[number]? with
    | none => .nowhere
    | some s =>
      match s.destination with
      | .kept => .keeper number
      | .stream n => p.route fuel n
      | .sink n => .sink n
      | .file path cwd => .file path cwd

/-- The end of the chain that begins with a stream. -/
def endOf (p : Pool) (number : Nat) : End := p.route p.next number

/-- Keep a text in a stream. -/
def keep (p : Pool) (number : Nat) (text : String) : Pool :=
  { p with streams := p.streams.modify number fun s => { s with kept := s.kept ++ text } }

/-- Hand a text to a sink. -/
def deliver (p : Pool) (number : Nat) (text : String) : Pool :=
  { p with sinks := p.sinks.modify number fun s => { s with received := s.received ++ [text] } }

/-- Write a text to a stream whose chain does not end in a file. -/
def write (p : Pool) (number : Nat) (text : String) : Pool :=
  match p.endOf number with
  | .keeper n => p.keep n text
  | .sink n => p.deliver n text
  | .file .. | .nowhere => p

/-- What a stream has kept; nothing is left of it there. -/
def read (p : Pool) (number : Nat) : String × Pool :=
  match p.streams[number]? with
  | none => ("", p)
  | some s =>
    (s.kept, { p with streams := p.streams.modify number fun s => { s with kept := "" } })

/-- Lead a stream somewhere else from now on. -/
def redirect (p : Pool) (number : Nat) (destination : Destination) : Pool :=
  { p with streams := p.streams.modify number fun s => { s with destination } }

/-- A stream in words, after at most `fuel` streams. -/
def describeFrom (p : Pool) : (fuel number : Nat) → String
  | 0, _ => "..."
  | fuel + 1, number =>
    match p.streams[number]? with
    | none => "..."
    | some s =>
      match s.destination with
      | .kept => "Stream(buffered=" ++ toString s.kept.length ++ ")"
      | .stream n => "Stream(destination=" ++ p.describeFrom fuel n ++ ")"
      | .sink n =>
        "Stream(destination=Sink(" ++ ((p.sinks[n]?).map Sink.label).getD "" ++ "))"
      | .file path _ => "Stream(destination=" ++ path ++ ")"

/-- A stream in words: how much it keeps, or where it leads. -/
def describe (p : Pool) (number : Nat) : String := p.describeFrom p.next number

end Pool

end TreeShell
