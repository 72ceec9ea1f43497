import TreeShell.Stream
import TreeShell.Volume

/-!
# Streams over a volume

A volume and the streams that lead into its files. A text written to a stream that ends in a file is
appended to the file at once, which can be refused; what is read from a file is what it held when
the stream was opened.
-/

namespace TreeShell

/-- A volume and a pool of streams. -/
structure Wiring where
  volume : Volume
  pool : Pool
  deriving Inhabited

namespace Wiring

/-- Write a text to a stream. -/
def write (w : Wiring) (stream : Nat) (text : String) : Except PathError Unit × Wiring :=
  match w.pool.endOf stream with
  | .file path cwd =>
    let (result, volume) := w.volume.perform cwd (.write path (.string text) true)
    (result, { w with volume })
  | _ => (.ok (), { w with pool := w.pool.write stream text })

/-- What a stream has kept; nothing is left of it there. -/
def read (w : Wiring) (stream : Nat) : String × Wiring :=
  let (text, pool) := w.pool.read stream
  (text, { w with pool })

/-- Open a stream that leads somewhere. -/
def add (w : Wiring) (destination : Destination) : Wiring × Nat :=
  let (pool, number) := w.pool.add destination
  ({ w with pool }, number)

/-- Open a stream that keeps a text. -/
def addKeeping (w : Wiring) (text : String) : Wiring × Nat :=
  let (pool, number) := w.pool.addKeeping text
  ({ w with pool }, number)

end Wiring

end TreeShell
