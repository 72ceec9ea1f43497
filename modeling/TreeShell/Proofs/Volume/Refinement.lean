import TreeShell.Proofs.Volume.Requests

/-!
# Volumes as plain maps

Of what a volume does, nothing but the plain map matters to the next edit: the map tells whether the
edit is made, and what map it leaves. So the numbers of inodes, and how they came about, never show.
-/

namespace TreeShell.Volume

/-- A volume with a file that a record has a list for. -/
def listing : Volume :=
  unsaved (.ofNode (.directory (.ofDirectory 0) [("a", .file (.ofFile 0) (.array [.int 1]))])) 0

end TreeShell.Volume
