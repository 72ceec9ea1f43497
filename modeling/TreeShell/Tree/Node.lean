import TreeShell.Text.Numeral
import TreeShell.Tree.Content

/-!
# Nodes and their records

A tree as a value: files with what they hold, directories with their entries in order. A record is a
node in saved form; reading one tells what is wrong with it, and fills in what it leaves out: the
time of reading, the usual permissions, no text, no entries.
-/

namespace TreeShell

/-- What is known about a file or a directory besides what it holds. -/
structure Attributes where
  /-- When it was made, in milliseconds. -/
  createdAt : Int
  /-- When it was last changed, in milliseconds. -/
  modifiedAt : Int
  /-- Its permissions; a record may hold any value here, which is kept. -/
  permissions : Json
  deriving Inhabited

namespace Attributes

/-- The permissions of a directory that is made here. -/
def directoryPermissions : String := "drwxr-xr-x"

/-- The permissions of a file that is made here. -/
def filePermissions : String := "-rw-r--r--"

/-- The attributes of a directory made at a time. -/
def ofDirectory (now : Int) : Attributes := ⟨now, now, .string directoryPermissions⟩

/-- The attributes of a file made at a time. -/
def ofFile (now : Int) : Attributes := ⟨now, now, .string filePermissions⟩

/-- The attributes in saved form. -/
def record (a : Attributes) : Json :=
  .object [("createdAt", .int a.createdAt), ("modifiedAt", .int a.modifiedAt),
    ("permissions", a.permissions)]

end Attributes

/-- A file or a directory with all that is below it. -/
inductive Node where
  | file (attributes : Attributes) (content : Content)
  | directory (attributes : Attributes) (entries : List (String × Node))
  deriving Inhabited

/-- Why a record is no tree. -/
inductive RecordError where
  /-- The outermost record is not that of a directory. -/
  | rootNotDirectory
  /-- A node is neither a file nor a directory. -/
  | unknownType (type : Json)
  /-- Something stands where fields should be. -/
  | notFields
  /-- A time is no number. -/
  | timeNotNumber (kind : String)
  /-- The text of a time is no number. -/
  | timeText (error : Text.NumeralError)
  /-- A time is not a number at all. -/
  | timeUndefined
  /-- A time is infinite. -/
  | timeInfinite
  deriving Inhabited

/-- What is said of a record that is no tree. -/
def RecordError.message : RecordError → String
  | .rootNotDirectory => "root record must be a directory"
  | .unknownType type => "unknown node type: " ++ type.display
  | .notFields => "fields expected"
  | .timeNotNumber kind =>
    "int() argument must be a string, a bytes-like object or a real number, not '" ++ kind ++ "'"
  | .timeText error => error.message
  | .timeUndefined => "cannot convert float NaN to integer"
  | .timeInfinite => "cannot convert float infinity to integer"

namespace Node

/-- The attributes of a node. -/
def attributes : Node → Attributes
  | .file a _ => a
  | .directory a _ => a

/-- Whether a node is a directory. -/
def isDirectory : Node → Bool
  | .file .. => false
  | .directory .. => true

mutual

/-- A node in saved form, under a name. -/
def record (name : String) : Node → Json
  | .file a content =>
    .object [("type", .string "file"), ("name", .string name), ("metadata", a.record),
      ("content", content)]
  | .directory a entries =>
    .object [("type", .string "directory"), ("name", .string name), ("metadata", a.record),
      ("children", .object (entryRecords entries))]

/-- Entries in saved form. -/
def entryRecords : List (String × Node) → List (String × Json)
  | [] => []
  | (name, node) :: rest => (name, record name node) :: entryRecords rest

end

/-- A time read from a record. -/
def readTime : Json → Except RecordError Int
  | .int n => .ok n
  | .bool b => .ok (if b then 1 else 0)
  | .float (.finite negative m e) => .ok (Decimal.truncate negative m e)
  | .float (.infinite _) => .error .timeInfinite
  | .float .undefined => .error .timeUndefined
  | .string s => (Text.readInt s).mapError .timeText
  | v => .error (.timeNotNumber v.kindName)

/-- A field that may be left out or empty in any way; anything else in it has to hold fields. -/
def optionalFields (name : String) (fields : List (String × Json)) :
    Except RecordError (List (String × Json)) :=
  match Json.find? name fields with
  | none => .ok []
  | some v =>
    match v with
    | .object inner => .ok inner
    | v => if v.isEmptyLike then .ok [] else .error .notFields

/-- The attributes of a record, with those of `usual` where it has none. -/
def readAttributes (usual : Attributes) (fields : List (String × Json)) :
    Except RecordError Attributes := do
  let known ← optionalFields "metadata" fields
  let createdAt ← ((Json.find? "createdAt" known).map readTime).getD (.ok usual.createdAt)
  let modifiedAt ← ((Json.find? "modifiedAt" known).map readTime).getD (.ok usual.modifiedAt)
  return ⟨createdAt, modifiedAt, (Json.find? "permissions" known).getD usual.permissions⟩

/-- What a file holds whose record has these fields: nothing counts as no text. -/
def readContent (fields : List (String × Json)) : Content :=
  match Json.find? "content" fields with
  | none => .string ""
  | some v => if v.isEmptyLike then .string "" else v

mutual

/-- The node of a record. -/
def ofRecord (now : Int) : Json → Except RecordError Node
  | .object fields =>
    match Json.find? "type" fields with
    | some (.string "file") => do
      let attributes ← readAttributes (.ofFile now) fields
      return .file attributes (readContent fields)
    | some (.string "directory") => do
      let attributes ← readAttributes (.ofDirectory now) fields
      let entries ← ofChildren now fields
      return .directory attributes entries
    | type => .error (.unknownType (type.getD .null))
  | _ => .error .notFields

/-- The entries of a directory, from the fields of its record. -/
def ofChildren (now : Int) : List (String × Json) → Except RecordError (List (String × Node))
  | [] => .ok []
  | (name, v) :: rest =>
    if name = "children" then
      match v with
      | .object children => ofEntries now children
      | v => if v.isEmptyLike then .ok [] else .error .notFields
    else ofChildren now rest

/-- Entries from their records. -/
def ofEntries (now : Int) : List (String × Json) → Except RecordError (List (String × Node))
  | [] => .ok []
  | (name, v) :: rest => do
    let node ← ofRecord now v
    let nodes ← ofEntries now rest
    return (name, node) :: nodes

end

/-- The node of an outermost record, which has to be a directory. -/
def ofRootRecord (now : Int) (record : Json) : Except RecordError Node :=
  match record with
  | .object fields =>
    match Json.find? "type" fields with
    | some (.string "directory") => ofRecord now record
    | _ => .error .rootNotDirectory
  | _ => .error .notFields

mutual

/-- The paths below and with `path`, each with what the file there holds; entries with a name that
is not `keep` are left out with all that is below them. -/
def listing (keep : String → Bool) (path : String) : Node → List (String × Option Content)
  | .file _ content => [(if path = "" then "/" else path, some content)]
  | .directory _ entries => (if path = "" then "/" else path, none) :: listingAll keep path entries

/-- The paths below the entries of the directory at `path`. -/
def listingAll (keep : String → Bool) (path : String) :
    List (String × Node) → List (String × Option Content)
  | [] => []
  | (name, node) :: rest =>
    (if keep name then listing keep (path ++ "/" ++ name) node else []) ++
      listingAll keep path rest

end

end Node

end TreeShell
