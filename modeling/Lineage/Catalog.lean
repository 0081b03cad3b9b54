import Lineage.Csv.Table
import Lineage.Ty.Columns

set_option autoImplicit false

/-!
# Where rows come from

A source is named by an address: `memory://` and a key for batches that are at hand, `file://` and
a path for a file of separated values.

## Main definitions

* `Lineage.FileContent`, `Lineage.Files`: what is found under paths.
* `Lineage.Catalog`: batches under keys, and files.
* `Lineage.Catalog.load`: the batches of a source, checked against its declared type.
* `Lineage.Catalog.inferType`: the type of a source, read off its rows.
-/

namespace Lineage

/-- What is found under a path. -/
inductive FileContent where
  /-- A file with a text. -/
  | text (content : String)
  /-- A directory. -/
  | directory
  /-- Nothing. -/
  | missing
  /-- Nothing, because a part of the path is a file. -/
  | blocked
  /-- Nothing, because the path or a part of it is too long. -/
  | tooLong
  /-- Nothing, because no path has a zero character. -/
  | malformed
  deriving DecidableEq, Repr

/-- Why nothing can be opened under a path. -/
def FileContent.refusal? : FileContent → Option String
  | .text _ | .directory => none
  | .missing => some "No such file or directory (os error 2)"
  | .blocked => some "Not a directory (os error 20)"
  | .tooLong => some "File name too long (os error 36)"
  | .malformed => some "file name contained an unexpected NUL byte"

/-- What is found under paths. -/
abbrev Files := String → FileContent

namespace Files

/-- The steps of a path, without those that stay in place. -/
def steps (path : String) : List String :=
  (Text.splitAt '/' path).filter fun step => step ≠ "" ∧ step ≠ "."

/-- What is at the end of some steps, none of which leads back. -/
def contentAt (entries : List (String × String)) (place : List String) : FileContent :=
  match entries.find? fun entry => steps entry.1 == place with
  | some entry => .text entry.2
  | none =>
    if place.isEmpty ∨ entries.any fun entry => place.isPrefixOf (steps entry.1) then .directory
    else .missing

/-- Follow steps from a directory; a step back from the first directory leads to a place that is
unknown but for its being a directory. -/
def follow (entries : List (String × String)) : (place : List String) → List String → FileContent
  | _, [] => .directory
  | place, step :: rest =>
    if step = "" ∨ step = "." then follow entries place rest
    else if step = ".." then
      if place.isEmpty then
        if rest.all fun step => step = "" ∨ step = "." ∨ step = ".." then .directory else .missing
      else follow entries place.dropLast rest
    else if 255 < step.utf8ByteSize then .tooLong
    else
      match contentAt entries (place ++ [step]) with
      | .text content => if rest.isEmpty then .text content else .blocked
      | .directory => follow entries (place ++ [step]) rest
      | other => other

/-- A directory with the given files, seen from inside. Outside of it only the first directory of
all and the empty device are known. -/
def ofEntries (entries : List (String × String)) : Files := fun path =>
  if path.toList.contains '\x00' then .malformed
  else if 4095 < path.utf8ByteSize then .tooLong
  else if path = "" then .missing
  else if path.toList.head? = some '/' then
    if (steps path).all fun step => step = ".." then .directory
    else if path = "/dev/null" then .text ""
    else .missing
  else follow entries [] (Text.splitAt '/' path)

end Files

/-- Batches under keys, and files. -/
structure Catalog where
  /-- Batches under keys; of two entries with one key the first counts. -/
  memory : List (String × List Batch)
  /-- Files. -/
  files : Files

namespace Catalog

/-- A way to name a source. -/
inductive Address where
  /-- A key of batches at hand. -/
  | key (key : String)
  /-- The path of a file. -/
  | path (path : String)
  /-- Something else. -/
  | other
  deriving DecidableEq, Repr

/-- What follows a start of a text. -/
def after? (start : String) (text : String) : Option String :=
  if start.toList.isPrefixOf text.toList then
    some (String.ofList (text.toList.drop start.toList.length))
  else none

/-- The address that a text writes. -/
def Address.ofText (uri : String) : Address :=
  match after? "memory://" uri with
  | some rest => .key rest
  | none =>
    match after? "file://" uri with
    | some rest => .path rest
    | none => .other

/-- The batches under a key. -/
def batches? (c : Catalog) (key : String) : Option (List Batch) :=
  (c.memory.find? fun entry => entry.1 == key).map Prod.snd

/-- Whether a source can be asked for: a file always, a key if it has batches. -/
def contains (c : Catalog) (uri : String) : Bool :=
  match Address.ofText uri with
  | .key key => (c.batches? key).isSome
  | .path _ => true
  | .other => false

/-- The fault of an address of another kind. -/
def otherAddress (uri : String) : Fault := .unsupported ("source uri '" ++ uri ++ "'")

/-- The fault of a path without file. -/
def unopened (uri reason : String) : Fault := .invalidInput (uri ++ ": " ++ reason)

/-- Open a file; reading a directory fails later, with no text. -/
def openFile (c : Catalog) (uri path : String) : Outcome (Option String) :=
  match c.files path with
  | .text content => .ok (some content)
  | found =>
    match found.refusal? with
    | some reason => .error (unopened uri reason)
    | none => .ok none

/-- The batches of a source before they are checked. -/
def read (c : Catalog) (uri : String) (type : Ty) (n : Nat) : Outcome (List Batch) :=
  match Address.ofText uri with
  | .key key =>
    Outcome.ofOption (.invalidInput ("no memory source registered under '" ++ key ++ "'"))
      (c.batches? key)
  | .path path => do
    let content ← c.openFile uri path
    let columns ← type.batchFields
    match content with
    | some text => Csv.readBatches columns (max n 1) text
    | none => .error .columns
  | .other => .error (otherAddress uri)

/-- The batches of a source, checked against its declared type. -/
def load (c : Catalog) (uri : String) (type : Ty) (n : Nat) : Outcome (List Batch) := do
  let batches ← c.read uri type n
  batches.forM type.checkBatch
  .ok batches

/-- The type of a column of a file. -/
def memberOfField (f : Field) : Outcome (String × Ty) :=
  (Ty.ofColumnType f.nullable f.type).map fun t => (f.name, t)

/-- The type of a source, read off its first batch or the first rows of its file. -/
def inferType (c : Catalog) (uri : String) : Outcome Ty :=
  match Address.ofText uri with
  | .key key =>
    match (c.batches? key).bind List.head? with
    | some first => Ty.ofBatch first
    | none =>
      .error (.emptyResult ("cannot infer the type of '" ++ uri ++ "' without batches"))
  | .path path => do
    match ← c.openFile uri path with
    | some text => do
      let columns ← Csv.inferFields text
      (columns.mapM memberOfField).map Ty.struct
    | none => .error .columns
  | .other => .error (otherAddress uri)

end Catalog

end Lineage
