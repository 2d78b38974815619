import DataShapes.Failure
import DataShapes.Files.Path
import DataShapes.Files.Place
import DataShapes.Text.NameSet

/-! # File trees

A tree maps places to files and directories. A path is located step by step: every step but the last must
lead into a directory, and no step has a name that is too long. Going up always leads to a directory, also
out of the working directory; nothing else is there unless it was put there. -/

namespace DataShapes

/-- What a file holds. -/
inductive Contents where
  | text (s : String)
  /-- Bytes that are no text. -/
  | binary (bytes : List UInt8)
  deriving DecidableEq, Repr, Inhabited

def Contents.ofBytes (bytes : List UInt8) : Contents :=
  match String.fromUTF8? ⟨bytes.toArray⟩ with
  | some s => .text s
  | none => .binary bytes

def Contents.text? : Contents → Except FileFault String
  | .text s => .ok s
  | .binary _ => .error .notText

inductive Entry where
  | file (contents : Contents)
  | directory
  deriving DecidableEq, Repr, Inhabited

structure Tree where
  entries : List (Place × Entry)
  deriving DecidableEq, Repr, Inhabited

/-- A place that a path leads to, and whether the path asks for a directory there. -/
structure Spot where
  place : Place
  asDirectory : Bool
  deriving DecidableEq, Repr

namespace Tree

def empty : Tree := ⟨[]⟩

/-- What is at a place; the working directory and those above it are always there. -/
def find? (tree : Tree) (place : Place) : Option Entry :=
  if place.isOrigin then some .directory
  else (tree.entries.find? (·.1 == place)).map (·.2)

/-- What is found at a place, if its name may be asked for. -/
def lookUp (tree : Tree) (place : Place) : Except FileFault (Option Entry) :=
  if place.isTooLong then .error .nameTooLong else .ok (tree.find? place)

def set (tree : Tree) (place : Place) (entry : Entry) : Tree :=
  if tree.entries.any (·.1 == place) then
    ⟨tree.entries.map fun e => if e.1 == place then (place, entry) else e⟩
  else ⟨tree.entries ++ [(place, entry)]⟩

/-- The spot that segments lead to from the directory `here`. -/
def locateFrom (tree : Tree) (here : Place) : List String → Except FileFault Spot
  | [] => .ok ⟨here, true⟩
  | segment :: rest =>
    if Path.isIdle segment then locateFrom tree here rest
    else if segment == ".." then locateFrom tree here.up rest
    else
      let place := here.down segment
      if rest.all (· == "") then .ok ⟨place, !rest.isEmpty⟩
      else
        match tree.lookUp place with
        | .error fault => .error fault
        | .ok none => .error .notFound
        | .ok (some (.file _)) => .error .notDirectory
        | .ok (some .directory) => locateFrom tree place rest

def locate (tree : Tree) (path : Path) : Except FileFault Spot :=
  if path.holdsNul then .error .holdsNul
  else if path.isEmpty then .error .notFound
  else if path.isTooLong then .error .nameTooLong
  else tree.locateFrom (if path.isAbsolute then ⟨.top, []⟩ else .working) path.segments

def read (tree : Tree) (path : Path) : Except FileFault String := do
  let spot ← tree.locate path
  match ← tree.lookUp spot.place with
  | none => .error .notFound
  | some .directory => .error .isDirectory
  | some (.file contents) => if spot.asDirectory then .error .notDirectory else contents.text?

/-- The tree with a file of these contents, in a directory that exists. A path that asks for a directory
is refused before its name is looked up. -/
def write (tree : Tree) (path : Path) (contents : Contents) : Except FileFault Tree := do
  let spot ← tree.locate path
  if spot.asDirectory then .error .isDirectory
  else
    match ← tree.lookUp spot.place with
    | some .directory => .error .isDirectory
    | none | some (.file _) => return tree.set spot.place (.file contents)

/-- The tree with a new directory in a directory that exists. -/
def createDirectory (tree : Tree) (path : Path) : Except FileFault Tree := do
  let spot ← tree.locate path
  match ← tree.lookUp spot.place with
  | some _ => .error .exists
  | none => return tree.set spot.place .directory

def isDirectory (tree : Tree) (path : Path) : Bool :=
  match tree.locate path with
  | .ok spot => tree.find? spot.place == some .directory
  | .error _ => false

def ensureDirectory (tree : Tree) (path : Path) : Except FileFault Unit × Tree :=
  match tree.createDirectory path with
  | .ok created => (.ok (), created)
  | .error fault => (if tree.isDirectory path then .ok () else .error fault, tree)

/-- Creates a directory and those above it, as far as they are not there. What is created stays when a
later step fails. -/
def createDirectories (tree : Tree) (path : Path) : Except FileFault Unit × Tree :=
  if path.isEmpty then (.ok (), tree)
  else
    match tree.ensureDirectory path with
    | (.error .notFound, _) =>
      match _above : path.parent? with
      | none => (.error .notFound, tree)
      | some parent =>
        match createDirectories tree parent with
        | (.ok (), tree) => tree.ensureDirectory path
        | failed => failed
    | done => done
termination_by path.segments.length
decreasing_by exact Path.length_parent_lt _above

/-- The paths of all entries below the working directory, sorted; those of directories end in a slash. -/
def list (tree : Tree) : List String :=
  NameSet.ofList ((tree.entries.filter (·.1.isWithin)).map fun (place, entry) =>
    "/".intercalate place.names ++ match entry with
      | .directory => "/"
      | .file _ => "")

end Tree

end DataShapes
