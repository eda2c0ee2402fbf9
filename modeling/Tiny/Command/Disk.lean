import Tiny.Command.Host
import Tiny.Text.Utf8

/-!
# Disks

A disk is a finite map from places to files and directories.  Places are named from the working
directory, step by step; directories around the working directory exist and are otherwise unknown.
A path is followed component by component, and every component but the last has to lead to a
directory.
-/

namespace Tiny

/-- A place on a disk: the names on the way to it from the working directory.  Places outside start
with `..` or `/`. -/
abbrev Place := List String

/-- What can be found at a place. -/
inductive Node where
  | file (content : ByteArray)
  | directory

/-- The files and directories that are known, mostly below the working directory. -/
structure Disk where
  entries : List (Place × Node) := []

namespace Disk

/-- Whether a place is the working directory or lies around it. -/
def isAround (place : Place) : Bool :=
  place = ["/"] || place.all (· = "..")

/-- Whether a place lies below the working directory, or is that directory. -/
def isBelow (place : Place) : Bool :=
  place.head? ≠ some ".." && place.head? ≠ some "/"

/-- What is at a place. -/
def node? (disk : Disk) (place : Place) : Option Node :=
  if isAround place then some .directory else disk.entries.lookup place

/-- Puts a node at a place. -/
def put (disk : Disk) (place : Place) (node : Node) : Disk :=
  ⟨(place, node) :: disk.entries.filter fun entry => entry.1 ≠ place⟩

/-- The directory around a place. -/
def parent (place : Place) : Place :=
  if place = ["/"] then place
  else if place.all (· = "..") then place ++ [".."]
  else place.dropLast

/-- Splits text at slashes, given the characters of an unfinished component in reverse. -/
def componentsFrom (name : List Char) : List Char → List String
  | [] => [String.ofList name.reverse]
  | c :: rest =>
    if c = '/' then String.ofList name.reverse :: componentsFrom [] rest
    else componentsFrom (c :: name) rest

/-- The components of a path between its slashes; some may be empty. -/
def components (path : String) : List String :=
  componentsFrom [] path.toList

/-- The place where a path starts. -/
def start (path : String) : Place :=
  if path.toList.head? = some '/' then ["/"] else []

/-- The longest name of a file, in bytes. -/
def maxName : Nat := 255

/-- The longest path, in bytes. -/
def maxPath : Nat := 4095

/-- Refuses a path that is empty or too long to be followed at all. -/
def checkPath (path : String) : Except OsFault Unit :=
  if path = "" then .error .noEntry
  else if maxPath < path.utf8ByteSize then .error .nameTooLong
  else .ok ()

/-- The place of a name in a directory.  An empty name and a dot stay, two dots go up. -/
def childOf (disk : Disk) (place : Place) (name : String) : Except OsFault Place :=
  match disk.node? place with
  | none => .error .noEntry
  | some (.file _) => .error .notDirectory
  | some .directory =>
    if name = "" ∨ name = "." then .ok place
    else if name = ".." then .ok (parent place)
    else if maxName < name.utf8ByteSize then .error .nameTooLong
    else .ok (place ++ [name])

/-- Goes from a place along names, all of which have to be there. -/
def follow (disk : Disk) (place : Place) : List String → Except OsFault Place
  | [] => .ok place
  | name :: rest =>
    match disk.childOf place name with
    | .error fault => .error fault
    | .ok child =>
      match disk.node? child with
      | none => .error .noEntry
      | some _ => disk.follow child rest

/-- What a path leads to. -/
def find (disk : Disk) (path : String) : Except OsFault Node := do
  checkPath path
  let place ← disk.follow (start path) (components path)
  match disk.node? place with
  | none => throw .noEntry
  | some node => return node

/-- The place that a path names for writing.  Its directory has to be there, the file need not.  A
path with a slash or dots at its end can only name a directory, however long its last name is. -/
def target (disk : Disk) (path : String) : Except OsFault Place := do
  checkPath path
  match (components path).reverse.span (· = "") with
  | (_, []) => throw .isDirectory
  | (slashes, name :: directories) =>
    let directory ← disk.follow (start path) directories.reverse
    let here ← disk.childOf directory "."
    if slashes ≠ [] ∨ name = "." ∨ name = ".." then throw .isDirectory
    else disk.childOf here name

/-- The content of the file that a path leads to. -/
def read (disk : Disk) (path : String) : Except OsFault ByteArray :=
  match disk.find path with
  | .ok (.file content) => .ok content
  | .ok .directory => .error .isDirectory
  | .error fault => .error fault

/-- The feed of what a path leads to. -/
def openSource (disk : Disk) (path : String) : Except OsFault Feed :=
  match disk.find path with
  | .ok (.file content) => .ok (Feed.ofBytes content.data.toList)
  | .ok .directory => .ok [.failure OsFault.isDirectory.message]
  | .error fault => .error fault

/-- Writes a whole file, or leaves the disk as it is. -/
def write (disk : Disk) (path : String) (content : ByteArray) : Except OsFault Disk :=
  match disk.target path with
  | .error fault => .error fault
  | .ok place =>
    match disk.node? place with
    | some .directory => .error .isDirectory
    | _ => .ok (disk.put place (.file content))

/-- Puts directories on the way to a place where there is nothing yet. -/
def makeParents (disk : Disk) : (made : Place) → (rest : Place) → Disk
  | _, [] => disk
  | made, name :: rest =>
    let place := made ++ [name]
    let disk := if (disk.node? place).isSome then disk else disk.put place .directory
    disk.makeParents place rest

/-- Adds a file, or a directory if the path ends with a slash, with all directories around it. -/
def add (disk : Disk) (path : String) (content : ByteArray) : Disk :=
  let place := (components path).filter fun name => name ≠ "" ∧ name ≠ "."
  if path.toList.getLast? = some '/' then disk.makeParents [] place
  else (disk.makeParents [] place.dropLast).put place (.file content)

/-- The path of a place, for a place below the working directory. -/
def pathOf (place : Place) : String :=
  String.intercalate "/" place

/-- Whether a node is a file with the given content. -/
def holds (content : ByteArray) : Node → Bool
  | .file old => old.data == content.data
  | .directory => false

/-- The files below the working directory that are not on another disk with the same content. -/
def changedFrom (disk before : Disk) : List (String × ByteArray) :=
  disk.entries.filterMap fun (place, node) =>
    match node with
    | .directory => none
    | .file content =>
      if !isBelow place || (before.node? place).any (holds content) then none
      else some (pathOf place, content)

end Disk

/-- A system with a disk, a standard input and what was printed. -/
structure World where
  disk : Disk := {}
  input : ByteArray := ByteArray.empty
  output : String := ""

namespace World

/-- The services of such a system. -/
def host : Host (StateM World) where
  openSource path := do
    return (← get).disk.openSource path
  readFile path := do
    return (← get).disk.read path
  writeFile path content := do
    let world ← get
    match world.disk.write path content with
    | .error fault => return .error fault
    | .ok disk =>
      set { world with disk }
      return .ok ()
  readInput := do
    return (← get).input
  print text := modify fun world => { world with output := world.output ++ text }

end World

end Tiny
