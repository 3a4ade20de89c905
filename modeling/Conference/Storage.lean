/-! A tree of files and directories under a root, and the paths that lead into it. A path is
walked part by part; every part but the last has to be a directory. Its length is that of its text,
in which segments without effect count as well. -/
namespace Conference

/-- Why a path cannot be used. -/
inductive StorageError where
  | notFound
  | alreadyExists
  | notADirectory
  | isADirectory
  | nameTooLong
  /-- No name can hold the character of number zero. -/
  | zeroCharacter
  /-- Any other refusal, by its own text. -/
  | other (text : String)
  deriving DecidableEq, Repr

namespace StorageError

/-- The text shown for an error. -/
def message : StorageError → String
  | notFound => "No such file or directory (os error 2)"
  | alreadyExists => "File exists (os error 17)"
  | notADirectory => "Not a directory (os error 20)"
  | isADirectory => "Is a directory (os error 21)"
  | nameTooLong => "File name too long (os error 36)"
  | zeroCharacter => "file name contained an unexpected NUL byte"
  | other text => text

end StorageError

/-- A path, as what stands between the slashes of its text. -/
structure Path where
  segments : List String
  deriving DecidableEq, Repr

namespace Path

/-- The path that a text spells. -/
def ofText (text : String) : Path := ⟨text.splitOn "/"⟩

def text (path : Path) : String := "/".intercalate path.segments

/-- The bytes of the path's text and of the zero that ends it. -/
def byteSize (path : Path) : Nat := path.text.utf8ByteSize + 1

/-- The segments that name anything; repeated slashes count as one. -/
def parts (path : Path) : List String := path.segments.filter (· ≠ "")

/-- Whether the path starts at the root. -/
def rooted (path : Path) : Bool := path.segments.head? == some "" && path.segments.length != 1

/-- Whether a slash ends the path. -/
def slash (path : Path) : Bool := path.segments.getLast? == some "" && path.segments.length != 1

/-- Whether a segment stays in place. -/
def idle (segment : String) : Bool := segment == "" || segment == "."

/-- The segment that only says where a path starts, if there is one: nothing before the first slash
of a rooted path, or a point. -/
def lead (path : Path) : List String :=
  if path.rooted || path.segments.head? == some "." then path.segments.take 1 else []

/-- The segments that lead on from there, the last of them first. -/
def wayBack (path : Path) : List String := (path.segments.drop path.lead.length).reverse

/-- The way back from the directory that a path lies in: one named segment shorter. -/
def parentWayBack (path : Path) : List String := (path.wayBack.dropWhile idle).tail.dropWhile idle

/-- The directory that a path lies in, unless that is where the path starts. -/
def parent? (path : Path) : Option Path :=
  let back := path.parentWayBack
  if back.isEmpty then none else some ⟨path.lead ++ back.reverse⟩

/-- The most bytes of a name. -/
def maxName : Nat := 255

/-- The most bytes of a path, with the zero that ends it. -/
def maxPath : Nat := 4096

/-- Why a path cannot be used at all, if it cannot. -/
def flaw? (path : Path) : Option StorageError :=
  if path.parts.any (·.toList.contains '\x00') then some .zeroCharacter
  else if maxPath < path.byteSize then some .nameTooLong
  else none

end Path

/-- What stands at a place. -/
inductive Stored where
  | directory
  | file (content : ByteArray)

/-- A tree of files. A place is the list of names that lead to it from the root, which is always a
directory. -/
structure Storage where
  stored : List (List String × Stored)
  /-- The place where paths that are not rooted start. -/
  current : List String

namespace Storage

/-- What stands at a place. -/
def at? (storage : Storage) (place : List String) : Option Stored :=
  if place.isEmpty then some .directory else storage.stored.lookup place

/-- Puts something at a place. -/
def put (storage : Storage) (place : List String) (content : Stored) : Storage :=
  { storage with stored := (place, content) :: storage.stored.filter (·.1 != place) }

/-- Follows parts through directories. -/
def walk (storage : Storage) : List String → List String → Except StorageError (List String)
  | place, [] => .ok place
  | place, part :: rest =>
    if part = "." then storage.walk place rest
    else if part = ".." then storage.walk place.dropLast rest
    else if Path.maxName < part.utf8ByteSize then .error .nameTooLong
    else
      match storage.at? (place ++ [part]) with
      | none => .error .notFound
      | some (.file _) => .error .notADirectory
      | some .directory => storage.walk (place ++ [part]) rest

/-- Where a path starts. -/
def start (storage : Storage) (path : Path) : List String :=
  if path.rooted then [] else storage.current

/-- What a path leads to. -/
inductive Target where
  /-- A directory that is there for certain. -/
  | directory
  /-- A name in a directory, whether or not anything has that name. -/
  | entry (place : List String)

/-- The place that a path names. -/
def resolve (storage : Storage) (path : Path) : Except StorageError Target :=
  match path.flaw? with
  | some e => .error e
  | none =>
    match path.parts.getLast? with
    | none => if path.rooted then .ok .directory else .error .notFound
    | some last =>
      match storage.walk (storage.start path) path.parts.dropLast with
      | .error e => .error e
      | .ok place =>
        if last = "." ∨ last = ".." then .ok .directory
        else .ok (.entry (place ++ [last]))

/-- Whether the last name of a place is longer than any name. -/
def endsTooLong (place : List String) : Bool :=
  place.getLast?.any fun name => decide (Path.maxName < name.utf8ByteSize)

/-- Whether a path leads to a directory. -/
def isDirectory (storage : Storage) (path : Path) : Bool :=
  match storage.resolve path with
  | .error _ => false
  | .ok .directory => true
  | .ok (.entry place) =>
    match storage.at? place with
    | some .directory => true
    | _ => false

/-- Makes a directory whose parent exists. -/
def makeDirectory (storage : Storage) (path : Path) : Except StorageError Storage :=
  match storage.resolve path with
  | .error e => .error e
  | .ok .directory => .error .alreadyExists
  | .ok (.entry place) =>
    if endsTooLong place then .error .nameTooLong
    else if (storage.at? place).isSome then .error .alreadyExists
    else .ok (storage.put place .directory)

/-- Makes a directory whose parent exists, unless it is there already. -/
def ensureDirectory (storage : Storage) (path : Path) : Except StorageError Storage :=
  match storage.makeDirectory path with
  | .ok storage => .ok storage
  | .error e => if storage.isDirectory path then .ok storage else .error e

/-- Makes the directory to which these segments lead from `lead`, the last of them first, and all
that it lies in. What is made stays, also when a later one fails. -/
def makeDirectories (storage : Storage) (lead : List String) :
    List String → Option StorageError × Storage
  | [] => (none, storage)
  | last :: earlier =>
    if Path.idle last then storage.makeDirectories lead earlier
    else
      let path : Path := ⟨lead ++ (last :: earlier).reverse⟩
      match storage.ensureDirectory path with
      | .ok storage => (none, storage)
      | .error .notFound =>
        match storage.makeDirectories lead earlier with
        | (some e, storage) => (some e, storage)
        | (none, storage) =>
          match storage.ensureDirectory path with
          | .ok storage => (none, storage)
          | .error e => (some e, storage)
      | .error e => (some e, storage)

/-- Writes a file whose directory exists; a path that ends in a slash never names a file. -/
def write (storage : Storage) (path : Path) (content : ByteArray) :
    Option StorageError × Storage :=
  match storage.resolve path with
  | .error e => (some e, storage)
  | .ok .directory => (some .isADirectory, storage)
  | .ok (.entry place) =>
    if path.slash then (some .isADirectory, storage)
    else if endsTooLong place then (some .nameTooLong, storage)
    else
      match storage.at? place with
      | some .directory => (some .isADirectory, storage)
      | _ => (none, storage.put place (.file content))

/-- Writes a file, first making the directories that it lies in. -/
def save (storage : Storage) (path : Path) (content : ByteArray) :
    Option StorageError × Storage :=
  let (failed, storage) := storage.makeDirectories path.lead path.parentWayBack
  match failed with
  | some e => (some e, storage)
  | none => storage.write path content

/-- The content of the file that a path leads to. -/
def read (storage : Storage) (path : Path) : Option ByteArray :=
  match storage.resolve path with
  | .ok (.entry place) =>
    if path.slash then none
    else
      match storage.at? place with
      | some (.file content) => some content
      | _ => none
  | _ => none

end Storage

end Conference
