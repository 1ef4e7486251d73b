import JsonBinding.Files.Basic

/-!
# Disks

A disk is a tree of directories with files in them (`Disk`). A path starts at the root when it starts
with a slash, else in the working directory, which lies below the root; a path that leads above the
root stays there. The operations of a disk are refused for the reasons for which a system refuses
them (`Refusal`): names are followed one by one, and the first one that leads nowhere is the reason.
-/

namespace JsonBinding

/-- What a path may lead to. -/
inductive Entry where
  | directory (entries : List (String × Entry))
  | file (text : String)

/-- The root of a disk. -/
abbrev Disk : Type := Entry

/-- Why an operation is refused. -/
inductive Refusal where
  | missing
  | exists
  | notDirectory
  | isDirectory
  | longName
  | nullInName
  deriving DecidableEq

/-- The reason in words. -/
def Refusal.text : Refusal → String
  | .missing => "No such file or directory (os error 2)"
  | .exists => "File exists (os error 17)"
  | .notDirectory => "Not a directory (os error 20)"
  | .isDirectory => "Is a directory (os error 21)"
  | .longName => "File name too long (os error 36)"
  | .nullInName => "file name contained an unexpected NUL byte"

namespace Entry

/-- The entry with some names below another one. -/
def below? : (names : List String) → Entry → Option Entry
  | [], e => some e
  | _ :: _, .file _ => none
  | n :: rest, .directory entries => (entries.lookup n).bind (below? rest)

/-- The entry with another one below it, in directories that are made when they are missing. A file
stays as it is. -/
def put (new : Entry) : (names : List String) → Entry → Entry
  | [], _ => new
  | _ :: _, .file text => .file text
  | n :: rest, .directory entries =>
    let inner := (entries.lookup n).getD (.directory [])
    .directory ((n, put new rest inner) :: entries.filter (·.1 ≠ n))

/-- The files in a directory with their texts, by name. -/
def files : Entry → List (String × String)
  | .file _ => []
  | .directory entries =>
    let texts := entries.filterMap fun (name, e) =>
      match e with
      | .file text => some (name, text)
      | .directory _ => none
    texts.mergeSort fun a b => a.1 ≤ b.1

end Entry

namespace Disk

/-- The place of the working directory, whose name no path can spell. -/
abbrev workingPlace : List String := [""]

/-- A disk with nothing but its working directory. -/
def empty : Disk := Entry.put (.directory []) workingPlace (.directory [])

/-- The entry at a place. -/
def entry? (d : Disk) (place : List String) : Option Entry := Entry.below? place d

/-- The disk with an entry at a place. -/
def put (d : Disk) (place : List String) (e : Entry) : Disk := Entry.put e place d

/-! ## Paths -/

/-- The greatest size of a name. -/
abbrev maxNameSize : Nat := 255

/-- The greatest size of a path. -/
abbrev maxPathSize : Nat := 4095

/-- A path that may be followed. -/
def check (path : String) : Except Refusal Unit :=
  if path.contains '\x00' then .error .nullInName
  else if path.isEmpty then .error .missing
  else if maxPathSize < path.utf8ByteSize then .error .longName
  else .ok ()

/-- The place where a path starts. -/
def start (path : String) : List String := if path.startsWith "/" then [] else workingPlace

/-- The names in a path. -/
def names (path : String) : List String := (path.splitOn "/").filter fun n => !n.isEmpty

/-- The place that one more name leads to from a directory. -/
def enter (place : List String) (name : String) : List String :=
  if name = "." then place else if name = ".." then place.dropLast else place ++ [name]

/-- The place that names lead to, when all but the last one lead to directories. -/
def follow (d : Disk) : (place names : List String) → Except Refusal (List String)
  | place, [] => .ok place
  | place, n :: rest =>
    match d.entry? place with
    | some (.directory _) =>
      if maxNameSize < n.utf8ByteSize then .error .longName else follow d (enter place n) rest
    | some (.file _) => .error .notDirectory
    | none => .error .missing

/-- The place of a path; a slash at the end asks for a directory, as a dot does. -/
def place (d : Disk) (path : String) : Except Refusal (List String) := do
  check path
  d.follow (start path) (if path.endsWith "/" then names path ++ ["."] else names path)

/-! ## Operations -/

/-- The text of a file. -/
def read (d : Disk) (path : String) : Except Refusal String := do
  match d.entry? (← d.place path) with
  | some (.file text) => pure text
  | some (.directory _) => throw .isDirectory
  | none => throw .missing

/-- The disk with a text for a file. -/
def write (d : Disk) (path text : String) : Except Refusal Disk := do
  let place ← d.place path
  match d.entry? place with
  | some (.directory _) => throw .isDirectory
  | some (.file _) => pure (d.put place (.file text))
  | none => pure (d.put place (.file text))

/-- The disk with directories along names from a place on. Only what is there already can be named
with a dot at the end. -/
def makeAlong (d : Disk) : (place names : List String) → Except Refusal Disk
  | _, [] => .ok d
  | place, n :: rest =>
    let next := enter place n
    if maxNameSize < n.utf8ByteSize then .error .longName
    else
      match d.entry? next with
      | some (.directory _) => makeAlong d next rest
      | some (.file _) => .error (if rest.isEmpty then .exists else .notDirectory)
      | none =>
        if !rest.isEmpty && rest.all (· = ".") then .error .missing
        else makeAlong (d.put next (.directory [])) next rest

/-- The disk with a directory and those above it. An empty path asks for none. -/
def makeDirectory (d : Disk) (path : String) : Except Refusal Disk := do
  if path.isEmpty then pure d
  else
    check path
    d.makeAlong (start path) (names path)

/-- The files in a directory with their texts, by name; none if there is no such directory. -/
def list (d : Disk) (path : String) : List (String × String) :=
  match d.follow (start path) (names path) with
  | .ok place => (d.entry? place).elim [] Entry.files
  | .error _ => []

/-- The disk with a file and the directories above it. -/
def addFile (d : Disk) (path text : String) : Disk := d.put (start path ++ names path) (.file text)

/-- A change of a disk as an operation, which changes nothing when it is refused. -/
def change (f : Disk → Except Refusal Disk) : StateM Disk (Except String Unit) := do
  match f (← get) with
  | .ok d =>
    set d
    pure (.ok ())
  | .error e => pure (.error e.text)

/-- The operations of a disk. -/
def files : Files (StateM Disk) where
  read path := do pure (((← get).read path).mapError Refusal.text)
  makeDirectory path := change (·.makeDirectory path)
  write path text := change (·.write path text)

end Disk

end JsonBinding
