/-!
# File trees

Directories and files by path, with the operations that writing output needs and the errors of the
operating system for them. A path that begins with a slash starts at the root of the tree, any
other at the tree's current directory. There are directories and regular files and nothing else: no
links, so that a file has one path from the root, and no devices.

* `FileTree.walk` follows the names of a path, each of which but a file's has to be a directory.
* `FileTree.makeDirectories` makes a directory and those above it that are missing.
* `FileTree.openFile`, `FileTree.advance` write a file in steps, from its start.
-/

namespace ArrayBridge

/-- Why the operating system refused something: most of these are found in a path. -/
inductive OsError where
  | notFound
  | fileExists
  | notADirectory
  | isADirectory
  | nameTooLong
  /-- No path can contain the zero character. -/
  | unexpectedNul
  /-- Anything else, such as a missing permission or a full disk, by the system's own account. -/
  | other (account : String)
deriving DecidableEq, Repr

/-- The text of an error. -/
def OsError.message : OsError → String
  | notFound => "No such file or directory (os error 2)"
  | fileExists => "File exists (os error 17)"
  | notADirectory => "Not a directory (os error 20)"
  | isADirectory => "Is a directory (os error 21)"
  | nameTooLong => "File name too long (os error 36)"
  | unexpectedNul => "file name contained an unexpected NUL byte"
  | other account => account

/-- The names along a path, from the root. -/
abbrev Path := List String

/-- What a path leads to. -/
inductive Node where
  | directory
  | file (content : String)
deriving DecidableEq, Repr

/-- The nodes of a tree by path, in the order in which they were made, and the directory at which
relative paths start. The root is not listed. -/
structure FileTree where
  nodes : List (Path × Node)
  current : Path
deriving Repr

namespace FileTree

/-- The tree of an empty root, which is the current directory. -/
def empty : FileTree := ⟨[], []⟩

variable (t : FileTree)

/-- The node at a path. -/
def node? (p : Path) : Option Node :=
  if p.isEmpty then some .directory else t.nodes.lookup p

/-- The tree with the given node at a path. -/
def put (p : Path) (n : Node) : FileTree :=
  if (t.nodes.lookup p).isSome then
    { t with nodes := t.nodes.map fun (q, m) => if q = p then (q, n) else (q, m) }
  else { t with nodes := t.nodes ++ [(p, n)] }

/-- The files below the current directory, by their paths from there. -/
def files : List (Path × String) :=
  t.nodes.filterMap fun (p, n) =>
    match n with
    | .directory => none
    | .file content =>
      if t.current.isPrefixOf p then some (p.drop t.current.length, content) else none

/-! ## Paths -/

/-- The names of a path as it is written. Slashes in a row count as one, and so do none and one at
the end. -/
def names (path : String) : List String :=
  ((path.toList.splitOn '/').map String.ofList).filter (· ≠ "")

/-- The names of the directory above a path, in which a dot is no name of its own. -/
def namesAbove (path : String) : List String := ((names path).filter (· ≠ ".")).dropLast

/-- The directory at which a path starts. -/
def start (path : String) : Path := if path.startsWith "/" then [] else t.current

/-- The most bytes of a name. -/
def maxNameSize : Nat := 255

/-- The most bytes of a path. -/
def maxPathSize : Nat := 4095

/-- Checks what the operating system checks of a path before it follows it. -/
def checkPath (path : String) : Except OsError Unit :=
  if path.toList.contains '\x00' then .error .unexpectedNul
  else if maxPathSize < path.utf8ByteSize then .error .nameTooLong
  else .ok ()

/-- The node of the given name in a directory. -/
def entry? (here : Path) (name : String) : Except OsError (Option Node) :=
  if maxNameSize < name.utf8ByteSize then .error .nameTooLong else .ok (t.node? (here ++ [name]))

/-- The directory that is reached from `here` by the given names: `.` stays, `..` goes up. -/
def walk (here : Path) : List String → Except OsError Path
  | [] => .ok here
  | name :: rest =>
    if name = "." then walk here rest
    else if name = ".." then walk here.dropLast rest
    else do
      match ← t.entry? here name with
      | some .directory => walk (here ++ [name]) rest
      | some (.file _) => throw .notADirectory
      | none => throw .notFound

/-- Whether a path leads to a directory. -/
def isDirectory (start : Path) (names : List String) : Bool :=
  match t.walk start names with
  | .ok _ => true
  | .error _ => false

/-! ## Directories -/

/-- Whether a directory may be made at a place. If not, `refuse` says why. -/
def mayMake (refuse : Path → Option OsError) (p : Path) : Except OsError Unit :=
  match refuse p with
  | some e => .error e
  | none => .ok ()

/-- Makes the directory at the end of a path, whose parent has to exist. -/
def makeDirectory (refuse : Path → Option OsError) (start : Path) (names : List String) :
    Except OsError FileTree := do
  let here ← t.walk start names.dropLast
  match names.getLast? with
  | none => throw .fileExists
  | some name =>
    if name = "." ∨ name = ".." then throw .fileExists
    -- a file in the way is reported like a directory
    match ← t.entry? here name with
    | some _ => throw .fileExists
    | none =>
      mayMake refuse (here ++ [name])
      return t.put (here ++ [name]) .directory

/-- Makes the directory at the end of a path, which may exist already. -/
def ensureDirectory (refuse : Path → Option OsError) (start : Path) (names : List String) :
    Except OsError FileTree :=
  match t.makeDirectory refuse start names with
  | .ok t => .ok t
  | .error e => if t.isDirectory start names then .ok t else .error e

/-- Makes a directory and those above it, the names given from the last to the first, up to the
first that is refused. A directory above is made only if it is found missing. -/
def ensureReversed (refuse : Path → Option OsError) (t : FileTree) (start : Path) :
    List String → FileTree × Option OsError
  | [] => (t, none)
  | name :: above =>
    match t.ensureDirectory refuse start (name :: above).reverse with
    | .ok t => (t, none)
    | .error .notFound =>
      match ensureReversed refuse t start above with
      | (t, none) =>
        match t.ensureDirectory refuse start (name :: above).reverse with
        | .ok t => (t, none)
        | .error e => (t, some e)
      | stopped => stopped
    | .error e => (t, some e)

/-- Makes the directory of the given path, and those above it. A dot is no directory of its own, so
the one that is missing before a final dot is not made. What has been made before a failure is left
behind. -/
def makeDirectories (refuse : Path → Option OsError) (path : String) : FileTree × Option OsError :=
  match checkPath path with
  | .error e => (t, some e)
  | .ok () =>
    let start := t.start path
    match t.ensureDirectory refuse start (names path) with
    | .ok t => (t, none)
    | .error .notFound =>
      match t.ensureReversed refuse start (namesAbove path).reverse with
      | (t, none) =>
        match t.ensureDirectory refuse start (names path) with
        | .ok t => (t, none)
        | .error e => (t, some e)
      | stopped => stopped
    | .error e => (t, some e)

/-- Makes a directory and those above it, where nothing but the tree stands in the way. -/
def createDirectories (path : String) : Except OsError FileTree :=
  match t.makeDirectories (fun _ => none) path with
  | (t, none) => .ok t
  | (_, some e) => .error e

/-! ## Files -/

/-- The place of the file at the end of a path, whose directory has to exist. -/
def filePlace (path : String) : Except OsError Path := do
  checkPath path
  let here ← t.walk (t.start path) (names path).dropLast
  let name := (names path).getLastD ""
  match ← t.entry? here name with
  | some .directory => throw .isADirectory
  | _ => return here ++ [name]

/-- Opens a file to write it from its start. It is made if it is missing, and else what it held is
gone. -/
def openFile (path : String) : Except OsError FileTree := do
  return t.put (← t.filePlace path) (.file "")

/-- The content of the file at a place. -/
def contentAt (p : Path) : String :=
  match t.node? p with
  | some (.file content) => content
  | _ => ""

/-- Goes on writing a text to an open file, which holds a beginning of it, by as many characters. -/
def advance (path text : String) (count : Nat) : FileTree :=
  match t.filePlace path with
  | .ok p => t.put p (.file (String.ofList (text.toList.take ((t.contentAt p).length + count))))
  | .error _ => t

/-- Writes a file from its start to its end. -/
def writeFile (path content : String) : Except OsError FileTree := do
  return (← t.openFile path).advance path content content.length

/-- The tree with the given path as its current directory, which is made if it is missing. -/
def enter (path : String) : Except OsError FileTree := do
  let t ← t.createDirectories path
  return { t with current := ← t.walk (t.start path) (names path) }

end FileTree

end ArrayBridge
