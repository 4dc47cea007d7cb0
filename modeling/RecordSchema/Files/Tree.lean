import RecordSchema.Entries
import RecordSchema.Files.Filesystem
import RecordSchema.Files.Path

/-!
# Trees of files

A `FileTree` is a file or a directory with everything below it; the tree of a
whole file system starts at its root. Paths are followed from there: empty parts
and single points stay where they are, and two points go up, but not beyond the
root. A path that is not absolute is one behind the parts of the working
directory. `FileTree.filesystem` offers the tree as a `Filesystem` whose actions
read and change it.
-/

namespace RecordSchema

/-- A file with its bytes, or a directory with what it holds. -/
inductive FileTree where
  | file (content : ByteArray)
  | directory (entries : List (String × FileTree))

namespace FileTree

instance : Inhabited FileTree := ⟨directory []⟩

/-- Follows the parts of a path. `above` holds the directories that lead to
`current`, with their names, the nearest one first; so does the result. -/
def follow (above : List (String × FileTree)) (current : FileTree) :
    List String → Except FileError (List (String × FileTree) × FileTree)
  | [] => .ok (above, current)
  | part :: rest =>
    match current with
    | file _ => .error .notDirectory
    | directory entries =>
      if part = "" || part = "." then
        follow above current rest
      else if part = ".." then
        match above with
        | [] => follow [] current rest
        | (_, parent) :: above => follow above parent rest
      else
        match Entries.get? entries part with
        | none => .error .notFound
        | some child => follow ((part, current) :: above) child rest

/-- What the parts of a path lead to. -/
def reach (tree : FileTree) (parts : List String) : Except FileError FileTree :=
  (follow [] tree parts).map Prod.snd

/-- The parts along which a path is followed. The empty path leads nowhere. -/
def partsOf (working : List String) (path : String) : Except FileError (List String) :=
  if path = "" then .error .notFound else .ok (Path.partsFrom working path)

/-- What a path leads to. -/
def find (tree : FileTree) (path : String) (working : List String := []) :
    Except FileError FileTree := do
  let parts ← partsOf working path
  tree.reach parts

/-- The tree with something at the place of the given names; directories that
are missing on the way are made. -/
def put : FileTree → List String → FileTree → FileTree
  | _, [], new => new
  | file content, _ :: _, _ => file content
  | directory entries, name :: names, new =>
    directory (Entries.put entries name
      (put ((Entries.get? entries name).getD (directory [])) names new))

/-- The names that lead from the root to a place that was followed to. -/
def namesOf (above : List (String × FileTree)) : List String :=
  (above.map Prod.fst).reverse

/-- Whether a path leads to a directory. -/
def isDirectory (tree : FileTree) (path : String) (working : List String := []) : Bool :=
  match tree.find path working with
  | .ok (directory _) => true
  | _ => false

/-- Whether a path leads to a file. -/
def isFile (tree : FileTree) (path : String) (working : List String := []) : Bool :=
  match tree.find path working with
  | .ok (file _) => true
  | _ => false

/-- The text of a file. -/
def readText (tree : FileTree) (path : String) (working : List String := []) :
    Except FileError String := do
  match ← tree.find path working with
  | file content => Filesystem.decode content
  | directory _ => .error .isDirectory

/-- The names in a directory. -/
def list (tree : FileTree) (path : String) (working : List String := []) :
    Except FileError (List String) := do
  match ← tree.find path working with
  | file _ => .error .notDirectory
  | directory entries => .ok (Entries.names entries)

/-- The directory to which the parts in front of the last one lead: its place and
what it holds. -/
def folder (tree : FileTree) (parts : List String) :
    Except FileError (List String × List (String × FileTree)) := do
  let (above, current) ← follow [] tree parts.dropLast
  match current with
  | file _ => .error .notDirectory
  | directory entries => .ok (namesOf above, entries)

/-- Makes a directory under the last part of a path, where nothing may stand. -/
def makeDirectory (tree : FileTree) (parts : List String) : Except FileError FileTree := do
  let last := parts.getLast?.getD ""
  let (place, entries) ← tree.folder parts
  if Path.isName last && !Entries.has entries last then
    .ok (tree.put (place ++ [last]) (directory []))
  else
    .error .alreadyExists

/-- Makes a directory, unless there is one already. -/
def ensureDirectory (tree : FileTree) (parts : List String) : Except FileError FileTree :=
  match tree.makeDirectory parts with
  | .ok made => .ok made
  | .error error =>
    match tree.reach parts with
    | .ok (directory _) => .ok tree
    | _ => .error error

/-- The error of writing to a path that ends in a slash or in points, and so
names no file. If there is a directory in front of its last name, the error is
that the path leads to a directory, whatever that name stands for. -/
def refusal (tree : FileTree) (parts : List String) : FileError :=
  let named := (parts.reverse.dropWhile (· = "")).reverse
  match follow [] tree named.dropLast with
  | .ok (_, directory _) => .isDirectory
  | .ok (_, file _) => .notDirectory
  | .error error => error

/-- Gives a file a text. A path that ends in a slash or in points names no file. -/
def writeText (tree : FileTree) (path text : String) (working : List String := []) :
    Except FileError FileTree := do
  let parts ← partsOf working path
  let last := parts.getLast?.getD ""
  if Path.isName last then do
    let (place, entries) ← tree.folder parts
    match Entries.get? entries last with
    | some (directory _) => .error .isDirectory
    | _ => .ok (tree.put (place ++ [last]) (file text.toUTF8))
  else
    .error (tree.refusal parts)

/-- Reads from the tree. -/
def query {α : Type} (f : FileTree → α) : StateM FileTree α :=
  fun tree => (f tree, tree)

/-- Changes the tree, unless that fails. -/
def change (f : FileTree → Except FileError FileTree) : StateM FileTree (Except FileError Unit) :=
  fun tree =>
    match f tree with
    | .ok changed => (.ok (), changed)
    | .error error => (.error error, tree)

/-- Makes a directory and those above it, as far as they are missing. `base` leads
to where the path starts, and the steps of the path come with the last one first.
The whole path is tried first; only if it leads through something missing, the
directories above are made, and then it is tried again. -/
def makeDirectories (base : List String) : List String → StateM FileTree (Except FileError Unit)
  | [] => return .ok ()
  | last :: above => do
    let parts := base ++ (last :: above).reverse
    match ← change (·.ensureDirectory parts) with
    | .error .notFound =>
      match ← makeDirectories base above with
      | .error error => return .error error
      | .ok () => change (·.ensureDirectory parts)
    | result => return result

/-- The tree as a place that holds files. `working` leads from the root to the
working directory, which is the root itself if nothing else is said. -/
def filesystem (working : List String := []) : Filesystem (StateM FileTree) where
  isDirectory path := query (·.isDirectory path working)
  isFile path := query (·.isFile path working)
  readText path := query (·.readText path working)
  list path := query (·.list path working)
  makeDirectories path := makeDirectories (Path.start working path) (Path.steps path).reverse
  writeText path text := change (·.writeText path text working)

mutual

/-- The files of a tree with their paths. -/
def files (path : String) : FileTree → List (String × ByteArray)
  | file content => [(path, content)]
  | directory entries => filesIn path entries

/-- The files below the entries of a directory, with their paths. -/
def filesIn (path : String) : List (String × FileTree) → List (String × ByteArray)
  | [] => []
  | (name, child) :: rest => files (Path.join path name) child ++ filesIn path rest

end

end FileTree

end RecordSchema
