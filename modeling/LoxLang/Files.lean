/-!
# Files

Sources come from files.  A file tree is a directory with the files and directories below it;
`FileTree.find` follows a path in it, and `sourceText` takes the contents of a file as text.
-/

namespace LoxLang

/-- Why a file could not be read or made. -/
inductive FileFault where
  | missing
  | isDirectory
  | notDirectory
  | notText
  /-- Any other reason, as the system puts it. -/
  | other (reason : String)
  deriving Repr, DecidableEq

def FileFault.message : FileFault → String
  | missing => "No such file or directory (os error 2)"
  | isDirectory => "Is a directory (os error 21)"
  | notDirectory => "Not a directory (os error 20)"
  | notText => "stream did not contain valid UTF-8"
  | other reason => reason

/-- The text of a file, which has to be UTF-8; otherwise the fault is `notText`. -/
def sourceText (contents : ByteArray) : Except FileFault String :=
  match String.fromUTF8? contents with
  | some text => .ok text
  | none => .error .notText

/-! ## File trees -/

inductive FileNode where
  | file (contents : ByteArray)
  | directory

/-- Files and directories by their paths, each a list of names. -/
structure FileTree where
  nodes : List (List String × FileNode)

namespace FileTree

/-- What is at `path`.  Whatever lies above a file or directory is a directory. -/
def node? (t : FileTree) (path : List String) : Option FileNode :=
  if path.isEmpty then some .directory
  else
    match t.nodes.lookup path with
    | some node => some node
    | none => if t.nodes.any (fun n => path.isPrefixOf n.1) then some .directory else none

/-- Where a path has led so far: into the tree, or out of it. -/
inductive Place where
  | inside (path : List String)
  | outside

/-- Follow one `name` of a path.  Names are followed from directories only; nothing is known of what
lies outside of the tree. -/
def follow (t : FileTree) (place : Place) (name : String) : Except FileFault Place :=
  match place with
  | .outside => if name = "" ∨ name = "." ∨ name = ".." then .ok .outside else .error .missing
  | .inside path =>
    match t.node? path with
    | none => .error .missing
    | some (.file _) => .error .notDirectory
    | some .directory =>
      if name = "" ∨ name = "." then .ok place
      else if name = ".." then .ok (if path.isEmpty then .outside else .inside path.dropLast)
      else if (t.node? (path ++ [name])).isSome then .ok (.inside (path ++ [name]))
      else .error .missing

/-- Follow `path` from the root of the tree; an absolute path starts outside of it. -/
def find (t : FileTree) (path : String) : Except FileFault FileNode := do
  let start := if path.startsWith "/" then Place.outside else .inside []
  match ← (path.splitOn "/").foldlM t.follow start with
  | .outside => return .directory
  | .inside path =>
    match t.node? path with
    | some node => return node
    | none => throw .missing

/-- The contents of the file at `path`. -/
def read (t : FileTree) (path : String) : Except FileFault ByteArray := do
  match ← t.find path with
  | .file contents => return contents
  | .directory => throw .isDirectory

/-- Make an empty file in the root, in place of a file of that `name`. -/
def create (t : FileTree) (name : String) : Except FileFault FileTree :=
  match t.node? [name] with
  | some .directory => .error .isDirectory
  | _ => .ok ⟨([name], .file .empty) :: t.nodes⟩

/-- Whether there is a file, and no directory, of this `name` in the root. -/
def hasFile (t : FileTree) (name : String) : Bool :=
  match t.node? [name] with
  | some (.file _) => true
  | _ => false

end FileTree

end LoxLang
