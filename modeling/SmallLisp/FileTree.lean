import SmallLisp.Error

/-!
# File trees

Files held in memory, found by path from a working directory as a system would find them: a
path is followed from directory to directory, `.` stays, `..` goes up, and a path from the
root starts there. Following a path fails at the first name that is missing or that is a file
where a directory is needed.

No other module depends on this one: it stands in for a file system where the program is to run on
files that are given with its input, as `CommandLine.execute` runs it on lines that are.

## Main definitions

* `FileTree`: files and directories, and the working directory
* `FileTree.ofEntries`: the tree with some files in its working directory
* `FileTree.read`: the text of the file at a path, or why there is none
* `FileTree.createFault?`: why no file can be written at a path
-/

namespace SmallLisp

/-- Files and directories by their names from the root. A directory that holds something need
not be listed. -/
structure FileTree where
  /-- The working directory. -/
  working : List String
  files : List (List String × ByteArray)
  directories : List (List String)

namespace FileTree

/-- The working directory of trees that are made without one. Nothing but its existence and
that of its parents is known. -/
def standardWorking : List String := ["tmp", "work"]

/-- Whether a path is a directory: one that is listed, or lies on the way to something. -/
def isDirectory (tree : FileTree) (path : List String) : Bool :=
  path.isPrefixOf tree.working || tree.directories.any path.isPrefixOf ||
    tree.files.any fun file => path.isPrefixOf file.1 && path.length < file.1.length

/-- The contents of the file at a path. -/
def file? (tree : FileTree) (path : List String) : Option ByteArray := tree.files.lookup path

/-- What stands at the end of a path. -/
inductive Node where
  | directory (path : List String)
  | file (contents : ByteArray)

/-- What a name leads to from a directory. -/
def enter (tree : FileTree) (path : List String) (name : String) : Except FileFault Node :=
  if name = "" ∨ name = "." then .ok (.directory path)
  else if name = ".." then .ok (.directory path.dropLast)
  else if 255 < name.utf8ByteSize then .error .nameTooLong
  else if tree.isDirectory (path ++ [name]) then .ok (.directory (path ++ [name]))
  else
    match tree.file? (path ++ [name]) with
    | some contents => .ok (.file contents)
    | none => .error .notFound

/-- Follows names from what a path has led to so far. -/
def follow (tree : FileTree) : Node → List String → Except FileFault Node
  | node, [] => .ok node
  | .file _, _ :: _ => .error .notDirectory
  | .directory path, name :: rest => do tree.follow (← tree.enter path name) rest

/-- The names in a path and the directory they are followed from; a path that starts with a
slash starts at the root. -/
def split (tree : FileTree) (path : String) : Except FileFault (List String × List String) :=
  if path = "" then .error .notFound
  else if path.toList.contains '\x00' then .error .nulInPath
  else if 4096 ≤ path.utf8ByteSize then .error .nameTooLong
  else
    let names := path.splitOn "/"
    .ok (if path.startsWith "/" then [] else tree.working, names)

/-- What stands at the end of a path. -/
def find (tree : FileTree) (path : String) : Except FileFault Node := do
  let (origin, names) ← tree.split path
  tree.follow (.directory origin) names

/-- The text of the file at a path. -/
def read (tree : FileTree) (path : String) : Except FileFault String := do
  match ← tree.find path with
  | .directory _ => throw .isDirectory
  | .file contents =>
    match String.fromUTF8? contents with
    | some text => return text
    | none => throw .notText

/-- Why no file can be written at a path, if none can. The directory must be there, and the
last name must not stand for a directory, be it by a slash behind it. -/
def createFault? (tree : FileTree) (path : String) : Option FileFault :=
  let outcome : Except FileFault Unit := do
    let (origin, names) ← tree.split path
    let last := names.reverse.dropWhile (· == "")
    let parent ← tree.follow (.directory origin) last.tail.reverse
    match parent, last.head? with
    | .file _, _ => throw .notDirectory
    | .directory _, none => throw .isDirectory
    | .directory directory, some name =>
      if names.getLast? == some "" then throw .isDirectory
      match tree.enter directory name with
      | .ok (.directory _) => throw .isDirectory
      | .ok (.file _) => return ()
      | .error .notFound => return ()
      | .error fault => throw fault
  match outcome with
  | .ok _ => none
  | .error fault => some fault

/-- The tree with some entries in its working directory: the names of directories end with a
slash, and other names are those of files. -/
def ofEntries (entries : List (String × ByteArray)) : FileTree :=
  let place (name : String) : List String :=
    standardWorking ++ (name.splitOn "/").filter (· != "")
  let (directories, files) := entries.partition fun entry => entry.1.endsWith "/"
  { working := standardWorking
    files := files.map fun entry => (place entry.1, entry.2)
    directories := directories.map fun entry => place entry.1 }

end FileTree

end SmallLisp
