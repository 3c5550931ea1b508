import LoxLang.Failure
import LoxLang.Text.Lines

/-!
A tree of files and directories, and the text of the file at a path.
-/

set_option autoImplicit false
set_option relaxedAutoImplicit false

namespace LoxLang

/-- Files with their bytes, and directories, by their paths from the working directory. The directories
on the way to them need not be listed. -/
structure FileTree where
  files : List (List String × List UInt8)
  directories : List (List String)

namespace FileTree

def ofPaths (files : List (String × List UInt8)) (directories : List String) : FileTree where
  files := files.map fun (path, bytes) => (path.splitOn "/", bytes)
  directories := directories.map (·.splitOn "/")

def isDirectory (t : FileTree) (place : List String) : Bool :=
  place.isEmpty || t.directories.any place.isPrefixOf ||
    t.files.any fun file => place.isPrefixOf file.1 && place.length < file.1.length

/-- Where a walk along a path has come. Nothing is known of what lies outside. -/
inductive Place
  | outside
  | directory (place : List String)
  | file (bytes : List UInt8)

/-- The bytes that the name of a file and a whole path may have. -/
def nameLimit : Nat := 255

def pathLimit : Nat := 4095

/-- Why there is nothing of a name. -/
def missing (name : String) : OpenFault :=
  if nameLimit < name.utf8ByteSize then .nameTooLong else .noSuchFile

/-- One step along a path, if there is something to step to. -/
def step (t : FileTree) (name : String) : Place → Except OpenFault Place
  | .file _ => .error .notDirectory
  | .outside => if ["", ".", ".."].contains name then .ok .outside else .error (missing name)
  | .directory place =>
    if name = "" || name = "." then .ok (.directory place)
    else if name = ".." then .ok (if place.isEmpty then .outside else .directory place.dropLast)
    else
      match t.files.lookup (place ++ [name]) with
      | some bytes => .ok (.file bytes)
      | none =>
        if t.isDirectory (place ++ [name]) then .ok (.directory (place ++ [name]))
        else .error (missing name)

def find (t : FileTree) (path : String) : Except OpenFault (List UInt8) := do
  if path = "" then .error .noSuchFile
  else if pathLimit < path.utf8ByteSize then .error .nameTooLong
  else
    let origin := if path.toList.head? = some '/' then .outside else .directory []
    match ← (path.splitOn "/").foldlM (fun place name => t.step name place) origin with
    | .file bytes => .ok bytes
    | _ => .error .isDirectory

/-- The bytes of the file at a path. -/
def bytes (t : FileTree) (path : String) : Except Mishap (List UInt8) :=
  if path.toList.contains '\x00' then .error .nullInPath
  else (t.find path).mapError (.cannotOpen path)

end FileTree

/-- The text of a file, in which every line ends with a newline. -/
def fileText (bytes : List UInt8) : Except Mishap String :=
  match Text.Utf8.decode bytes with
  | .ok chars => .ok (String.ofList (Text.unifyBreaks chars))
  | .error fault => .error (.badEncoding fault)

def FileTree.text (t : FileTree) (path : String) : Except Mishap String := do
  fileText (← t.bytes path)

end LoxLang
