/-! Files as the program sees them, and a tree of files that is held in memory. -/
namespace KeyForm

inductive FileFault where
  | system (reason : String) (code : Nat)
  | nulInName
  | invalidText
  deriving DecidableEq, Repr

namespace FileFault

def notFound : FileFault := .system "No such file or directory" 2

def notDirectory : FileFault := .system "Not a directory" 20

def isDirectory : FileFault := .system "Is a directory" 21

def nameTooLong : FileFault := .system "File name too long" 36

def message : FileFault → String
  | .system reason code => s!"{reason} (os error {code})"
  | .nulInName => "file name contained an unexpected NUL byte"
  | .invalidText => "stream did not contain valid UTF-8"

end FileFault

def decodeText (bytes : ByteArray) : Except FileFault String :=
  match String.fromUTF8? bytes with
  | some s => .ok s
  | none => .error .invalidText

def joinPath (base name : String) : String :=
  if base.isEmpty then name
  else if base.endsWith "/" then base ++ name
  else s!"{base}/{name}"

def pathLimit : Nat := 4096

def nameLimit : Nat := 255

/-- Files by their paths from the root, and the place where other paths begin. A path
without a file is a directory if it leads to that place or to a file. -/
structure FileTree where
  files : List (List String × ByteArray)
  here : List String

namespace FileTree

def ofFiles (here : List String) (files : List (String × ByteArray)) : FileTree :=
  ⟨files.map fun f => (here ++ f.1.splitOn "/", f.2), here⟩

def file? (t : FileTree) (path : List String) : Option ByteArray :=
  (t.files.find? fun f => f.1 == path).map Prod.snd

def isDirectory (t : FileTree) (path : List String) : Bool :=
  path.isPrefixOf t.here || t.files.any fun f => path.isPrefixOf f.1 && f.1 != path

def follow (t : FileTree) : List String → List String → Except FileFault (List String)
  | place, [] => .ok place
  | place, name :: rest =>
    if !t.isDirectory place then
      .error (if (t.file? place).isSome then .notDirectory else .notFound)
    else if nameLimit < name.utf8ByteSize then .error .nameTooLong
    else if name == "" || name == "." then follow t place rest
    else if name == ".." then follow t place.dropLast rest
    else follow t (place ++ [name]) rest

def read (t : FileTree) (path : String) : Except FileFault ByteArray := do
  if path.isEmpty then .error .notFound
  else if pathLimit ≤ path.utf8ByteSize then .error .nameTooLong
  else
    let place ← t.follow (if path.startsWith "/" then [] else t.here) (path.splitOn "/")
    match t.file? place with
    | some bytes => .ok bytes
    | none => .error (if t.isDirectory place then .isDirectory else .notFound)

end FileTree
end KeyForm
