/-! # Directories and paths

The command runs in a directory of files. A path names a file of it, a directory, or nothing; this
file says which, and how a path is written in a message: without the components that stay in place
and without repeated slashes. -/

namespace Lox

/-- The files of a directory, by name. -/
structure Directory where
  files : List (String × List UInt8) := []

/-- What a path leads to. -/
inductive Place
  /-- A directory. -/
  | directory
  /-- An entry of the directory the command runs in, which may exist or not. -/
  | entry (name : String)
  /-- An entry of a directory above it, which does not exist and can be made. -/
  | above
  /-- Something below a file. -/
  | belowFile
  /-- Nothing, and nothing can be made there. -/
  | nowhere
  /-- A name or a path of more bytes than there can be. -/
  | tooLong
  /-- Text with a null character, which is no path. -/
  | noPath
deriving DecidableEq, Repr

namespace Directory

/-- The contents of a file. -/
def contents? (d : Directory) (name : String) : Option (List UInt8) := d.files.lookup name

end Directory

namespace Place

/-- The components of a path, those included that stay in place. -/
def components (path : String) : List String :=
  (path.toList.splitOn '/').map String.ofList

/-- Whether a component stays in place. -/
def isIdle (component : String) : Bool := component = "" || component = "."

/-- The most bytes that a name can have. -/
def nameLimit : Nat := 255

/-- The most bytes that a path can have. -/
def pathLimit : Nat := 4095

/-- Follows components; outside of the directory of the command only directories above it are
known. -/
def follow (d : Directory) : (outside : Bool) → List String → Place
  | _, [] => .directory
  | outside, component :: rest =>
    if isIdle component then follow d outside rest
    else if component = ".." then follow d true rest
    else if !rest.isEmpty && rest.all (· = "") then .directory
    else if nameLimit < component.utf8ByteSize then .tooLong
    else match rest with
      | [] => if outside then .above else .entry component
      | _ => if !outside && (d.contents? component).isSome then .belowFile else .nowhere

/-- **What a path leads to.** A slash behind a name asks for a directory. -/
def ofPath (d : Directory) (path : String) : Place :=
  if path.toList.contains '\x00' then .noPath
  else if pathLimit < path.utf8ByteSize then .tooLong
  else if path = "" then .nowhere
  else follow d (path.toList.head? = some '/') (components path)

/-- A path without the components that stay in place; two slashes in front, and no more, are
kept. -/
def normalize (path : String) : String :=
  let root := match path.toList with
    | '/' :: '/' :: '/' :: _ => "/"
    | '/' :: '/' :: _ => "//"
    | '/' :: _ => "/"
    | _ => ""
  let text := root ++ "/".intercalate ((components path).filter fun c => !isIdle c)
  if text = "" then "." else text

end Place

end Lox
