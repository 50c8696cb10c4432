import LogoLang.Session.Basic

set_option autoImplicit false

/-! # Folders

A folder of files, as far as the tools need one. Besides it there are the folders around it and the
root of all folders, in which nothing is known to be until it is written. A subfolder is there as long
as a file is in it. A path starts in the folder, or at the root when it starts with a slash. -/

namespace LogoLang

/-! ## Places -/

/-- A folder that is there without any file: the one at hand, those around it, and the root. -/
inductive Base where
  | around (levels : Nat)
  | root
deriving DecidableEq, Repr

/-- The folder at hand. -/
def Base.here : Base := .around 0

/-- The folder around a base; the root is around itself. -/
def Base.parent : Base → Base
  | .around levels => .around (levels + 1)
  | .root => .root

/-- A place is reached from a base through the names of subfolders. -/
structure Place where
  base : Base
  names : List Text
deriving DecidableEq, Repr

/-- The place around a place. -/
def Place.parent (p : Place) : Place :=
  if p.names.isEmpty then { p with base := p.base.parent } else { p with names := p.names.dropLast }

/-- The place of a name in the folder at a place. -/
def Place.child (p : Place) (name : Text) : Place := { p with names := p.names ++ [name] }

/-- Whether a place is within the folder at another one, or is that folder. -/
def Place.isWithin (p folder : Place) : Bool :=
  p.base = folder.base && folder.names.isPrefixOf p.names

/-! ## Files -/

/-- The files of the folder at hand and around it. -/
structure Folder where
  files : List (Place × ByteArray)

/-- What is at a place. -/
inductive FolderEntry where
  | file (content : ByteArray)
  | directory
  | nothing

/-- The parts of a path. -/
def pathParts (path : Text) : List Text := Text.splitOn '/' path

/-- Puts a file at a place, where it takes the place of one that is there. -/
def Folder.put (f : Folder) (place : Place) (content : ByteArray) : Folder :=
  if f.files.any (·.1 = place) then
    ⟨f.files.map fun file => if file.1 = place then (place, content) else file⟩
  else ⟨f.files ++ [(place, content)]⟩

/-- The folder in which the given files are written one after the other. -/
def Folder.ofFiles (files : List (Text × ByteArray)) : Folder :=
  files.foldl
    (fun f (path, content) =>
      f.put ⟨.here, (pathParts path).filter fun part => !part.isEmpty && part != ['.']⟩ content)
    ⟨[]⟩

/-- What is at a place. -/
def Folder.entry (f : Folder) (place : Place) : FolderEntry :=
  match f.files.find? (·.1 = place) with
  | some (_, content) => .file content
  | none =>
    if place.names.isEmpty || f.files.any (·.1.isWithin place) then .directory else .nothing

/-- The files of the folder at hand that are in no subfolder, sorted by name. -/
def Folder.topFiles (f : Folder) : List (Text × ByteArray) :=
  let named := f.files.filterMap fun (place, content) =>
    match place with
    | ⟨.around 0, [name]⟩ => some (name, content)
    | _ => none
  named.mergeSort fun a b => a.1.le b.1

/-! ## Finding a place -/

/-- The number of bytes that a text is encoded in. -/
def byteCount (t : Text) : Nat := (encodeText t).size

/-- The greatest number of bytes of a name. -/
def nameLimit : Nat := 255

/-- The greatest number of bytes of a path. -/
def pathLimit : Nat := 4095

/-- The place that a path starts from. -/
def startOf? (path : Text) : Except PathFault Place :=
  if path.contains '\x00' then .error .nullCharacter
  else if path.isEmpty then .error .notFound
  else if pathLimit < byteCount path then .error .tooLong
  else .ok ⟨if path.head? = some '/' then .root else .here, []⟩

/-- The place that the parts of a path lead to from another one. All places on the way have to be
folders. -/
def Folder.locate (f : Folder) : Place → List Text → Except PathFault Place
  | place, [] => .ok place
  | place, part :: rest =>
    match f.entry place with
    | .nothing => .error .notFound
    | .file _ => .error .notDirectory
    | .directory =>
      if part.isEmpty ∨ part = ['.'] then f.locate place rest
      else if part = ['.', '.'] then f.locate place.parent rest
      else if nameLimit < byteCount part then .error .tooLong
      else f.locate (place.child part) rest

/-! ## Reading and writing -/

/-- The content of a file. -/
def Folder.read (f : Folder) (path : Text) : Except PathFault ByteArray := do
  let place ← f.locate (← startOf? path) (pathParts path)
  match f.entry place with
  | .file content => return content
  | .directory => throw .isDirectory
  | .nothing => throw .notFound

/-- The parts of a path without the last name and the slashes after it. -/
def parentParts (path : Text) : List Text :=
  ((pathParts path).reverse.dropWhile List.isEmpty).reverse.dropLast

/-- Writes a file. A path that ends in a slash stands for a folder, whatever is there, as long as the
folder that it is in can be found. -/
def Folder.write (f : Folder) (path : Text) (content : ByteArray) : Except PathFault Folder := do
  let start ← startOf? path
  if path.getLast? = some '/' then
    let _ ← f.locate start (parentParts path ++ [['.']])
    throw .isDirectory
  else
    let place ← f.locate start (pathParts path)
    match f.entry place with
    | .directory => throw .isDirectory
    | _ => return f.put place content

/-! ## Relative paths -/

/-- The part of a path before its last slash. Slashes at its end are dropped, unless there is nothing
else. -/
def parentPath (path : Text) : Text :=
  let head := (path.reverse.dropWhile (· != '/')).reverse
  let trimmed := (head.reverse.dropWhile (· == '/')).reverse
  if trimmed.isEmpty then head else trimmed

/-- A path that is meant from within another one. -/
def joinPath (parent path : Text) : Text :=
  if path.head? = some '/' ∨ parent.isEmpty then path
  else if parent.getLast? = some '/' then parent ++ path
  else parent ++ '/' :: path

/-- A path that is meant from the folder of another file, if one is given. -/
def pathBeside (file : Option Text) (path : Text) : Text :=
  match file with
  | some file => if file.isEmpty then path else joinPath (parentPath file) path
  | none => path

/-! ## Programs in files -/

/-- The session of the program at a path under named options. The file has to be there before the
options are looked at, and these before the text is read. -/
def Folder.openSession (f : Folder) (given : Bindings Setting) (path : Text) :
    Except Failure Session := do
  let content ← (f.read path).mapError .path
  let options ← (Options.ofGiven given).mapError .options
  (Session.startFile options path content).2

end LogoLang
