import Voxel.Error
import Voxel.OrderedMap
/-!
Folders of version descriptions. The file of a version is found by a path, which may wander: empty
parts and single dots stay where they are, two dots lead out of the folder, and nothing is found
out there. A folder holds files only, so no path goes on behind one of its names.
-/
namespace Voxel

/-- A folder by its path, with the text of each file in it unless the folder is missing. -/
structure Folder where
  path : String
  files : Option (OrderedMap String String)
  deriving Inhabited, Repr

namespace Folder

def maxName : Nat := 255

def maxPath : Nat := 4095

/-- Whether a version leads away from the folder at once. -/
def isAbsolute (version : String) : Bool := version.toList.head? = some '/'

def file (f : Folder) (version : String) : String :=
  if isAbsolute version then s!"{version}.json" else s!"{f.path}/{version}.json"

def parts : List Char → List (List Char)
  | [] => [[]]
  | c :: rest =>
    if c = '/' then [] :: parts rest
    else
      match parts rest with
      | part :: others => (c :: part) :: others
      | [] => [[c]]

/-- The name in the folder that the parts of a path lead to, from within the folder or from outside
of it. The first part that leads nowhere decides. -/
def locate (names : List String) (inside : Bool) : List String → Except FileError String
  | [] => .error .notFound
  | part :: rest =>
    if part = "" ∨ part = "." then locate names inside rest
    else if part = ".." then locate names false rest
    else if maxName < part.utf8ByteSize then .error .nameTooLong
    else if !inside then .error .notFound
    else if rest.isEmpty then .ok part
    else .error (if part ∈ names then .notADirectory else .notFound)

def nameOf (f : Folder) (version : String) : Except FileError String :=
  let steps := (parts (version.toList ++ ".json".toList)).map String.ofList
  if '\x00' ∈ version.toList then .error .invalidName
  else if maxPath < (f.file version).utf8ByteSize then .error .nameTooLong
  else if isAbsolute version then locate [] false steps
  else
    match f.files with
    | some files => locate files.keys true steps
    | none => .error .notFound

def open? (f : Folder) (version : String) : Except FileError String := do
  let name ← f.nameOf version
  match f.files.bind (·.find? name) with
  | some text => return text
  | none => .error .notFound

/-- The folder with a version's file written, if its path leads into the folder. -/
def write (f : Folder) (version text : String) : Folder :=
  match f.nameOf version with
  | .ok name => { f with files := f.files.map (·.insert name text) }
  | .error _ => f

def remove (f : Folder) (version : String) : Folder :=
  match f.nameOf version with
  | .ok name => { f with files := f.files.map (·.erase name) }
  | .error _ => f

def ofVersions (path : String) (texts : List (String × String)) : Folder :=
  texts.foldl (fun f (version, text) => f.write version text) ⟨path, some .empty⟩

end Folder
end Voxel
