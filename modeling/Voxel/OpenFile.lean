import Voxel.Error
/-!
A file that is open for reading and writing. Reads and writes go on from a place in the file and move
it; a write goes over the bytes that stand there, and the length of the file is set apart from it.
-/
namespace Voxel

/-- The bytes of a file, and the place where the next read or write begins. -/
structure OpenFile where
  bytes : ByteArray
  place : Nat
  deriving Inhabited

namespace OpenFile

def existing (bytes : ByteArray) : OpenFile := ⟨bytes, 0⟩

def created : OpenFile := ⟨.empty, 0⟩

/-- Reads what is left of a file as text. -/
def readText (f : OpenFile) : Except FileError String × OpenFile :=
  let text := match String.fromUTF8? (f.bytes.extract f.place f.bytes.size) with
    | some s => .ok s
    | none => .error .invalidData
  (text, { f with place := max f.place f.bytes.size })

def seek (f : OpenFile) (place : Nat) : OpenFile := { f with place }

def zeros (n : Nat) : ByteArray := ⟨Array.replicate n 0⟩

/-- The bytes up to a length; bytes that are missing are zero. -/
def upTo (bytes : ByteArray) (length : Nat) : ByteArray :=
  bytes.extract 0 length ++ zeros (length - bytes.size)

def write (f : OpenFile) (new : ByteArray) : OpenFile :=
  let next := f.place + new.size
  ⟨upTo f.bytes f.place ++ new ++ f.bytes.extract next f.bytes.size, next⟩

def setLength (f : OpenFile) (length : Nat) : OpenFile := { f with bytes := upTo f.bytes length }

end OpenFile
end Voxel
