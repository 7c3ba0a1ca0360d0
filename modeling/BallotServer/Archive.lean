import BallotServer.Bytes
import BallotServer.Decimal
import BallotServer.SystemError
import BallotServer.Text

/-! The archive of scanned ballots. Each scan is a file in the directory of its election, named by
the clock's reading in milliseconds, the number of the upload and an extension for its media type.
The number is taken after the directory is there and before the file is written, so no two files
of one archiver share a name even if the clock stands still. A file is made or emptied before it is
written, so a write that fails may leave any first part of a scan. -/

namespace BallotServer

inductive ArchiveError
  | notConfigured
  | io (cause : SystemError)
  deriving DecidableEq, Repr

def ArchiveError.message : ArchiveError → String
  | notConfigured => "no image archive directory configured"
  | io cause => "archive i/o failed: " ++ cause.message

namespace Scan

inductive Extension
  | jpg
  | png
  | bin
  deriving DecidableEq, Repr

namespace Extension

def text : Extension → String
  | jpg => "jpg"
  | png => "png"
  | bin => "bin"

/-- A media type without its parameters, in lower case. -/
def essence (mediaType : List Char) : List Char :=
  (Text.trim (((Text.parts ';' mediaType).head?).getD [])).map Char.toLower

def ofMediaType : Option (List Char) → Extension
  | none => bin
  | some mediaType =>
    let kind := String.ofList (essence mediaType)
    if kind = "image/jpeg" || kind = "image/jpg" then jpg
    else if kind = "image/png" then png
    else bin

end Extension

structure Name where
  election : Int
  millis : Int
  number : Nat
  extension : Extension
  deriving DecidableEq, Repr

def Name.path (n : Name) : String :=
  Decimal.text n.election ++ "/" ++ Decimal.text n.millis ++ "-" ++ Decimal.text n.number ++ "." ++
    n.extension.text

end Scan

structure Scan where
  name : Scan.Name
  image : ByteArray
  deriving DecidableEq

structure Archive where
  /-- In the order in which their paths were first written. -/
  files : List Scan
  next : Nat
  deriving DecidableEq

namespace Archive

def empty : Archive := ⟨[], 0⟩

/-- A new archiver over the same files counts from the start. -/
def restart (a : Archive) : Archive := { a with next := 0 }

/-- A write that fails, and how many bytes it has left, if it got as far as to open the file. -/
structure Refusal where
  cause : SystemError
  written : Option Nat
  deriving DecidableEq, Repr

structure Disk where
  directory : Option SystemError
  millis : Int
  file : Option Refusal
  deriving DecidableEq, Repr

/-- What the write of an image leaves at its path. -/
def Disk.content? (disk : Disk) (image : ByteArray) : Option ByteArray :=
  match disk.file with
  | none => some image
  | some refusal => refusal.written.map fun n => image.extract 0 n

def overwrite (files : List Scan) (scan : Scan) : List Scan :=
  match files with
  | [] => [scan]
  | f :: rest =>
    if f.name.path = scan.name.path then scan :: rest else f :: overwrite rest scan

def store (a : Archive) (disk : Disk) (election : Int) (mediaType : Option (List Char))
    (image : ByteArray) : Except ArchiveError Scan.Name × Archive :=
  match disk.directory with
  | some e => (.error (.io e), a)
  | none =>
    let name : Scan.Name := ⟨election, disk.millis, a.next, .ofMediaType mediaType⟩
    let files := match disk.content? image with
      | none => a.files
      | some content => overwrite a.files ⟨name, content⟩
    let answer := match disk.file with
      | some refusal => .error (.io refusal.cause)
      | none => .ok name
    (answer, ⟨files, a.next + 1⟩)

theorem store_directory_error (a : Archive) {disk : Disk} {e : SystemError}
    (h : disk.directory = some e) (election : Int) (mediaType : Option (List Char))
    (image : ByteArray) : a.store disk election mediaType image = (.error (.io e), a) := by
  simp [store, h]

end Archive

end BallotServer
