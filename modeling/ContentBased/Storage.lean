import ContentBased.Library.FileLogic
import ContentBased.Library.Decimal

namespace ContentBased
open RecordDisk

inductive Code where
  | notFound
  | corruption
  | ioError
  | invalidData
deriving DecidableEq, Repr

structure Failure where
  code : Code
  message : String
deriving DecidableEq, Repr

/-- A `Status` is OK or carries a failure. -/
abbrev Status := Except Failure Unit

/-- The files the model works on, by the parts their names are printed from. -/
inductive FileName where
  | writing (path prefix_ : String)
  | recovering (path prefix_ : String)
  | log (path prefix_ : String) (counter : Int)
  | table (path name : String)
  | temporary (path name : String)
  | plain (name : String)
deriving DecidableEq, Repr

def FileName.text : FileName → String
  | .writing path prefix_ => path ++ "/" ++ prefix_ ++ ".writing"
  | .recovering path prefix_ => path ++ "/" ++ prefix_ ++ ".recovering"
  | .log path prefix_ counter => path ++ "/" ++ prefix_ ++ "-" ++ toString counter ++ ".log"
  | .table path name => path ++ "/" ++ name
  | .temporary path name => path ++ "/" ++ name ++ ".tmp"
  | .plain name => name

abbrev Files := Disk FileName Bytes

/-- Code that works on the files; a failed system call hands over the text of its `errno`. -/
abbrev Program := FileM FileName Bytes Failure

def noSuchFile : Failure := ⟨.ioError, "No such file or directory"⟩

def renameError (errno : Failure) (oldfile newfile : FileName) : Failure :=
  ⟨.ioError, errno.message ++ ", oldfile=" ++ oldfile.text ++ ", newfile=" ++ newfile.text⟩

def removeError (errno : Failure) (file : FileName) : Failure :=
  ⟨.ioError, errno.message ++ ", file=" ++ file.text⟩

/-- The writer of a write-ahead log. Its records go to the file it was made for;
`create` truncates that file, `append` extends it, and both need it open to succeed. -/
structure WALWriter where
  filename : FileName
  opened : Bool
deriving DecidableEq, Repr

namespace WALWriter

def create (writer : WALWriter) : Program (Status × WALWriter) := do
  match ← RecordDisk.create writer.filename with
  | .error failure => return (.error failure, writer)
  | .ok () => return (.ok (), { writer with opened := true })

def append (writer : WALWriter) (data : Bytes) (flush : Bool := true) : Program Status :=
  if writer.opened then RecordDisk.append writer.filename data flush
  else return .error ⟨.ioError, "Bad file descriptor"⟩

def flush (writer : WALWriter) : Program Status :=
  if writer.opened then RecordDisk.sync writer.filename
  else return .error ⟨.ioError, "Bad file descriptor"⟩

def close (writer : WALWriter) : WALWriter := { writer with opened := false }

end WALWriter

end ContentBased
