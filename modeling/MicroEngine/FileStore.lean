import MicroEngine.FileStore.Device
/-!
# Files

* `FileStore`: the files of a directory tree, held as data.
* `FileStore.locate`: the place that a path names.
* `FileStore.read`, `FileStore.write`: the text of a file, and a store with one more file.
* `FileStore.printout`: what appears of a text that is written to a device.
-/

namespace MicroEngine

/-- The files of a directory tree. -/
structure FileStore where
  files : List (Place × List UInt8)
  deriving DecidableEq

namespace FileStore

/-- A store with files below the working directory. -/
def ofList (files : List (String × List UInt8)) : FileStore :=
  ⟨files.map fun f => (Path.place f.1, f.2)⟩

/-- The directories that every tree has below its root. -/
def topDirectories : List String :=
  ["boot", "dev", "etc", "home", "media", "mnt", "opt", "proc", "root", "run", "srv", "sys", "tmp",
    "usr", "var"]

/-- The directories that every tree has below some of these. -/
def nestedDirectories : List (String × List String) :=
  [("dev", ["fd", "pts", "shm"]), ("proc", ["self"]), ("run", ["lock"]),
    ("usr",
      ["bin", "games", "include", "lib", "lib64", "libexec", "local", "sbin", "share", "src"]),
    ("var", ["cache", "lib", "local", "log", "mail", "opt", "spool", "tmp"])]

/-- The directories that every tree has. -/
def standardDirectories : List Place :=
  .root :: topDirectories.map (fun name => ⟨[name]⟩) ++
    nestedDirectories.flatMap fun d => d.2.map fun name => ⟨[d.1, name]⟩

/-- Whether a place is a directory: one that every tree has, the working directory, or one on the
way to a file. -/
def isDirectory (s : FileStore) (p : Place) : Bool :=
  standardDirectories.contains p || p == .working || s.files.any fun f => p.isAbove f.1

def bytes? (s : FileStore) (p : Place) : Option (List UInt8) :=
  (s.files.find? fun f => f.1 == p).map Prod.snd

def isFile (s : FileStore) (p : Place) : Bool := p.device?.isSome || (s.bytes? p).isSome

def put (s : FileStore) (p : Place) (bytes : List UInt8) : FileStore :=
  ⟨(s.files.filter fun f => f.1 != p) ++ [(p, bytes)]⟩

/-! ## Walks -/

/-- The largest size of a name, in bytes. -/
def maxNameSize : Nat := 255

/-- The largest size of a path, in bytes. -/
def maxPathSize : Nat := 4095

/-- Whether the last name of a place is longer than names may be. -/
def isTooLong (p : Place) : Bool := p.names.getLast?.any fun name => maxNameSize < name.utf8ByteSize

/-- Why there is nothing at a place. -/
def absence (p : Place) : FileError := if isTooLong p then .nameTooLong else .notFound

/-- One step of a walk, which has to start from a directory. -/
def step (s : FileStore) (p : Place) (name : String) : Except FileError Place :=
  if s.isDirectory p then .ok (p.enter name).target
  else if s.isFile p then .error .notDirectory
  else .error (absence p)

/-- The place that a path names, at which there need not be a file. -/
def locate (s : FileStore) (path : String) : Except FileError Place :=
  if path.toList.any fun c => c.toNat == 0 then .error .nullInName
  else if path.isEmpty then .error .notFound
  else if maxPathSize < path.utf8ByteSize then .error .nameTooLong
  else (Path.steps path).foldlM s.step (Path.start path)

/-! ## Reading and writing -/

/-- The text that bytes stand for. -/
def decode (bytes : List UInt8) : Except FileError String :=
  match String.fromUTF8? ⟨bytes.toArray⟩ with
  | some text => .ok text
  | none => .error .notText

/-- The bytes that are read at a place. -/
def content (s : FileStore) (p : Place) : Except FileError (List UInt8) :=
  match p.device? with
  | some d => d.read
  | none =>
    match s.bytes? p with
    | some bytes => .ok bytes
    | none => .error (absence p)

def read (s : FileStore) (path : String) : Except FileError String := do
  let p ← s.locate path
  if s.isDirectory p then .error .isDirectory
  else if s.isFile p && Path.endsInSlash path then .error .notDirectory
  else decode (← s.content p)

/-- Whether no file can be made at a place: the directory of processes has those that it has. -/
def isClosed (p : Place) : Bool := Place.isAbove ⟨["proc"]⟩ p

/-- The store after a file is written, which is made if it is not there yet. A path that ends in a
slash is never made. -/
def write (s : FileStore) (path text : String) : Except FileError FileStore := do
  let p ← s.locate path
  if s.isDirectory p || Path.endsInSlash path then .error .isDirectory
  else if isTooLong p then .error .nameTooLong
  else
    match p.device? with
    | some d =>
      match d.refusal? text with
      | some cause => .error cause
      | none => .ok s
    | none => if isClosed p then .error .notFound else .ok (s.put p text.toUTF8.toList)

/-- What appears of a text that is written to a file. -/
def printout (s : FileStore) (path text : String) : Printout :=
  match s.locate path with
  | .ok p => (p.device?.map (Device.printout text)).getD .empty
  | .error _ => .empty

end FileStore

end MicroEngine
