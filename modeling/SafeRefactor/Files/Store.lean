import SafeRefactor.Files.Path

/-!
# A tree of files

Files and directories by their location. Reading is a single step on the whole content of a file. So
is writing on a sound disk; on another one a write may be refused, or break off after the file was
emptied. It changes nothing but the file it names in any case.
-/

set_option autoImplicit false

namespace SafeRefactor

abbrev Location := List String

/-- Why a file cannot be read or written. Only the system knows about rights and room. -/
inductive FileError where
  | notFound
  | isDirectory
  | notDirectory
  | notText
  | system (text : String) (code : Nat)
  deriving DecidableEq, Repr

def FileError.message : FileError → String
  | notFound => "No such file or directory (os error 2)"
  | isDirectory => "Is a directory (os error 21)"
  | notDirectory => "Not a directory (os error 20)"
  | notText => "stream did not contain valid UTF-8"
  | system text code => text ++ s!" (os error {code})"

inductive Content where
  | text (s : String)
  | binary
  | barred (cause : FileError)
  deriving DecidableEq, Repr

def Content.ofBytes (text : String) (n : Nat) : Content :=
  match String.fromUTF8? (text.toUTF8.extract 0 n) with
  | some s => .text s
  | none => .binary

inductive Item where
  | file (content : Content)
  | directory
  deriving DecidableEq, Repr

structure Store where
  items : List (Location × Item) := []
  deriving DecidableEq, Repr

/-- Why something failed that may have written, and the files that it left. -/
structure Broken (ε : Type) where
  cause : ε
  store : Store

/-- What goes wrong with a write: the file cannot be opened, or it is emptied and then takes only so
many bytes. -/
inductive WriteFault where
  | refused (cause : FileError)
  | short (cause : FileError) (bytes : Nat)
  deriving DecidableEq, Repr

/-- What a disk does with a text for a location, which may depend on all files. A sound disk takes
it. -/
structure Disk where
  fault? : Store → Location → String → Option WriteFault := fun _ _ _ => none

namespace Store

def item? (s : Store) (l : Location) : Option Item :=
  if l = [] then some .directory else s.items.lookup l

def put (s : Store) (l : Location) (i : Item) : Store :=
  ⟨(l, i) :: s.items.filter fun e => e.1 ≠ l⟩

def expectDirectory (s : Store) (l : Location) : Except FileError Unit :=
  match s.item? l with
  | some .directory => .ok ()
  | some (.file _) => .error .notDirectory
  | none => .error .notFound

/-- The location that the pieces of a path between slashes lead to. Everything on the way is a
directory; the end need not exist. -/
def follow (s : Store) : Location → List (List Char) → Except FileError Location
  | l, [] => .ok l
  | l, p :: ps =>
    match s.expectDirectory l with
    | .error e => .error e
    | .ok () =>
      if p = [] ∨ p = ['.'] then follow s l ps
      else if p = ['.', '.'] then follow s l.dropLast ps
      else follow s (l ++ [String.ofList p]) ps

def locate (s : Store) (cwd : Location) (path : String) : Except FileError Location :=
  match path.toList with
  | [] => .error .notFound
  | '/' :: cs => s.follow [] (Text.splitAt '/' cs)
  | cs => s.follow cwd (Text.splitAt '/' cs)

def find? (s : Store) (cwd : Location) (path : String) : Option Item :=
  match s.locate cwd path with
  | .ok l => s.item? l
  | .error _ => none

def readAt (s : Store) (l : Location) : Except FileError String :=
  match s.item? l with
  | some (.file (.text t)) => .ok t
  | some (.file .binary) => .error .notText
  | some (.file (.barred cause)) => .error cause
  | some .directory => .error .isDirectory
  | none => .error .notFound

def read (s : Store) (cwd : Location) (path : String) : Except FileError String :=
  match s.locate cwd path with
  | .ok l => s.readAt l
  | .error e => .error e

def target (s : Store) (cwd : Location) (path : String) : Except FileError Location :=
  match s.locate cwd path with
  | .ok l => if s.item? l = some .directory then .error .isDirectory else .ok l
  | .error e =>
    match s.locate cwd (String.ofList (Text.dropEndWhile (· = '/') path.toList)) with
    | .ok l => if (s.item? l).isNone then .error .isDirectory else .error e
    | .error e => .error e

/-- The store after a text was written to a location. A text that fits is never written short. -/
def writeAt (s : Store) (l : Location) (text : String) (d : Disk) :
    Except (Broken FileError) Store :=
  match d.fault? s l text with
  | none => .ok (s.put l (.file (.text text)))
  | some (.refused cause) => .error ⟨cause, s⟩
  | some (.short cause n) =>
    if n < text.utf8ByteSize then .error ⟨cause, s.put l (.file (.ofBytes text n))⟩
    else .ok (s.put l (.file (.text text)))

def write (s : Store) (cwd : Location) (path text : String) (d : Disk := {}) :
    Except (Broken FileError) Store :=
  match s.target cwd path with
  | .ok l => s.writeAt l text d
  | .error e => .error ⟨e, s⟩

def absolutePath (l : Location) : String := "/" ++ Text.join "/" l

end Store

end SafeRefactor
