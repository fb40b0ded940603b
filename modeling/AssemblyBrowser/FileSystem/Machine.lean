import AssemblyBrowser.FileSystem.Entry
import AssemblyBrowser.Failure
/-!
The machine that the program runs on: files, working directory, environment and accounts. `stat`
follows a path through links and says what stands at its end.
-/
namespace AssemblyBrowser

/-- What the host program answers when it is asked for its version. -/
inductive HostReply
  | output (text : String)
  | failed
deriving DecidableEq, Repr

structure Machine where
  root : Entry
  workingDirectory : Position
  environment : OrderedMap String String
  /-- The name of the user, and the home directories of all accounts. -/
  user : String
  homes : List (String × String)
  /-- Whether file permissions do not hold the user back. -/
  privileged : Bool
  platform : String
  hostReply : HostReply
  /-- The modes of directories by their places; every other directory has the mode `0o755`. -/
  directoryModes : List (Position × Nat) := []

/-- The accounts that a bare system has, with their home directories. -/
def Machine.systemHomes : List (String × String) :=
  [("root", "/root"), ("daemon", "/usr/sbin"), ("bin", "/bin"), ("sys", "/dev"), ("sync", "/bin"),
   ("games", "/usr/games"), ("man", "/var/cache/man"), ("lp", "/var/spool/lpd"),
   ("mail", "/var/mail"), ("news", "/var/spool/news"), ("uucp", "/var/spool/uucp"),
   ("proxy", "/bin"), ("www-data", "/var/www"), ("backup", "/var/backups"),
   ("list", "/var/list"), ("irc", "/run/ircd"), ("_apt", "/nonexistent"),
   ("nobody", "/nonexistent")]

/-- Why a path leads nowhere. -/
inductive Errno
  | notFound
  | accessDenied
  | notDirectory
  | isDirectory
  | nameTooLong
  | linkLoop
deriving DecidableEq, Repr

namespace Errno

def number : Errno → Int
  | .notFound => 2
  | .accessDenied => 13
  | .notDirectory => 20
  | .isDirectory => 21
  | .nameTooLong => 36
  | .linkLoop => 40

def text : Errno → String
  | .notFound => "No such file or directory"
  | .accessDenied => "Permission denied"
  | .notDirectory => "Not a directory"
  | .isDirectory => "Is a directory"
  | .nameTooLong => "File name too long"
  | .linkLoop => "Too many levels of symbolic links"

def failure (e : Errno) (p : Path) : Failure := .system (.ofNumber e.number e.text p.text)

/-- Whether the error only says that nothing is there. -/
def saysAbsent : Errno → Bool
  | .notFound | .notDirectory | .linkLoop => true
  | _ => false

end Errno

inductive StatError
  | nullCharacter
  | errno (e : Errno)
deriving DecidableEq, Repr

def StatError.failure (e : StatError) (p : Path) : Failure :=
  match e with
  | .nullCharacter => .nullCharacter
  | .errno e => e.failure p

namespace Machine

/-- The longest name, and one more than the longest path, in bytes. -/
def nameLimit : Nat := 255
def pathLimit : Nat := 4096

/-- How many links one path may lead through. -/
def linkLimit : Nat := 40

variable (m : Machine)

/-- Whether the user may read what has the mode: the contents of a file, the names in a directory. -/
def mayRead (mode : Nat) : Bool := m.privileged || mode &&& 0o400 ≠ 0

/-- Whether the user may run a file of the mode; for that even a privileged user needs some
permission. -/
def mayRun (mode : Nat) : Bool :=
  if m.privileged then mode &&& 0o111 ≠ 0 else mode &&& 0o100 ≠ 0

def directoryMode (pos : Position) : Nat := (m.directoryModes.lookup pos).getD 0o755

/-- Whether the user may follow names from the directory at a place. -/
def maySearch (pos : Position) : Bool := m.privileged || m.directoryMode pos &&& 0o100 ≠ 0

/-- Where a walk along names comes to a stop. -/
inductive Stop
  | arrived (pos : Position)
  | link (base : Position) (target : String) (rest : List String)

/-- Walks along names up to the end or the first link. -/
def advance (pos : Position) : List String → Except Errno Stop
  | [] => .ok (.arrived pos)
  | n :: rest =>
    match m.root.find? pos with
    | some (.directory es) =>
      if !m.maySearch pos then .error .accessDenied
      else if n = ".." then advance pos.dropLast rest
      else if nameLimit < n.utf8ByteSize then .error .nameTooLong
      else match Assoc.find? n es with
        | none => .error .notFound
        | some (.link target) => .ok (.link pos target rest)
        | some _ => advance (pos ++ [n]) rest
    | some _ => .error .notDirectory
    | none => .error .notFound

/-- Where the names in the target of a link begin. -/
def linkBase (base : Position) (target : String) : Position :=
  if Path.anchorOf target.toList = .relative then base else []

/-- Walks along names and through links, of which as many are allowed. -/
def walk : (links : Nat) → Position → List String → Except Errno Position
  | links, pos, names =>
    match m.advance pos names with
    | .error e => .error e
    | .ok (.arrived pos) => .ok pos
    | .ok (.link base target rest) =>
      match links with
      | 0 => .error .linkLoop
      | links + 1 => walk links (linkBase base target) (Path.names target ++ rest)

/-- Where a path begins. -/
def start (p : Path) : Position := if p.anchor = .relative then m.workingDirectory else []

/-- The place a path leads to, and what stands there. -/
def stat (p : Path) : Except StatError (Position × Entry) :=
  if p.hasNull then .error .nullCharacter
  else if pathLimit ≤ p.text.utf8ByteSize then .error (.errno .nameTooLong)
  else match m.walk linkLimit (m.start p) p.parts with
    | .error e => .error (.errno e)
    | .ok pos =>
      match m.root.find? pos with
      | some e => .ok (pos, e)
      | none => .error (.errno .notFound)

/-- Whether a path leads to an entry of some kind. An error that does not say that nothing is there
is a failure. -/
def leadsTo (kind : Entry → Bool) (p : Path) : Except Failure Bool :=
  match m.stat p with
  | .ok (_, e) => .ok (kind e)
  | .error .nullCharacter => .ok false
  | .error (.errno e) => if e.saysAbsent then .ok false else .error (e.failure p)

def pathExists (p : Path) : Except Failure Bool := m.leadsTo (fun _ => true) p
def isFile (p : Path) : Except Failure Bool := m.leadsTo Entry.isFile p
def isDirectory (p : Path) : Except Failure Bool := m.leadsTo Entry.isDirectory p

/-- The entries of the directory at the end of a path, if their names may be read. -/
def listing? (p : Path) : Option (List (String × Entry)) :=
  match m.stat p with
  | .ok (pos, .directory es) => if m.mayRead (m.directoryMode pos) then some es else none
  | _ => none

/-- The contents of the file at the end of a path. -/
def fileAt (p : Path) : Except Failure FileData :=
  match m.stat p with
  | .error e => .error (e.failure p)
  | .ok (_, .file data mode) =>
    if m.mayRead mode then .ok data else .error (Errno.accessDenied.failure p)
  | .ok _ => .error (Errno.isDirectory.failure p)

def getEnv? (key : String) : Option String := m.environment.find? key

def setEnv (key value : String) : Machine :=
  { m with environment := m.environment.put key value }

def clearEnv (key : String) : Machine := { m with environment := m.environment.erase key }

/-- The home directory of an account; an empty name stands for the user. -/
def homeOf? (name : String) : Option String :=
  if name = "" then (m.getEnv? "HOME").or (m.homes.lookup m.user) else m.homes.lookup name

/-- Drops the slashes at the end; nothing left means the root. -/
def trimSlashes (s : String) : String :=
  let cs := (s.toList.reverse.dropWhile (· == '/')).reverse
  if cs.isEmpty then "/" else String.ofList cs

/-- Replaces a leading `~` or `~name` by a home directory. -/
def expandHome (p : Path) : Except Failure Path :=
  match p.anchor, p.parts with
  | .relative, first :: rest =>
    match first.toList with
    | '~' :: name =>
      if name.contains '\x00' then .error .nullCharacter
      else match m.homeOf? (String.ofList name) with
        | none => .error .noHome
        | some home =>
          let home := trimSlashes home
          if home.toList.head? = some '~' then .error .noHome
          else
            let base := Path.ofString home
            .ok ⟨base.anchor, base.parts ++ rest⟩
    | _ => .ok p
  | _, _ => .ok p

/-- The user's home directory. -/
def home : Except Failure Path := m.expandHome ⟨.relative, ["~"]⟩

end Machine

end AssemblyBrowser
