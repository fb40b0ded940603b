import AssemblyBrowser.Engine.Error
import AssemblyBrowser.Language
import AssemblyBrowser.Protocol.Message
import AssemblyBrowser.Text.ShellWords
/-!
Everything that an operation can fail with. Each failure has a kind, by which a caller tells it from
others, and a message.
-/
namespace AssemblyBrowser

/-- A failure of the operating system: an error number and a text, perhaps with the files concerned,
or other arguments. -/
structure SystemError where
  arguments : List Json
deriving DecidableEq, Repr

namespace SystemError

def ofNumber (number : Int) (text : String) (file : String) : SystemError :=
  ⟨[.integer number, .text text, .text file]⟩

/-- Kinds that error numbers have of their own. -/
def kinds : List (List Int × String) :=
  [([1, 13], "PermissionError"), ([2], "FileNotFoundError"), ([3], "ProcessLookupError"),
   ([4], "InterruptedError"), ([10], "ChildProcessError"), ([11, 114, 115], "BlockingIOError"),
   ([17], "FileExistsError"), ([20], "NotADirectoryError"), ([21], "IsADirectoryError"),
   ([32, 108], "BrokenPipeError"), ([103], "ConnectionAbortedError"),
   ([104], "ConnectionResetError"), ([110], "TimeoutError"), ([111], "ConnectionRefusedError")]

/-- An error number counts only beside a text. -/
def kind (e : SystemError) : String :=
  match e.arguments with
  | [.number (.integer n), _] | [.number (.integer n), _, _] | [.number (.integer n), _, _, _]
  | [.number (.integer n), _, _, _, _] =>
    match kinds.find? fun (ns, _) => ns.contains n with
    | some (_, kind) => kind
    | none => "OSError"
  | _ => "OSError"

end SystemError

namespace Failure

/-- Arguments as one text: nothing for none, the argument itself if it is alone, else all of them in
brackets. -/
def argumentsText : List Json → String
  | [] => ""
  | [v] => v.plain
  | vs => "(" ++ ", ".intercalate (vs.map Json.display) ++ ")"

end Failure

namespace SystemError

/-- An error number and its text, with the files concerned. -/
def numberedText (number text : Json) (files : List Json) : String :=
  "[Errno " ++ number.plain ++ "] " ++ text.plain ++
    (if files.isEmpty then "" else ": " ++ " -> ".intercalate (files.map Json.display))

def message (e : SystemError) : String :=
  match e.arguments with
  | [number, text] => numberedText number text []
  | [number, text, file] | [number, text, file, _] =>
    numberedText number text (if file = .null then [] else [file])
  | [number, text, file, _, other] =>
    numberedText number text
      (if file = .null then [] else if other = .null then [file] else [file, other])
  | arguments => Failure.argumentsText arguments

end SystemError

/-- Why a path given by a user is refused. -/
inductive PathError
  | empty
  /-- The path leads to no file that can be read; a reason is given if resolving it failed. -/
  | unreadable (path : String) (reason : Option String)
  | outside (path : String)
  | tooLarge (size : Nat) (limit : Int)
deriving DecidableEq, Repr

namespace PathError

def kind : PathError → String
  | .empty | .unreadable .. => "UnreadableFileError"
  | .outside _ => "PathTraversalError"
  | .tooLarge .. => "FileSizeError"

def message : PathError → String
  | .empty => "cannot read the file: empty path"
  | .unreadable path none => "cannot read the file " ++ path
  | .unreadable path (some reason) => "cannot read the file " ++ path ++ ": " ++ reason
  | .outside path => "Access denied: Path outside allowed directories: " ++ path
  | .tooLarge size limit =>
    "File too large: " ++ toString size ++ " bytes (max: " ++ toString limit ++ ")"

end PathError

/-- Kinds of failure that carry free arguments. -/
inductive GeneralKind
  | runtime
  | value
  | key
  | protocol
  | staleNode
  | fileSize
deriving DecidableEq, Repr

def GeneralKind.name : GeneralKind → String
  | .runtime => "RuntimeError"
  | .value => "ValueError"
  | .key => "KeyError"
  | .protocol => "ProtocolError"
  | .staleNode => "StaleNodeError"
  | .fileSize => "FileSizeError"

inductive Failure
  | engine (e : EngineError)
  /-- A failure that is a report of its own. -/
  | report (r : Report)
  | protocol (e : ProtocolError)
  | hugeInteger (digits : Nat)
  | seconds (e : SecondsError)
  | language (e : UnknownLanguage)
  | shell (e : Text.ShellError)
  | system (e : SystemError)
  | path (e : PathError)
  | staleNode (key : String)
  | ambiguousKey (key : String) (assemblies : List String)
  /-- A path holds the character NUL. -/
  | nullCharacter
  /-- A home directory is asked for that nobody has. -/
  | noHome
  | linkLoop (path : String)
  /-- A text file is not in UTF-8. -/
  | notUtf8
  | unknownLogLevel (text : String)
  | general (kind : GeneralKind) (arguments : List Json)
deriving DecidableEq, Repr

namespace Failure

def kind : Failure → String
  | .engine e => e.kind
  | .report _ => "StructuredBaseError"
  | .protocol _ => "ProtocolError"
  | .hugeInteger _ | .language _ | .shell _ | .nullCharacter | .unknownLogLevel _ => "ValueError"
  | .seconds .nanToInteger => "ValueError"
  | .seconds _ => "OverflowError"
  | .system e => e.kind
  | .path e => e.kind
  | .staleNode _ => "StaleNodeError"
  | .ambiguousKey .. => "AmbiguousKeyError"
  | .noHome | .linkLoop _ => "RuntimeError"
  | .notUtf8 => "UnicodeDecodeError"
  | .general kind _ => kind.name

/-- The report that a failure brings with it. -/
def ownReport? : Failure → Option Report
  | .engine e => some e.report
  | .report r => some r
  | _ => none

def message : Failure → String
  | .engine e => e.report.userMessage
  | .report r => r.userMessage
  | .protocol e => e.message
  | .hugeInteger digits => (Json.ParseError.hugeInteger digits).message
  | .seconds e => e.message
  | .language e => e.message
  | .shell e => e.message
  | .system e => e.message
  | .path e => e.message
  | .staleNode key => "Node " ++ Text.quoted key ++ " is no longer part of the tree"
  | .ambiguousKey key assemblies =>
    "Key " ++ Text.quoted key ++ " exists in " ++ toString assemblies.length ++ " assemblies"
  | .nullCharacter => "embedded null byte"
  | .noHome => "Could not determine home directory."
  | .linkLoop p => "Symlink loop from " ++ Text.quoted p
  | .notUtf8 => "invalid UTF-8"
  | .unknownLogLevel text => "Unknown level: " ++ Text.quoted text
  | .general .key [v] => v.display
  | .general _ arguments => argumentsText arguments

/-- The report of any failure: its own, or one that names its kind. -/
def toReport (f : Failure) : Report :=
  f.ownReport?.getD (.unknownFailure f.kind f.message)

/-- A failure as it is shown to a user. -/
def userMessage (f : Failure) : String := f.toReport.userMessage

def ofLineError : LineError → Failure
  | .protocol e => .protocol e
  | .hugeInteger digits => .hugeInteger digits

end Failure

end AssemblyBrowser
