/-!
Words of a shell command line. Words are separated by space, tab and line ends; single quotes keep
everything, double quotes keep everything but a backslash before a double quote or a backslash, and
outside quotes a backslash keeps the next character. There are no comments and no expansions.
-/
namespace AssemblyBrowser.Text

inductive ShellError
  | noClosingQuotation
  | noEscapedCharacter
deriving DecidableEq, Repr

def ShellError.message : ShellError → String
  | .noClosingQuotation => "No closing quotation"
  | .noEscapedCharacter => "No escaped character"

namespace ShellWords

def isSeparator (c : Char) : Bool := c == ' ' || c == '\t' || c == '\r' || c == '\n'

/-- Where the reader stands; the word under construction is held backwards. -/
inductive Mode
  /-- Between words. -/
  | between
  /-- Inside a word, outside quotes. -/
  | word (done : List Char)
  /-- After a backslash outside quotes. -/
  | escape (done : List Char)
  | single (done : List Char)
  | double (done : List Char)
  /-- After a backslash inside double quotes. -/
  | doubleEscape (done : List Char)
deriving DecidableEq, Repr

/-- What a character outside quotes does to the word `done`. -/
def Mode.plain (done : List Char) (c : Char) : Mode :=
  if c = '\'' then .single done
  else if c = '"' then .double done
  else if c = '\\' then .escape done
  else .word (c :: done)

def finish : Mode → Except ShellError (List (List Char))
  | .between => .ok []
  | .word done => .ok [done.reverse]
  | .escape _ | .doubleEscape _ => .error .noEscapedCharacter
  | .single _ | .double _ => .error .noClosingQuotation

/-- Reads the rest of a line. -/
def read : Mode → List Char → Except ShellError (List (List Char))
  | m, [] => finish m
  | .between, c :: rest =>
    if isSeparator c then read .between rest else read (.plain [] c) rest
  | .word done, c :: rest =>
    if isSeparator c then (read .between rest).map (done.reverse :: ·)
    else read (.plain done c) rest
  | .escape done, c :: rest => read (.word (c :: done)) rest
  | .single done, c :: rest =>
    if c = '\'' then read (.word done) rest else read (.single (c :: done)) rest
  | .double done, c :: rest =>
    if c = '"' then read (.word done) rest
    else if c = '\\' then read (.doubleEscape done) rest
    else read (.double (c :: done)) rest
  | .doubleEscape done, c :: rest =>
    if c = '"' || c = '\\' then read (.double (c :: done)) rest
    else read (.double (c :: '\\' :: done)) rest

end ShellWords

def shellWords (s : String) : Except ShellError (List String) :=
  (ShellWords.read .between s.toList).map (·.map String.ofList)

end AssemblyBrowser.Text
