import AssemblyBrowser.Image.Headers
import AssemblyBrowser.Text.Quoted
/-!
Telling managed assemblies from other files by their headers. An image is managed if its directory
of the runtime header has an address and a size; what that header says is reported, and anything odd
about it is a warning.
-/
namespace AssemblyBrowser.Image

structure Facts where
  size : Nat
  isImage : Bool := false
  isManaged : Bool := false
  architecture : String := "unknown"
  runtimeVersion : String := ""
  flags : Nat := 0
  ilOnly : Bool := false
  strongNamed : Bool := false
  warnings : List String := []
deriving DecidableEq, Repr

/-- The result of an inspection, and how often the image was opened and closed for it. -/
structure Inspection where
  facts : Facts
  opened : Nat
  closed : Nat
deriving DecidableEq, Repr

/-- The two bytes that an image begins with. -/
def magic : List Byte := [0x4D, 0x5A]

/-- The place of the runtime header among the directories. -/
def runtimeDirectory : Nat := 14

/-- As much of the runtime header is read, and so much of it is needed. -/
def runtimeHeaderSize : Nat := 72
def runtimeHeaderLeast : Nat := 20

def machineNames : List (Nat × String) :=
  [(0x014C, "x86"), (0x8664, "x64"), (0x01C4, "ARM"), (0xAA64, "ARM64")]

def architectureOf (machine : Nat) : String := (machineNames.lookup machine).getD "unknown"

namespace Warning

def noImage : String := "Not a PE file (missing MZ header)"
def unreadable (text : String) : String :=
  "PE header parsing error: " ++ ((Text.quoted text).take 100).toString
def native : String := "No CLR header - native binary, not a .NET assembly"
def noHeader : String := "Could not read CLR header"
def truncated : String := "Truncated CLR header"
def mixed : String := "Mixed-mode assembly (native + .NET) - native code is not decompiled"
def nativeEntry : String := "Assembly has a native entry point"

end Warning

/-- The directory of the runtime header, if it has an address and a size. -/
def runtimeHeader? (image : Parsed) : Option DataDirectory :=
  (image.directories.bind fun ds => ds[runtimeDirectory]?).filter fun d =>
    d.address ≠ 0 && d.size ≠ 0

def flagILOnly : Nat := 0x1
def flagStrongNamed : Nat := 0x8
def flagNativeEntry : Nat := 0x10

def hasFlag (flags flag : Nat) : Bool := flags &&& flag ≠ 0

/-- What the bytes of a runtime header say. -/
def withRuntimeHeader (facts : Facts) (bytes : List Byte) : Facts :=
  let flags := field bytes 16 4
  { facts with
    runtimeVersion := toString (field bytes 4 2) ++ "." ++ toString (field bytes 6 2)
    flags := flags
    ilOnly := hasFlag flags flagILOnly
    strongNamed := hasFlag flags flagStrongNamed
    warnings := facts.warnings ++
      (if hasFlag flags flagILOnly then [] else [Warning.mixed]) ++
      (if hasFlag flags flagNativeEntry then [Warning.nativeEntry] else []) }

def warn (facts : Facts) (text : String) : Facts :=
  { facts with warnings := facts.warnings ++ [text] }

/-- The facts about an opened image. -/
def examine (facts : Facts) (image : Parsed) : Facts :=
  let facts := { facts with isImage := true, architecture := architectureOf image.machine }
  match runtimeHeader? image with
  | none => warn facts Warning.native
  | some d =>
    let facts := { facts with isManaged := true }
    match image.read d.address (min d.size runtimeHeaderSize) with
    | .error _ => warn facts Warning.noHeader
    | .ok bytes =>
      if bytes.length < runtimeHeaderLeast then warn facts Warning.truncated
      else withRuntimeHeader facts bytes

/-- Inspects a file with any reader of images. -/
def inspectWith (parse : FileData → Except String Parsed) (d : FileData) : Inspection :=
  let facts : Facts := { size := d.size }
  if d.read 0 2 ≠ magic then ⟨warn facts Warning.noImage, 0, 0⟩
  else match parse d with
    | .error text => ⟨warn facts (Warning.unreadable text), 0, 0⟩
    | .ok image => ⟨examine facts image, 1, 1⟩

def inspect (d : FileData) : Inspection :=
  inspectWith (fun d => (ofFile d).mapError HeaderError.message) d

end AssemblyBrowser.Image
