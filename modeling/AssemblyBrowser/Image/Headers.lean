import AssemblyBrowser.Image.Basic
/-!
Reading the headers of an image file: the old header, whose last field says where the signature
stands, the file header, the optional header with the data directories behind it, and the section
table. Headers that are cut off are filled with zeros as far as a loader would do the same.
-/
namespace AssemblyBrowser.Image

inductive HeaderError
  | truncatedStart
  | invalidSignatureOffset
  | noSignature
  /-- The signature of another format. -/
  | otherFormat (name : String)
  | invalidSignature
  | noFileHeader
  | noOptionalHeader
  | truncatedSection
deriving DecidableEq, Repr

def HeaderError.message : HeaderError → String
  | .truncatedStart => "Unable to read the DOS Header, possibly a truncated file."
  | .invalidSignatureOffset => "Invalid e_lfanew value, probably not a PE file"
  | .noSignature => "NT Headers not found."
  | .otherFormat name => "Invalid NT Headers signature. Probably a " ++ name ++ " file"
  | .invalidSignature => "Invalid NT Headers signature."
  | .noFileHeader => "File Header missing"
  | .noOptionalHeader => "No Optional Header found, invalid PE32 or PE32+ file."
  | .truncatedSection => "Data length less than expected header length."

structure Section where
  virtualSize : Nat
  address : Nat
  rawSize : Nat
  rawPointer : Nat
deriving DecidableEq, Repr

namespace Headers

def startSize : Nat := 64
def fileHeaderSize : Nat := 20
def sectionSize : Nat := 40

/-- Signatures of other formats, by their low 16 bits. -/
def otherFormats : List (Nat × String) :=
  [(0x454E, "NE"), (0x454C, "LE"), (0x584C, "LX"), (0x5A56, "TE")]

/-- Where the signature stands. -/
def signatureOffset (d : FileData) : Except HeaderError Nat :=
  let start := d.read 0 startSize
  let offset := field start 0x3C 4
  if start.length < startSize then .error .truncatedStart
  else if d.size < offset then .error .invalidSignatureOffset
  else
    let bytes := d.read offset 4
    let signature := littleEndian bytes
    if bytes.length < 4 || signature = 0 then .error .noSignature
    else match otherFormats.lookup (signature % 0x10000) with
      | some name => .error (.otherFormat name)
      | none => if signature = 0x4550 then .ok offset else .error .invalidSignature

/-- The sizes of the optional header, and the least part of it that a file must hold, for 32 and for
64 bits. -/
def smallHeader : Nat × Nat := (96, 69)
def largeHeader : Nat × Nat := (112, 73)

/-- The magic number of an optional header for 64 bits. -/
def largeMagic : Nat := 0x20B

/-- A header of a given size; one that is cut off is filled with zeros. -/
def padded? (d : FileData) (offset : Nat) (sizes : Nat × Nat) : Option (List Byte) :=
  let bytes := d.read offset sizes.1
  if bytes.length < sizes.2 then none
  else some (bytes ++ List.replicate (sizes.1 - bytes.length) 0)

/-- The optional header at an offset. -/
def optionalHeader (d : FileData) (offset : Nat) : Except HeaderError (List Byte) :=
  match padded? d offset smallHeader with
  | none => .error .noOptionalHeader
  | some header =>
    if field header 0 2 = largeMagic then
      match padded? d offset largeHeader with
      | none => .error .noOptionalHeader
      | some header => .ok header
    else .ok header

/-- The number of data directories is the last field of the optional header. -/
def directoryCount (header : List Byte) : Nat :=
  min 16 (field header (header.length - 4) 4 % Nat.pow 2 31)

/-- The directories from an offset on, up to the end of the file; an entry that is cut off is filled
with zeros. -/
def directories (d : FileData) : (count : Nat) → (offset : Nat) → List DataDirectory
  | 0, _ => []
  | count + 1, offset =>
    if d.size = offset then []
    else
      let bytes := d.read offset 8
      ⟨field bytes 0 4, field bytes 4 4⟩ :: directories d count (offset + 8)

/-- The section table: an entry of zeros, or none, ends it. -/
def sections (d : FileData) : (count : Nat) → (offset : Nat) → Except HeaderError (List Section)
  | 0, _ => .ok []
  | count + 1, offset =>
    let bytes := d.read offset sectionSize
    if bytes.all (· == 0) && (bytes.isEmpty || bytes.length = sectionSize) then .ok []
    else if bytes.length < sectionSize then .error .truncatedSection
    else
      (sections d count (offset + sectionSize)).map fun rest =>
        ⟨field bytes 8 4, field bytes 12 4, field bytes 16 4, field bytes 20 4⟩ :: rest

/-- The largest section table that is read. -/
def sectionLimit : Nat := 2048

def sortSections (ss : List Section) : List Section :=
  ss.mergeSort fun a b => decide (a.address ≤ b.address)

/-- Raw pointers are rounded down to this. -/
def rawAlignment : Nat := 0x200

def rawStart (s : Section) : Nat := s.rawPointer / rawAlignment * rawAlignment

/-- The length of a section in memory. One whose raw data goes beyond the file has its virtual size,
and none reaches beyond the beginning of the next. -/
def extent (fileSize : Nat) (s : Section) (next : Option Nat) : Nat :=
  let size :=
    if fileSize < rawStart s + s.rawSize then s.virtualSize else max s.rawSize s.virtualSize
  match next with
  | some n => if s.address < n && n < s.address + size then n - s.address else size
  | none => size

/-- The first section that an address lies in. -/
def sectionAt? (fileSize address : Nat) : List Section → Option Section
  | [] => none
  | s :: rest =>
    if s.address ≤ address && address < s.address + extent fileSize s (rest.head?.map (·.address))
    then some s
    else sectionAt? fileSize address rest

/-- The length of the header part of the file: up to the lowest raw data, or to the end of the
section table. -/
def headerLength (ss : List Section) (tableEnd : Nat) : Nat :=
  match ((ss.filter fun s => 0 < s.rawPointer).map rawStart).min? with
  | some lowest => if lowest = 0 || lowest < tableEnd then tableEnd else lowest
  | none => tableEnd

def readError : String := "data at RVA can't be fetched. Corrupt header?"

/-- The bytes at an address: those of its section, else of the header part, else of the file. -/
def readAt (d : FileData) (ss : List Section) (header address count : Nat) :
    Except String (List Byte) :=
  match sectionAt? d.size address ss with
  | some s =>
    let offset := address - s.address + rawStart s
    .ok (d.read offset (min count (s.rawPointer + s.rawSize - offset)))
  | none =>
    let header := min header d.size
    if address < header then .ok (d.read address (min count (header - address)))
    else if address < d.size then .ok (d.read address count)
    else .error readError

end Headers

/-- Reads the headers of an image file. -/
def ofFile (d : FileData) : Except HeaderError Parsed := do
  let signature ← Headers.signatureOffset d
  let fileHeader := d.read (signature + 4) Headers.fileHeaderSize
  if fileHeader.length < Headers.fileHeaderSize then .error .noFileHeader
  else
    let offset := signature + 4 + Headers.fileHeaderSize
    let optional ← Headers.optionalHeader d offset
    let table := offset + field fileHeader 16 2
    let count := field fileHeader 2 2
    let found ← Headers.sections d (min count Headers.sectionLimit) table
    let ss := Headers.sortSections found
    let tableEnd := if ss.isEmpty then table else table + Headers.sectionSize * count
    .ok ⟨field fileHeader 0 2,
      some (Headers.directories d (Headers.directoryCount optional) (offset + optional.length)),
      Headers.readAt d ss (Headers.headerLength ss tableEnd)⟩

end AssemblyBrowser.Image
