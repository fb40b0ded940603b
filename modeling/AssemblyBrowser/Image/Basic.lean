import AssemblyBrowser.FileSystem.Entry
/-!
Executable images as far as they matter here: the machine they are for, their table of data
directories, and the bytes found at an address.
-/
namespace AssemblyBrowser.Image

structure DataDirectory where
  address : Nat
  size : Nat
deriving DecidableEq, Repr

structure Parsed where
  machine : Nat
  /-- An image may come without a table. -/
  directories : Option (List DataDirectory)
  /-- At most as many bytes from an address on, or the text of an error. -/
  read : (address count : Nat) → Except String (List Byte)

/-- The number whose bytes are given, the least significant first. -/
def littleEndian (bytes : List Byte) : Nat := bytes.foldr (fun b n => b.toNat + 256 * n) 0

/-- The number in `width` bytes at an offset; bytes that are missing count as zero. -/
def field (bytes : List Byte) (offset width : Nat) : Nat :=
  littleEndian ((bytes.drop offset).take width)

end AssemblyBrowser.Image
