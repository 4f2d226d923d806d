import RollingCapture.Path

/-! How the records of a capture file are stored. -/
namespace RollingCapture

inductive Compression where
  | plain
  /-- One LZ4 frame around all of them. -/
  | lz4
  deriving DecidableEq, Repr

namespace Compression

def isCompressed : Compression → Bool
  | plain => false
  | lz4 => true

def name : Compression → String
  | plain => "None"
  | lz4 => "Lz4"

/-- A file name that ends in `.lz4`, in any case of ASCII letters, selects LZ4. -/
def ofPath (path : String) : Compression :=
  match Path.extension? path with
  | some e => if e.map Char.toLower = "lz4" then lz4 else plain
  | none => plain

end Compression

end RollingCapture
