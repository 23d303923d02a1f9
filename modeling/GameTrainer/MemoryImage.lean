import GameTrainer.MemoryRegion

/-!
# Laying out a memory image

An image of main memory is laid out piece by piece: it is given a size, filled
with one byte, and overwritten with numbers and byte runs. A piece that reaches
past the end makes the image grow with zeros first, so it is always placed
whole.
-/

namespace GameTrainer.MemoryImage

/-- One step of laying out an image. -/
inductive Piece where
  /-- Give the image a size: cut the end off, or add zeros. -/
  | size (count : Nat)
  /-- Set every byte of the image. -/
  | fill (byte : UInt8)
  /-- Place bytes at an offset. -/
  | bytes (offset : Nat) (content : List UInt8)

/-- Place a number of so many bytes at an offset, in a byte order. -/
def Piece.number (offset count : Nat) (bigEndian : Bool) (value : UInt32) : Piece :=
  .bytes offset (Bytes.ofNumber count bigEndian value)

/-- The image cut or extended with zeros to a size. -/
def resize (image : Bytes) (count : Nat) : Bytes :=
  image.extract 0 count ++ Array.replicate (count - image.size) 0

/-- The image after one step. -/
def place (image : Bytes) : Piece → Bytes
  | .size count => resize image count
  | .fill byte => Array.replicate image.size byte
  | .bytes offset content =>
    (resize image (max image.size (offset + content.length))).overwrite offset content

/-- The image laid out by a list of steps, from nothing. -/
def layOut (pieces : List Piece) : Bytes :=
  pieces.foldl place #[]

theorem size_resize (image : Bytes) (count : Nat) : (resize image count).size = count := by
  simp only [resize, Array.size_append, Array.size_extract, Array.size_replicate]
  omega

end GameTrainer.MemoryImage
