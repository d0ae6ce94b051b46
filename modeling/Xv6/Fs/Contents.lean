import Xv6.Params

/-!
# Files as byte arrays

What the inode layer is for, in its own terms: a file is a list of bytes, and
a transfer reads or replaces a range of it.
-/

namespace Xv6

/-- Read from a file: nothing if the offset is behind the end or the range wraps
around, else the bytes of the range that the file has. -/
def readBytes (contents : List UInt8) (off n : UInt32) : Option (List UInt8) :=
  if contents.length < off.toNat ∨ off + n < off then none
  else some ((contents.drop off.toNat).take n.toNat)

/-- Write to a file: nothing if the offset is behind the end, the range wraps
around or the file would grow too large, else the new contents. -/
def writeBytes (contents src : List UInt8) (off : UInt32) :
    Option (List UInt8) :=
  if contents.length < off.toNat ∨ 2 ^ 32 ≤ off.toNat + src.length ∨
      MAXFILE * BSIZE < off.toNat + src.length then none
  else some (contents.take off.toNat ++ src ++ contents.drop (off.toNat + src.length))

end Xv6
