import FileShell.Text.Utf8

/-!
# Checksums

The cyclic redundancy check of archives: 32 bits, the low bit first, all ones before and after.
-/

namespace FileShell

namespace Checksum

def shift (c : UInt32) : UInt32 :=
  if c &&& 1 = 1 then (c >>> 1) ^^^ 0xEDB88320 else c >>> 1

def step (c : UInt32) (b : UInt8) : UInt32 :=
  Nat.repeat shift 8 (c ^^^ b.toUInt32)

def crc32 (b : Bytes) : UInt32 := ~~~ b.foldl step 0xFFFFFFFF

end Checksum

end FileShell
