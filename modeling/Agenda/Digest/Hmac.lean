import Agenda.Digest.Sha256

/-!
# Keyed digests

The HMAC of a message under a key: the digest of the message behind the key in one mask, and the
digest of that behind the key in another. A key longer than a block is replaced by its digest.
-/

namespace Agenda
namespace Hmac

def blockLength : Nat := 64

/-- The key with zeros behind it, as long as a block. -/
def blockOfKey (key : List UInt8) : List UInt8 :=
  let short := if blockLength < key.length then Sha256.hash key else key
  short ++ List.replicate (blockLength - short.length) 0

def tag (key message : List UInt8) : List UInt8 :=
  let block := blockOfKey key
  let inner := Sha256.hash (block.map (· ^^^ 0x36) ++ message)
  Sha256.hash (block.map (· ^^^ 0x5c) ++ inner)

@[simp] theorem length_tag (key message : List UInt8) : (tag key message).length = 32 :=
  Sha256.length_hash _

end Hmac
end Agenda
