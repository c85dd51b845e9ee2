import CodeHealth.Digest.Sha1

/-!
# Name-based identifiers

An identifier derived from a namespace and a name: the first sixteen bytes of their SHA-1 digest
with the version 5 and variant bits set, in the usual grouping of hexadecimal digits.
-/

namespace CodeHealth.Digest

/-- Sets the version and variant bits of sixteen identifier bytes. -/
def stampVersion (bytes : List UInt8) : List UInt8 :=
  bytes.zipIdx.map fun (b, i) =>
    if i == 6 then (b &&& 0x0f) ||| 0x50
    else if i == 8 then (b &&& 0x3f) ||| 0x80
    else b

/-- Writes sixteen bytes in groups of 4, 2, 2, 2 and 6. -/
def groupHex (bytes : List UInt8) : String :=
  let part (start size : Nat) := hex ((bytes.drop start).take size)
  String.intercalate "-" [part 0 4, part 4 2, part 6 2, part 8 2, part 10 6]

/-- The identifier of a name within the namespace of the given sixteen bytes. -/
def nameId (space : Nat) (name : String) : String :=
  let digest := Sha1.digest (bigEndian space 16 ++ name.toUTF8.data.toList)
  groupHex (stampVersion (digest.take 16))

end CodeHealth.Digest
