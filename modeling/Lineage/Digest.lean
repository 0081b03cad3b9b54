import Lineage.Digest.Blake3
import Lineage.Json.Writer
import Lineage.Text.Digit

set_option autoImplicit false

/-!
# Content digests and node identifiers

A value is identified by the digest of its compact text. A node of the graph is known by the first
sixteen bytes of that digest.

## Main definitions

* `Lineage.Digest`: the 32 bytes of a digest.
* `Lineage.Digest.ofJson`: the digest of the compact text of a value.
* `Lineage.NodeId`: sixteen bytes, in plain and in hyphenated form.
-/

namespace Lineage

/-- The bytes of a content digest. -/
structure Digest where
  /-- 32 bytes. -/
  bytes : List UInt8
  deriving DecidableEq, Repr

namespace Digest

/-- The digest of a text in UTF-8. -/
def ofText (text : String) : Digest :=
  ⟨Blake3.digest text.toUTF8.toList⟩

/-- The digest of the compact text of a value. -/
def ofJson (value : Json) : Digest :=
  ofText value.render

/-- Two hexadecimal digits a byte. -/
def hex (d : Digest) : String :=
  Text.hexOfBytes d.bytes

end Digest

/-- The identifier of a node: sixteen bytes. -/
structure NodeId where
  /-- The bytes. -/
  bytes : List UInt8
  deriving DecidableEq, Repr

namespace NodeId

/-- The first half of a digest. -/
def ofDigest (d : Digest) : NodeId :=
  ⟨d.bytes.take 16⟩

/-- 32 hexadecimal digits. -/
def hex (id : NodeId) : String :=
  Text.hexOfBytes id.bytes

instance : ToString NodeId := ⟨hex⟩

/-- The digits with hyphens after the fourth, sixth, eighth and tenth byte. -/
def hyphenated (id : NodeId) : String :=
  let part (start count : Nat) := Text.hexOfBytes ((id.bytes.drop start).take count)
  String.intercalate "-" [part 0 4, part 4 2, part 6 2, part 8 2, part 10 6]

/-- The first two digits. -/
def short (id : NodeId) : String :=
  Text.hexOfBytes (id.bytes.take 1)

/-- The order of rows of bytes by their first difference; a start of a row comes before the row. -/
def bytesLE : List UInt8 → List UInt8 → Bool
  | [], _ => true
  | _ :: _, [] => false
  | a :: as, b :: bs =>
    decide (a.toNat < b.toNat) || (decide (a.toNat = b.toNat) && bytesLE as bs)

/-- The order of the bytes. -/
def le (a b : NodeId) : Bool := bytesLE a.bytes b.bytes

/-- Exactly sixteen bytes from their digits. -/
def ofPlain? (cs : List Char) : Option NodeId :=
  (Text.bytesOfDigits? cs).bind fun bytes => if bytes.length = 16 then some ⟨bytes⟩ else none

/-- Groups of 8, 4, 4, 4 and 12 digits with hyphens between them. -/
def ofHyphenated? (cs : List Char) : Option NodeId :=
  if cs.length = 36 ∧ cs[8]? = some '-' ∧ cs[13]? = some '-' ∧ cs[18]? = some '-'
      ∧ cs[23]? = some '-' then
    ofPlain? (cs.filter (· != '-'))
  else none

/-- Read an identifier: digits with or without hyphens, also hyphenated ones in braces or after
`urn:uuid:`. -/
def parse? (s : String) : Option NodeId :=
  let cs := s.toList
  if cs.length = 32 then ofPlain? cs
  else if cs.length = 36 then ofHyphenated? cs
  else if cs.length = 38 ∧ cs.head? = some (Char.ofNat 123)
      ∧ cs.getLast? = some (Char.ofNat 125) then
    ofHyphenated? ((cs.drop 1).take 36)
  else if cs.length = 45 ∧ cs.take 9 = "urn:uuid:".toList then ofHyphenated? (cs.drop 9)
  else none

end NodeId

end Lineage
