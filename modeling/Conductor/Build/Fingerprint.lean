import Conductor.Build.Basic
import Conductor.Digest.Sha256
/-!
# Builds — fingerprints

A fingerprint identifies a build request: the digest of the builder, the plan,
the build key and the text of the configuration, with a zero octet behind each
of the first three.
-/

namespace Conductor

namespace Fingerprint

/-- The octets that a fingerprint is the digest of. -/
def octets (builder : Selector) (plan key : String) (config : Json) : List UInt8 :=
  Text.Utf8.ofString builder.text ++ 0 :: Text.Utf8.ofString plan ++ 0 :: Text.Utf8.ofString key ++
    0 :: Text.Utf8.ofString (config.text)

end Fingerprint

/-- The fingerprint of a build request. -/
def fingerprint (builder : Selector) (plan key : String) (config : Json) : String :=
  Digest.sha256 (Fingerprint.octets builder plan key config)

end Conductor
