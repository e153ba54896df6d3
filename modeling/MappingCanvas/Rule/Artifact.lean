/-
# Binary artifacts

A packed rule set for the runtime: a fixed binary envelope around the compact document of the
rules.  The envelope holds the format version, the name and version of the rule set, the number of
its rules and the bytes of the document, each in its byte code; what follows it is not looked at.
-/

import MappingCanvas.Files
import MappingCanvas.Json.Writer
import MappingCanvas.Rule.Document
import MappingCanvas.Rule.Varint

namespace MappingCanvas

/-- A packed rule set. -/
structure Artifact where
  formatVersion : UInt16
  name : Option String
  version : Option String
  ruleCount : UInt32
  body : List UInt8
  deriving DecidableEq

/-- Why an artifact could not be used. -/
inductive ArtifactError
  | access (path : String) (cause : FileError)
  | undecodable
  | formatVersion (found expected : UInt16)
  | badBody (cause : DecodeError)

namespace Artifact

/-- The format that is written. -/
def currentFormat : UInt16 := 1

/-- Packs a rule set; a count of rules that does not fit is capped. -/
def pack (s : RuleSet) : Artifact where
  formatVersion := currentFormat
  name := s.name
  version := s.version
  ruleCount := (min s.rules.length (Nat.pow 2 32 - 1)).toUInt32
  body := s.toJson.compact.toUTF8.toList

/-- The rule set of an artifact in the current format. -/
def unpack (a : Artifact) : Except ArtifactError RuleSet :=
  if a.formatVersion ≠ currentFormat then .error (.formatVersion a.formatVersion currentFormat)
  else (RuleSet.decode.ofBytes a.body).mapError .badBody

/-- The bytes of an artifact. -/
def toBytes (a : Artifact) : List UInt8 :=
  Varint.encode a.formatVersion.toNat ++ Varint.encodeTextOption a.name ++
    Varint.encodeTextOption a.version ++ Varint.encode a.ruleCount.toNat ++
    Varint.encodeBytes a.body

/-- Reads an artifact off some bytes. -/
def decode? (bs : List UInt8) : Option Artifact := do
  let (formatVersion, bs) ← Varint.decode? 2 bs
  let (name, bs) ← Varint.decodeTextOption? bs
  let (version, bs) ← Varint.decodeTextOption? bs
  let (ruleCount, bs) ← Varint.decode? 4 bs
  let (body, _) ← Varint.decodeBytes? bs
  return ⟨formatVersion.toUInt16, name, version, ruleCount.toUInt32, body⟩

/-- Reads an artifact. -/
def fromBytes (bs : List UInt8) : Except ArtifactError Artifact :=
  match decode? bs with
  | some a => .ok a
  | none => .error .undecodable

section

variable {m : Type → Type} [Monad m] [FileAccess m]

/-- Saves an artifact. -/
def save (a : Artifact) (path : String) : m (Except ArtifactError Unit) := do
  return (← FileAccess.writeBytes path a.toBytes).mapError (.access path)

/-- Loads an artifact. -/
def load (path : String) : m (Except ArtifactError Artifact) := do
  match ← FileAccess.readBytes path with
  | .ok bytes => return fromBytes bytes
  | .error cause => return .error (.access path cause)

end

end Artifact

/-- The wording of an artifact error. -/
def ArtifactError.message : ArtifactError → String
  | access path cause => "Could not access '" ++ path ++ "': " ++ cause.message
  | undecodable => "Binary decoding failed"
  | formatVersion found expected =>
    "Unsupported artifact format version " ++ Text.ofNat found.toNat ++
      " (expected " ++ Text.ofNat expected.toNat ++ ")"
  | badBody cause => "JSON encoding failed: " ++ cause.message

end MappingCanvas
