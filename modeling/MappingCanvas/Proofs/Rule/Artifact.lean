/-
# Artifacts are read again

The bytes of an artifact are those that the format prescribes, and no others
(`Artifact.layout_iff`).  They are read as the artifact, whatever follows them, and a part that is
cut off before the end is not read as any.  As rule sets are read again too, a rule set is unpacked
from where it was packed (`Artifact.artifact_roundTrip`).

Lengths are written as words, so a length must fit one (`Artifact.Addressable`), as that of anything
in memory does.  That the text of a document is read as the document is a hypothesis here.
-/

import MappingCanvas.Proofs.Rule.Document
import MappingCanvas.Proofs.Rule.Varint
import MappingCanvas.Rule.Artifact

namespace MappingCanvas
namespace Artifact

open Varint

variable {a : Artifact} {bs : List UInt8}

/-- The lengths of the parts of an artifact are words. -/
structure Addressable (a : Artifact) : Prop where
  name : ∀ s ∈ a.name, s.utf8ByteSize < 2 ^ 64
  version : ∀ s ∈ a.version, s.utf8ByteSize < 2 ^ 64
  body : a.body.length < 2 ^ 64

/-- The format of an artifact: the codes of its parts, one behind the other. -/
inductive Layout (a : Artifact) : List UInt8 → Prop
  | intro {formatVersion name version ruleCount body : List UInt8}
      (hformat : Codes a.formatVersion.toNat formatVersion) (hname : CodesTextOption a.name name)
      (hversion : CodesTextOption a.version version)
      (hcount : Codes a.ruleCount.toNat ruleCount) (hbody : CodesBytes a.body body) :
      Layout a (formatVersion ++ name ++ version ++ ruleCount ++ body)

/-- **The bytes that are written are those of the format.** -/
theorem layout_iff (ha : a.Addressable) : a.Layout bs ↔ bs = a.toBytes := by
  have hformat : a.formatVersion.toNat < 2 ^ 64 := lt_trans a.formatVersion.toNat_lt (by decide)
  have hcount : a.ruleCount.toNat < 2 ^ 64 := lt_trans a.ruleCount.toNat_lt (by decide)
  constructor
  · rintro ⟨hformat', hname, hversion, hcount', hbody⟩
    rw [toBytes, (codes_iff hformat).1 hformat', (codesTextOption_iff ha.name).1 hname,
      (codesTextOption_iff ha.version).1 hversion, (codes_iff hcount).1 hcount',
      (codesBytes_iff ha.body).1 hbody]
  · rintro rfl
    exact ⟨codes_encode hformat, (codesTextOption_iff ha.name).2 rfl,
      (codesTextOption_iff ha.version).2 rfl, codes_encode hcount, (codesBytes_iff ha.body).2 rfl⟩

/-- Reads an artifact part by part, and leaves what follows it. -/
def read? : ByteReader Artifact :=
  ByteReader.bind (Varint.decode? 2) fun formatVersion =>
    ByteReader.bind decodeTextOption? fun name =>
      ByteReader.bind decodeTextOption? fun version =>
        ByteReader.bind (Varint.decode? 4) fun ruleCount =>
          ByteReader.bind decodeBytes? fun body bs =>
            some (⟨formatVersion.toUInt16, name, version, ruleCount.toUInt32, body⟩, bs)

/-- Decoding is reading, whatever follows. -/
theorem decode?_eq (bs : List UInt8) : decode? bs = (read? bs).map Prod.fst := by
  simp [decode?, read?, ByteReader.bind, Option.map_bind]

/-- **An artifact is read again.** -/
theorem reads_toBytes (ha : a.Addressable) : Reads read? a.toBytes a := by
  have hformat : Reads (Varint.decode? 2) (encode a.formatVersion.toNat) a.formatVersion.toNat :=
    reads_encode (by simp) a.formatVersion.toNat_lt
  have hcount : Reads (Varint.decode? 4) (encode a.ruleCount.toNat) a.ruleCount.toNat :=
    reads_encode (by simp) a.ruleCount.toNat_lt
  have hparts : a.toBytes = encode a.formatVersion.toNat ++ (encodeTextOption a.name ++
      (encodeTextOption a.version ++ (encode a.ruleCount.toNat ++
        (encodeBytes a.body ++ [])))) := by
    simp [toBytes]
  rw [hparts]
  refine hformat.bind ((reads_encodeTextOption ha.name).bind
    ((reads_encodeTextOption ha.version).bind (hcount.bind ((reads_encodeBytes ha.body).bind ?_))))
  simp only [Nat.toUInt16, UInt16.ofNat_toNat, Nat.toUInt32, UInt32.ofNat_toNat]
  exact .pure a

/-- **An artifact is read with anything behind it.** -/
theorem fromBytes_append (ha : a.Addressable) (rest : List UInt8) :
    fromBytes (a.toBytes ++ rest) = .ok a := by
  rw [fromBytes, decode?_eq, (reads_toBytes ha).found]
  rfl

/-- **No part in front of an artifact is read as one.** -/
theorem fromBytes_cut (ha : a.Addressable) {front : List UInt8} (hfront : front <+: a.toBytes)
    (hne : front ≠ a.toBytes) : fromBytes front = .error .undecodable := by
  rw [fromBytes, decode?_eq, (reads_toBytes ha).cut front hfront hne]
  rfl

/-- A rule set is unpacked from where it was packed, if the text of its document is read as the
document. -/
theorem unpack_pack {s : RuleSet} (hread : Json.read s.toJson.compact = ⟨s.toJson, none⟩) :
    (pack s).unpack = .ok s := by
  have hbody : RuleSet.decode.ofBytes (pack s).body = .ok s := by
    have hscan : Json.readBytes (pack s).body = ⟨s.toJson, none⟩ := hread
    rw [Decoder.ofBytes, hscan, Decoder.ofScan, s.decode_toJson]
    rfl
  have hformat : ¬(pack s).formatVersion ≠ currentFormat := not_not_intro rfl
  rw [unpack, if_neg hformat, hbody]
  rfl

/-- **The binary round trip.**  The bytes of an artifact are those of the format; they are read as
the artifact, whatever follows them, and no part that is cut off before the end is read.  So a rule
set is unpacked from where it was packed, if the text of its document is read as the document. -/
theorem artifact_roundTrip :
    (∀ a : Artifact, a.Addressable → (∀ bs, a.Layout bs ↔ bs = a.toBytes) ∧
      (∀ rest, fromBytes (a.toBytes ++ rest) = .ok a) ∧
      ∀ front, front <+: a.toBytes → front ≠ a.toBytes → fromBytes front = .error .undecodable) ∧
    ∀ s : RuleSet, (pack s).Addressable → Json.read s.toJson.compact = ⟨s.toJson, none⟩ →
      ∀ rest, fromBytes ((pack s).toBytes ++ rest) >>= unpack = .ok s := by
  refine ⟨fun a ha => ⟨fun bs => layout_iff ha, fromBytes_append ha, fun front => fromBytes_cut ha⟩,
    fun s hs hread rest => ?_⟩
  rw [fromBytes_append hs]
  exact unpack_pack hread

/-- An artifact with numbers of several widths. -/
def sample : Artifact := ⟨300, some "é", none, 70000, [0, 255]⟩

/-- A constant with a line break. -/
def sampleRules : RuleSet := ⟨some "n", none, [⟨none, "t", .constant (.string "\n")⟩], []⟩

/-- The text of the sample's document is read as this document. -/
theorem read_sampleRules :
    Json.read sampleRules.toJson.compact = ⟨sampleRules.toJson, none⟩ := by
  rw [Json.read, toList_eq]
  rfl

/-- Bytes behind the sample are not read, and the first bytes of it alone are not enough. -/
theorem artifact_roundTrip_sample :
    fromBytes (sample.toBytes ++ [1, 2]) = .ok sample ∧
      fromBytes (sample.toBytes.take 2) = .error .undecodable ∧
      fromBytes ((pack sampleRules).toBytes ++ [1, 2]) >>= unpack = .ok sampleRules := by
  have hsample : sample.Addressable := ⟨by decide, nofun, by decide⟩
  have hrules : (pack sampleRules).Addressable := by
    refine ⟨by decide, nofun, ?_⟩
    rw [pack, toList_eq]
    decide
  obtain ⟨hartifact, hunpack⟩ := artifact_roundTrip
  obtain ⟨-, hwhole, hcut⟩ := hartifact sample hsample
  exact ⟨hwhole _, hcut _ (List.take_prefix _ _) (by decide),
    hunpack sampleRules hrules read_sampleRules _⟩

end Artifact
end MappingCanvas
