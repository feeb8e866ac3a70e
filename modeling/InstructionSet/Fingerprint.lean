import InstructionSet.Definition
import InstructionSet.Digest
import InstructionSet.Json.Printer

/-!
# Fingerprints

A fingerprint is the SHA-256 digest of a value's compact JSON text.
-/

namespace InstructionSet

structure Fingerprint where
  bytes : List UInt8
  deriving Repr, DecidableEq

namespace Fingerprint

def ofText (text : String) : Fingerprint := ⟨Digest.sha256 text.toUTF8.toList⟩

def ofValue (v : Json.Value) : Fingerprint := ofText v.compact

def text (f : Fingerprint) : String := Digest.hex f.bytes

def json (f : Fingerprint) : Json.Value := .text f.text

end Fingerprint

namespace Definition

/-- The text that stands for the definition in its fingerprint. -/
def canonical (d : Definition) : String := d.json.compact

def fingerprint (d : Definition) : Fingerprint := .ofText d.canonical

end Definition

end InstructionSet
