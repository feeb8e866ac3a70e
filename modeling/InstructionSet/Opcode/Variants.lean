import InstructionSet.Catalog
import InstructionSet.Outcome

/-!
# Resolution of variants

Each draft listed in a variant-bearing opcode is laid over what the opcode hands down and
becomes a definition of its own.
-/

namespace InstructionSet

/-- What an opcode hands down to its variants: the draft without its markers, its types with
the sizes among them if `sizetype` applies. -/
def Opcode.Draft.seed (d : Draft) : Draft :=
  let seed := d.unmarked
  match PlainShape.ofDraft d with
  | .sized _ types true => { seed with types := .given types }
  | _ => seed

namespace Catalog

/-- Variant number `variation`. Markers on the draft of a variant are ignored. -/
def variant (c : Catalog) (id : String) (seed : Opcode.Draft) (variation : Nat)
    (entry : Opcode.Draft) : Outcome Variant := do
  Outcome.warnIf entry.isMarked (.nestedMarkers id variation)
  let d := (entry.onto seed).unmarked
  let layout ← (c.layout d).mapError (Breach.error (.variant id variation))
  return {
    name := id
    variation
    layout
    shape := .ofDraft d
    traits := .ofDraft d }

/-- The variants from number `variation` on, up to the first that breaks a rule. -/
def variantsFrom (c : Catalog) (id : String) (seed : Opcode.Draft) (variation : Nat) :
    List Opcode.Draft → Outcome (List Variant)
  | [] => pure []
  | entry :: rest => do
      let v ← c.variant id seed variation entry
      let more ← c.variantsFrom id seed (variation + 1) rest
      return v :: more

/-- All variants listed in the merged draft of an opcode. -/
def variants (c : Catalog) (id : String) (d : Opcode.Draft) : Outcome (List Variant) :=
  c.variantsFrom id d.seed 0 (d.variants.getD [])

end Catalog

end InstructionSet
