import InstructionSet.Builder
import InstructionSet.CommandLine
import InstructionSet.Main
import InstructionSet.Proofs.Builder.Fragment
import InstructionSet.Proofs.Catalog.ComparisonRules
import InstructionSet.Proofs.Catalog.Rules
import InstructionSet.Proofs.Declarations.Distinct
import InstructionSet.Proofs.Declarations.Fragments
import InstructionSet.Proofs.Declarations.Order
import InstructionSet.Proofs.Definition.Acceptance
import InstructionSet.Proofs.Definition.Clearing
import InstructionSet.Proofs.Definition.Directory
import InstructionSet.Proofs.Definition.Equality
import InstructionSet.Proofs.Definition.Inheritance
import InstructionSet.Proofs.Definition.Raising
import InstructionSet.Proofs.Definition.ReadBack
import InstructionSet.Proofs.Definition.Rearrangement
import InstructionSet.Proofs.Definition.Siblings
import InstructionSet.Proofs.Definition.Soundness
import InstructionSet.Proofs.Definition.Warnings
import InstructionSet.Proofs.Form.Pieces
import InstructionSet.Proofs.Form.Registers
import InstructionSet.Proofs.Level
import InstructionSet.Proofs.Record.DraftReading
import InstructionSet.Proofs.Record.Layers
import InstructionSet.Proofs.Report
import InstructionSet.Proofs.Table.Insertion
import InstructionSet.Store.FileTree
