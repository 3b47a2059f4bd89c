import RegionIR.Dialect
import RegionIR.Edit.Erase
import RegionIR.Edit.Operand
import RegionIR.Edit.Unchecked
import RegionIR.Listing
import RegionIR.Session
import RegionIR.Validation.Numeric
import RegionIR.Proofs.Graph.Consistent
import RegionIR.Proofs.Graph.Endless
import RegionIR.Proofs.Run.Guarantees
import RegionIR.Proofs.Run.Refusals
import RegionIR.Proofs.Run.Faults
import RegionIR.Proofs.Context.Guarantees
import RegionIR.Proofs.Run.Erasure
import RegionIR.Proofs.Run.Handles
import RegionIR.Proofs.Context.Canonical
import RegionIR.Proofs.Context.InsertOnce
import RegionIR.Proofs.Context.IntegerTypes
import RegionIR.Proofs.Run.CycleChecks
import RegionIR.Proofs.Run.Moves
import RegionIR.Proofs.Run.Creation
import RegionIR.Proofs.Run.Replacement
import RegionIR.Proofs.Run.Confluence
import RegionIR.Proofs.Run.CreationLaws
import RegionIR.Proofs.Run.Arguments
import RegionIR.Proofs.Run.Appends
import RegionIR.Proofs.Graph.Stumbles
import RegionIR.Proofs.Graph.Reporting
import RegionIR.Proofs.Context.Duplicates
import RegionIR.Proofs.Run.Filling
import RegionIR.Proofs.Edit.Insertion
import RegionIR.Proofs.Text.Delimited
import RegionIR.Proofs.Context.KeyTexts
