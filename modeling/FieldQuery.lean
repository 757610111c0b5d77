import FieldQuery.Document.Reference
import FieldQuery.Json.Printer
import FieldQuery.Store.Disturbed
import FieldQuery.Proofs.Accounts
import FieldQuery.Proofs.Addresses
import FieldQuery.Proofs.AllOrNothing
import FieldQuery.Proofs.Calls
import FieldQuery.Proofs.ChildPaths
import FieldQuery.Proofs.Deletions
import FieldQuery.Proofs.Distinctness
import FieldQuery.Proofs.Documents
import FieldQuery.Proofs.FilterWriting
import FieldQuery.Proofs.Frames
import FieldQuery.Proofs.GetPut
import FieldQuery.Proofs.Grammar
import FieldQuery.Proofs.Growth
import FieldQuery.Proofs.Guards
import FieldQuery.Proofs.InPlace
import FieldQuery.Proofs.Interleavings
import FieldQuery.Proofs.MissingOperands
import FieldQuery.Proofs.Outcomes
import FieldQuery.Proofs.Outlines
import FieldQuery.Proofs.Progressions
import FieldQuery.Proofs.QuotedKeys
import FieldQuery.Proofs.QuotedLiterals
import FieldQuery.Proofs.Redivision
import FieldQuery.Proofs.Refusals
import FieldQuery.Proofs.Removal
import FieldQuery.Proofs.Replacement
import FieldQuery.Proofs.Root
import FieldQuery.Proofs.Spacing
import FieldQuery.Proofs.StepTexts
import FieldQuery.Proofs.Thinning
import FieldQuery.Proofs.Walks
import FieldQuery.Proofs.Writes
import FieldQuery.Proofs.Writing
import FieldQuery.Proofs.Termination
