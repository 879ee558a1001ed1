import BusinessClass.Diagnostic.Decoding
import BusinessClass.Document.Render
import BusinessClass.Main
import BusinessClass.Proofs.Diagnostic.JsonRoundTrip
import BusinessClass.Proofs.Diagnostic.Report
import BusinessClass.Proofs.Document.Accounting
import BusinessClass.Proofs.Document.Budget
import BusinessClass.Proofs.Document.Checked
import BusinessClass.Proofs.Document.Distribution
import BusinessClass.Proofs.Document.GroupTree
import BusinessClass.Proofs.Document.Indentation
import BusinessClass.Proofs.Document.LocalSets
import BusinessClass.Proofs.Document.Membership
import BusinessClass.Proofs.Document.Plain
import BusinessClass.Proofs.Document.Precedence
import BusinessClass.Proofs.Document.RelationView
import BusinessClass.Proofs.Document.Reordering
import BusinessClass.Proofs.Document.Sections
import BusinessClass.Proofs.Document.Shape
import BusinessClass.Proofs.Document.Skeleton
import BusinessClass.Proofs.Document.WellFormed
import BusinessClass.Proofs.Document.WhereClause
import BusinessClass.Proofs.Header.DottedName
import BusinessClass.Proofs.Header.Grammar
import BusinessClass.Proofs.Header.NormalForm
import BusinessClass.Proofs.Header.Spacing
import BusinessClass.Proofs.Outline.Building
import BusinessClass.Proofs.Outline.Parents
import BusinessClass.Proofs.SetRules.Conservation
import BusinessClass.Proofs.Source.OpaqueText
import BusinessClass.Proofs.Source.Partition
