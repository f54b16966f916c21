import GraphStore.Term
import GraphStore.Term.Text
import GraphStore.Filter
import GraphStore.Binding
import GraphStore.Algebra
import GraphStore.Algebra.Text
import GraphStore.Access.AccessList
import GraphStore.Iri.Grammar
import GraphStore.Iri.Resolve
import GraphStore.Config
import GraphStore.Options
import GraphStore.Transaction
import GraphStore.Reader
import GraphStore.GroundData
import GraphStore.Template
import GraphStore.Evaluation.Solutions
import GraphStore.Execution
import GraphStore.Text.Characters
import GraphStore.Text.LanguageTag
import GraphStore.Sparql.Update
import GraphStore.Update.Lowering
import GraphStore.SingleWriter
import GraphStore.Store
import GraphStore.Proofs.Batch
import GraphStore.Proofs.Looks
import GraphStore.Proofs.Ledger
import GraphStore.Proofs.Steps
import GraphStore.Proofs.Frame
import GraphStore.Proofs.Entitlement
import GraphStore.Proofs.Attempts
import GraphStore.Proofs.Run
import GraphStore.Proofs.Reachable
import GraphStore.Proofs.ExactChanges
import GraphStore.Proofs.Permission
import GraphStore.Proofs.HiddenGraphs
import GraphStore.Proofs.Merge
import GraphStore.Proofs.Meaning
import GraphStore.Proofs.Lookup
import GraphStore.Proofs.Matching
import GraphStore.Proofs.Outcome
import GraphStore.Proofs.BasicPattern
import GraphStore.Proofs.Supported
import GraphStore.Proofs.Agreement
import GraphStore.Proofs.Subselect
import GraphStore.Proofs.Rewriting
import GraphStore.Proofs.Imitation
import GraphStore.Proofs.IriCharacters
import GraphStore.Proofs.Layout
import GraphStore.Proofs.Spelling
import GraphStore.Proofs.Alignment
import GraphStore.Proofs.Guessing
import GraphStore.Proofs.Atomicity
import GraphStore.Proofs.Alone
import GraphStore.Proofs.CopyingUpdate
import GraphStore.Proofs.Folding
import GraphStore.Proofs.Materialized
import GraphStore.Proofs.Integrity
import GraphStore.Proofs.Silence
import GraphStore.Proofs.Concatenation
import GraphStore.Proofs.Denial
import GraphStore.Proofs.Extension
import GraphStore.Proofs.Protocol
import GraphStore.Proofs.Solving
import GraphStore.Proofs.Modification
import GraphStore.Proofs.Transfers
import GraphStore.Proofs.Removal
import GraphStore.Proofs.Gate
import GraphStore.Proofs.Retry
import GraphStore.Proofs.TemplateNodes
import GraphStore.Proofs.NodesInTurn
import GraphStore.Proofs.Renaming
import GraphStore.Proofs.Recognition
import GraphStore.Proofs.Quotation
import GraphStore.Proofs.Constructs
import GraphStore.Proofs.Refusal
import GraphStore.Proofs.Reading
import GraphStore.Proofs.Gathering
import GraphStore.Proofs.Configuration
import GraphStore.Proofs.Report
import GraphStore.Proofs.Loading
import GraphStore.Proofs.Tracking
import GraphStore.Proofs.MergeLaws
import GraphStore.Proofs.Dependence
import GraphStore.Proofs.ByteOffsets
import GraphStore.Proofs.TokenLengths
