import SymbolTable.Action
import SymbolTable.Action.Answer
import SymbolTable.Action.Creation
import SymbolTable.Action.Lookup
import SymbolTable.Action.Marking
import SymbolTable.Action.Naming
import SymbolTable.Action.Perform
import SymbolTable.Action.Question
import SymbolTable.Action.Refresh
import SymbolTable.Action.Relocation
import SymbolTable.Action.Removal
import SymbolTable.Action.Renaming
import SymbolTable.Address
import SymbolTable.Allocator
import SymbolTable.Command
import SymbolTable.Description
import SymbolTable.Dict
import SymbolTable.Event
import SymbolTable.Facts
import SymbolTable.Fault
import SymbolTable.Handle
import SymbolTable.Ident
import SymbolTable.Journal
import SymbolTable.Kind
import SymbolTable.Name
import SymbolTable.Ordered
import SymbolTable.Progress
import SymbolTable.Proofs.Row.Layout
import SymbolTable.Proofs.Store.Backend
import SymbolTable.Proofs.Store.Indexed
import SymbolTable.Proofs.Store.Memory
import SymbolTable.Proofs.Store.Rows
import SymbolTable.Proofs.Text.Utf8
import SymbolTable.Provenance
import SymbolTable.References
import SymbolTable.Reply
import SymbolTable.Row
import SymbolTable.Row.Layout
import SymbolTable.Rules
import SymbolTable.Session
import SymbolTable.Settings
import SymbolTable.Settings.Written
import SymbolTable.Store
import SymbolTable.Store.Backend
import SymbolTable.Store.Index
import SymbolTable.Store.Indexed
import SymbolTable.Store.Memory
import SymbolTable.Table
import SymbolTable.Text.Blank
import SymbolTable.Text.Escape
import SymbolTable.Text.Extending
import SymbolTable.Text.Hex
import SymbolTable.Text.Ignorable
import SymbolTable.Text.Ranges
import SymbolTable.Text.Unprintable
import SymbolTable.Text.Utf8
import SymbolTable.Toml.Document
import SymbolTable.Toml.Literal
import SymbolTable.Toml.Node
import SymbolTable.Toml.Quoted
import SymbolTable.Workspace
import SymbolTable.Workspace.Comparison
import SymbolTable.Workspace.Reactions
import SymbolTable.Proofs.Store.Agreement
import SymbolTable.Proofs.Store.Reopening
import SymbolTable.Proofs.Store.Drawing
import SymbolTable.Proofs.Action.Ends
import SymbolTable.Proofs.Table.View
import SymbolTable.Proofs.Table.Step
import SymbolTable.Proofs.Action.Calls
import SymbolTable.Proofs.Action.Course
import SymbolTable.Proofs.Action.Naming
import SymbolTable.Proofs.Action.Upkeep
import SymbolTable.Proofs.Action.Editing
import SymbolTable.Proofs.Action.Creation
import SymbolTable.Proofs.Action.Renaming
import SymbolTable.Proofs.Action.Removal
import SymbolTable.Proofs.Run
import SymbolTable.Proofs.Coherence
import SymbolTable.Proofs.Table.Exact
import SymbolTable.Proofs.Action.Keeping
import SymbolTable.Proofs.Action.Finding
import SymbolTable.Proofs.UniqueNames
import SymbolTable.Proofs.MovedNames
import SymbolTable.Proofs.Identity
import SymbolTable.Proofs.Table.Forest
import SymbolTable.Proofs.Action.Deletion
import SymbolTable.Proofs.ScopeForest
import SymbolTable.Proofs.Exclusion
import SymbolTable.Proofs.Designation
import SymbolTable.Proofs.Primaries
import SymbolTable.Proofs.Chronicle
import SymbolTable.Proofs.Coverage
import SymbolTable.Proofs.Table.Subtree
import SymbolTable.Proofs.Table.Guards
import SymbolTable.Proofs.Cascade
import SymbolTable.Proofs.Removals
import SymbolTable.Proofs.Action.Serving
import SymbolTable.Proofs.Anchors
import SymbolTable.Proofs.Clearing
import SymbolTable.Proofs.Links
import SymbolTable.Proofs.Action.Spreading
import SymbolTable.Proofs.Action.Refusal
import SymbolTable.Proofs.Freshness
import SymbolTable.Proofs.Refusals
import SymbolTable.Proofs.TornWrites
import SymbolTable.Proofs.TornDeletions
import SymbolTable.Proofs.Columns
import SymbolTable.Proofs.Ownership
import SymbolTable.Proofs.Action.Showing
import SymbolTable.Proofs.Outcome
import SymbolTable.Proofs.Ledger
import SymbolTable.Proofs.Telling
import SymbolTable.Proofs.Announcements
import SymbolTable.Proofs.Inheritance
import SymbolTable.Proofs.Text.WellFormed
import SymbolTable.Proofs.Row.Canonical
import SymbolTable.Proofs.Table.Proper
import SymbolTable.Proofs.Table.Pool
import SymbolTable.Proofs.Everywhere
import SymbolTable.Proofs.ProperRows
import SymbolTable.Proofs.Places
import SymbolTable.Proofs.Membership
import SymbolTable.Proofs.Listings
import SymbolTable.Proofs.Table.Depth
import SymbolTable.Proofs.Sharing
import SymbolTable.Proofs.Promotion
import SymbolTable.Proofs.Action.Nesting
import SymbolTable.Proofs.FullNames
import SymbolTable.Proofs.Table.Transfer
import SymbolTable.Proofs.BlockMoves
import SymbolTable.Proofs.QualifiedNames
import SymbolTable.Proofs.Action.Settling
import SymbolTable.Proofs.Renames
import SymbolTable.Proofs.Workspace.Turning
import SymbolTable.Proofs.Comparison
import SymbolTable.Proofs.BorrowedNames
import SymbolTable.Proofs.DerivedNames
import SymbolTable.Proofs.ScopeMoves
import SymbolTable.Proofs.FirstSymbols
import SymbolTable.Proofs.Twins
import SymbolTable.Proofs.Displacements
import SymbolTable.Proofs.ReferenceScans
import SymbolTable.Proofs.ScopeLoops
