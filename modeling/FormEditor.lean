import FormEditor.Attributes
import FormEditor.Command
import FormEditor.Editor.Basic
import FormEditor.Editor.Operations
import FormEditor.Editor.Queries
import FormEditor.Fault
import FormEditor.Form.Arrangement
import FormEditor.Form.Basic
import FormEditor.Form.Branch
import FormEditor.Form.Growth
import FormEditor.Form.Links
import FormEditor.Form.Locks
import FormEditor.Form.Run
import FormEditor.Form.Saved
import FormEditor.Form.Validity
import FormEditor.Form.Values
import FormEditor.Form.Walk
import FormEditor.History
import FormEditor.Json.Basic
import FormEditor.Json.Printer
import FormEditor.Json.Reader
import FormEditor.Json.Text
import FormEditor.Json.Token
import FormEditor.LockLevel
import FormEditor.NodeId
import FormEditor.Number.Binary64
import FormEditor.Number.Reading
import FormEditor.Number.Shortest
import FormEditor.Payload
import FormEditor.Proofs.Atomicity
import FormEditor.Proofs.Bags
import FormEditor.Proofs.Clearing
import FormEditor.Proofs.Defaults
import FormEditor.Proofs.Editor.Edits
import FormEditor.Proofs.Editor.Highlighting
import FormEditor.Proofs.Editor.Notices
import FormEditor.Proofs.Editor.Placing
import FormEditor.Proofs.Editor.Records
import FormEditor.Proofs.Editor.Reselecting
import FormEditor.Proofs.Editor.Runs
import FormEditor.Proofs.Editor.Timelines
import FormEditor.Proofs.Effects
import FormEditor.Proofs.Failures
import FormEditor.Proofs.Forgeries
import FormEditor.Proofs.Form.Acceptance
import FormEditor.Proofs.Form.Alike
import FormEditor.Proofs.Form.Attaching
import FormEditor.Proofs.Form.Blocks
import FormEditor.Proofs.Form.Calls
import FormEditor.Proofs.Form.Copies
import FormEditor.Proofs.Form.Detaching
import FormEditor.Proofs.Form.DocumentOrder
import FormEditor.Proofs.Form.Documents
import FormEditor.Proofs.Form.Gathering
import FormEditor.Proofs.Form.Grafting
import FormEditor.Proofs.Form.Highlights
import FormEditor.Proofs.Form.Levels
import FormEditor.Proofs.Form.Lookup
import FormEditor.Proofs.Form.Mirrors
import FormEditor.Proofs.Form.Moves
import FormEditor.Proofs.Form.Outlines
import FormEditor.Proofs.Form.Plans
import FormEditor.Proofs.Form.Relinking
import FormEditor.Proofs.Form.Removals
import FormEditor.Proofs.Form.Reordering
import FormEditor.Proofs.Form.Resolving
import FormEditor.Proofs.Form.Stacks
import FormEditor.Proofs.Form.Transfers
import FormEditor.Proofs.Form.Validation
import FormEditor.Proofs.Form.Values
import FormEditor.Proofs.Form.Walking
import FormEditor.Proofs.Form.WellFormed
import FormEditor.Proofs.Histories
import FormEditor.Proofs.Hulls
import FormEditor.Proofs.Ids
import FormEditor.Proofs.InsertionOrder
import FormEditor.Proofs.Json.Documents
import FormEditor.Proofs.Json.Spelling
import FormEditor.Proofs.Json.Tokens
import FormEditor.Proofs.Locking
import FormEditor.Proofs.Logs
import FormEditor.Proofs.Passing
import FormEditor.Proofs.Refusals
import FormEditor.Proofs.Replays
import FormEditor.Proofs.Rows
import FormEditor.Proofs.Saving
import FormEditor.Proofs.Searching
import FormEditor.Proofs.Selections
import FormEditor.Proofs.Settings
import FormEditor.Proofs.Steps
import FormEditor.Proofs.Text.Sigmas
import FormEditor.Proofs.Turns
import FormEditor.Proofs.Undoing
import FormEditor.Selection
import FormEditor.Settings
import FormEditor.Text.Blank
import FormEditor.Text.CaseTable
import FormEditor.Text.Hex
import FormEditor.Text.HiddenTable
import FormEditor.Text.Lowercase
import FormEditor.Text.Quoted
import FormEditor.Vocabulary
