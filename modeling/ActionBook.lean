import ActionBook.Main
import ActionBook.Proofs.Binding.Pairs
import ActionBook.Proofs.Binding.Rendering
import ActionBook.Proofs.Text.Trimming
import ActionBook.Proofs.Text.Cutting
import ActionBook.Proofs.Binding.Layout
import ActionBook.Proofs.Binding.Scan
import ActionBook.Proofs.Binding.Locality
import ActionBook.Proofs.Binding.Rereading
import ActionBook.Proofs.Execution.Rendering
import ActionBook.Proofs.Service.Operation
import ActionBook.Proofs.Service.Persisting
import ActionBook.Proofs.Service.History
import ActionBook.Proofs.Service.Consistency
import ActionBook.Proofs.Service.Running
import ActionBook.Proofs.Service.Atomicity
import ActionBook.Proofs.Service.Journal
import ActionBook.Proofs.Service.Lookup
import ActionBook.Proofs.Service.Answering
import ActionBook.Proofs.Service.Dispatch
import ActionBook.Proofs.Service.Times
import ActionBook.Proofs.Service.Seeding
import ActionBook.Proofs.Pairing
import ActionBook.Proofs.Json.Quoting
import ActionBook.Proofs.Json.Printing
import ActionBook.Proofs.Json.Notation
import ActionBook.Proofs.Timestamp.Reading
import ActionBook.Proofs.Document.Codec
import ActionBook.Proofs.Action.Format
import ActionBook.Proofs.Execution.Format
import ActionBook.Proofs.Program.Formats
import ActionBook.Proofs.Program.Outcome
import ActionBook.Proofs.Program.Cataloguing
import ActionBook.Proofs.Program.Arguments
import ActionBook.Proofs.Url.Fragment
import ActionBook.Proofs.Http.Sending
import ActionBook.Proofs.Rest.Reporting
import ActionBook.Proofs.Service.Completeness
import ActionBook.Proofs.Service.Relevance
import ActionBook.Proofs.Service.Acceptance
import ActionBook.Proofs.Service.Resaving
import ActionBook.Proofs.Rest.Joining
import ActionBook.Proofs.Rest.Merging
import ActionBook.Proofs.Url.Escaping
import ActionBook.Proofs.Rest.Parameters
import ActionBook.Proofs.Rest.Extending
import ActionBook.Proofs.Rest.Outcome
import ActionBook.Proofs.Json.Reading
import ActionBook.Proofs.Document.Free
import ActionBook.Proofs.Text.Replacing
import ActionBook.Proofs.Rest.Bodies
import ActionBook.Proofs.Rest.Collecting
