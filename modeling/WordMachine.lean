import WordMachine.Main
import WordMachine.Assembly.Journal
import WordMachine.Listing.Journal
import WordMachine.Session.Journal
import WordMachine.Proofs.Assembly.Labelling
import WordMachine.Proofs.Assembly.Resolution
import WordMachine.Proofs.Assembly.Scanning
import WordMachine.Proofs.Instruction.Fetching
import WordMachine.Proofs.Listing.Tiling
import WordMachine.Proofs.Listing.Naming
import WordMachine.Proofs.Listing.Tokens
import WordMachine.Proofs.Listing.Reassembly
import WordMachine.Proofs.Computer.Faulting
import WordMachine.Proofs.Computer.Invariant
import WordMachine.Proofs.Debugger.Invariant
import WordMachine.Proofs.Session.Executing
import WordMachine.Proofs.Computer.Checked
import WordMachine.Proofs.Session.Checked
import WordMachine.Proofs.Session.Reachable
import WordMachine.Proofs.Session.Transparency
import WordMachine.Proofs.Assembly.Addressing
import WordMachine.Proofs.Computer.Peeking
import WordMachine.Proofs.Debugger.Reasons
import WordMachine.Proofs.Debugger.Ordering
import WordMachine.Proofs.Session.Stopping
import WordMachine.Proofs.Text.Encoding
import WordMachine.Proofs.Json.Reading
import WordMachine.Proofs.Snapshot.Applying
import WordMachine.Proofs.Snapshot.RoundTrip
import WordMachine.Proofs.Session.Restoring
import WordMachine.Proofs.Session.Replies
import WordMachine.Proofs.Session.Changes
import WordMachine.Proofs.Instruction.Reading
import WordMachine.Proofs.Computer.Table
import WordMachine.Proofs.Computer.Executing
import WordMachine.Proofs.Computer.Resuming
import WordMachine.Proofs.Computer.Calling
import WordMachine.Proofs.Computer.Refusing
import WordMachine.Proofs.Listing.Agreement
import WordMachine.Proofs.Instruction.Breaking
import WordMachine.Proofs.Computer.Failing
import WordMachine.Proofs.Session.Series
import WordMachine.Proofs.Text.Cutting
import WordMachine.Proofs.Session.Playing
import WordMachine.Proofs.Debugger.Counting
import WordMachine.Proofs.Session.Renewing
import WordMachine.Proofs.Assembly.Loading
import WordMachine.Proofs.Assembly.Layout
import WordMachine.Proofs.Assembly.Recovery
import WordMachine.Proofs.Assembly.Meaning
import WordMachine.Proofs.Assembly.Passes
import WordMachine.Proofs.Assembly.Reporting
import WordMachine.Proofs.Listing.Printing
import WordMachine.Proofs.Memory.Checked
import WordMachine.Proofs.PrintedText.Runs
import WordMachine.Proofs.Memory.Blocks
import WordMachine.Proofs.Image.Codec
import WordMachine.Proofs.Memory.History
import WordMachine.Proofs.Memory.Reloading
import WordMachine.Proofs.Session.Cores
import WordMachine.Proofs.Command.Lines
import WordMachine.Proofs.Instruction.Printing
import WordMachine.Proofs.Snapshot.Validation
import WordMachine.Proofs.Instruction.Advancing
