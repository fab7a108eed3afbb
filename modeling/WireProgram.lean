import WireProgram.Program.Present
import WireProgram.Main
import WireProgram.Proofs.Chunking
import WireProgram.Proofs.Discipline.Visit
import WireProgram.Proofs.Kind.Decode
import WireProgram.Proofs.Stream.Ledger
import WireProgram.Proofs.Codec.Denotation
import WireProgram.Proofs.Codec.Division
import WireProgram.Proofs.Stream.Decoded
import WireProgram.Proofs.Codec.Groups
import WireProgram.Proofs.Codec.Pace
import WireProgram.Proofs.Run.PartRead
import WireProgram.Proofs.Mode.Decode
import WireProgram.Proofs.Delimited.Run
import WireProgram.Proofs.Frugal.Run
import WireProgram.Proofs.Ending.Decode
import WireProgram.Proofs.Document.Sorted
import WireProgram.Proofs.Address
import WireProgram.Proofs.History.Decode
import WireProgram.Proofs.InPlace.Decode
import WireProgram.Proofs.Settings
import WireProgram.Proofs.Registered
import WireProgram.Proofs.Discipline.Finding
import WireProgram.Proofs.Document.Shadowing
import WireProgram.Proofs.Moment.Record
import WireProgram.Proofs.Moment.Scope
import WireProgram.Proofs.Terminated
import WireProgram.Proofs.Varint
import WireProgram.Proofs.Elementwise
import WireProgram.Proofs.Codec.Encoded
import WireProgram.Proofs.Codec.Stored
import WireProgram.Proofs.Codec.Member
import WireProgram.Proofs.Text.Decoded
import WireProgram.Proofs.Truncated
import WireProgram.Proofs.Partition
import WireProgram.Proofs.Import
import WireProgram.Proofs.Stream.Shortage
import WireProgram.Proofs.Moment.Rescue
import WireProgram.Proofs.Integer
import WireProgram.Proofs.Guards
