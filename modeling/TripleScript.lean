import TripleScript.Text.Blank
import TripleScript.Text.Lines
import TripleScript.Text.Numeral
import TripleScript.Triple
import TripleScript.Store.Index
import TripleScript.Statement.Scan
import TripleScript.Statement.Ground
import TripleScript.Query.Compile
import TripleScript.Store.Seed
import TripleScript.Plan.Make
import TripleScript.Plan.Explain
import TripleScript.Text.Json
import TripleScript.Table
import TripleScript.Select.Answer
import TripleScript.Run.Rehearsal
import TripleScript.Main
import TripleScript.Cli.Files
import TripleScript.Proofs.Run.Honesty
import TripleScript.Proofs.Query.Answer
import TripleScript.Proofs.Select.Shaping
import TripleScript.Proofs.Run.Safety
import TripleScript.Proofs.Statement.Grammar
import TripleScript.Proofs.Statement.Printing
import TripleScript.Proofs.Run.Trace
import TripleScript.Proofs.Store.Paging
import TripleScript.Proofs.Plan.Connected
import TripleScript.Proofs.Run.ReadOnly
import TripleScript.Proofs.Run.Composition
import TripleScript.Proofs.Plan.Explain
import TripleScript.Proofs.Plan.Candidates
import TripleScript.Proofs.Plan.Components
import TripleScript.Proofs.Query.Resolution
import TripleScript.Proofs.Store.Access
import TripleScript.Proofs.Store.Seeding
import TripleScript.Proofs.Store.Dump
import TripleScript.Proofs.Statement.Places
import TripleScript.Proofs.Statement.Readers
import TripleScript.Proofs.Statement.Refusal
import TripleScript.Proofs.Statement.Layout
import TripleScript.Proofs.Run.Splitting
import TripleScript.Proofs.Run.SeedScript
import TripleScript.Proofs.Query.Grid
import TripleScript.Proofs.Run.Schedule
import TripleScript.Proofs.Run.ChannelSize
import TripleScript.Proofs.Run.Writing
import TripleScript.Proofs.Run.Decoding
import TripleScript.Proofs.Select.Pages
import TripleScript.Proofs.Select.Requests
import TripleScript.Proofs.Select.Exposure
import TripleScript.Proofs.Select.TakingTurns
