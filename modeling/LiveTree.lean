import LiveTree.Json.Codec
import LiveTree.Main
import LiveTree.Summary
import LiveTree.Proofs.Books
import LiveTree.Proofs.Runs
import LiveTree.Proofs.Sessions
import LiveTree.Proofs.Nodes
import LiveTree.Proofs.Occupancy
import LiveTree.Proofs.Interleaving
import LiveTree.Proofs.Race
import LiveTree.Proofs.Changes
import LiveTree.Proofs.Strokes
import LiveTree.Proofs.Courses
import LiveTree.Proofs.Moves
import LiveTree.Proofs.Octets
import LiveTree.Proofs.Names
import LiveTree.Proofs.Paths
import LiveTree.Proofs.Cuts
import LiveTree.Proofs.Keys
import LiveTree.Proofs.Places
import LiveTree.Proofs.Listing
import LiveTree.Proofs.Namespace
import LiveTree.Proofs.Reading
import LiveTree.Proofs.Transfers
import LiveTree.Proofs.Refusals
import LiveTree.Proofs.Balance
import LiveTree.Proofs.Traffic
import LiveTree.Proofs.Serving
import LiveTree.Proofs.News
import LiveTree.Proofs.KeyLedger
import LiveTree.Proofs.Failures
import LiveTree.Proofs.Ticks
import LiveTree.Proofs.Errands
import LiveTree.Proofs.Deliveries
import LiveTree.Proofs.Framing
import LiveTree.Proofs.Dialogue
import LiveTree.Proofs.Sinks
import LiveTree.Proofs.Sight
import LiveTree.Proofs.Lines
import LiveTree.Proofs.Outcomes
import LiveTree.Proofs.Retelling
import LiveTree.Proofs.Numbering
import LiveTree.Proofs.Overlaps
import LiveTree.Proofs.Expiry
import LiveTree.Proofs.Ranges
import LiveTree.Proofs.Harvests
import LiveTree.Proofs.Buffers
import LiveTree.Proofs.Agreement
import LiveTree.Proofs.Brackets
import LiveTree.Proofs.Merging
import LiveTree.Proofs.Departures
import LiveTree.Proofs.Numerals
import LiveTree.Proofs.Grammar
import LiveTree.Proofs.Counting
import LiveTree.Proofs.Heartbeats
import LiveTree.Proofs.Spellings
import LiveTree.Proofs.Ancestry
import LiveTree.Proofs.Contract
import LiveTree.Proofs.Residence
import LiveTree.Proofs.Layout
import LiveTree.Proofs.Installation
import LiveTree.Proofs.Shares
import LiveTree.Proofs.Independence
