import Mailroom.Filter.Reading
import Mailroom.Main
import Mailroom.Remote.Script
import Mailroom.Session.Writing
import Mailroom.Proofs.Data.Table
import Mailroom.Proofs.Label.Pairing
import Mailroom.Proofs.Label.Roster
import Mailroom.Proofs.Label.Path
import Mailroom.Proofs.Label.Walk
import Mailroom.Proofs.Label.Level
import Mailroom.Proofs.Label.Layout
import Mailroom.Proofs.Label.Registration
import Mailroom.Proofs.Label.Reveal
import Mailroom.Proofs.Label.Tree
import Mailroom.Proofs.Label.Lookup
import Mailroom.Proofs.Label.Identity
import Mailroom.Proofs.Label.Fixed
import Mailroom.Proofs.Label.Takeover
import Mailroom.Proofs.Label.Nodes
import Mailroom.Proofs.Remote.Call
import Mailroom.Proofs.Remote.Store
import Mailroom.Proofs.Remote.Answers
import Mailroom.Proofs.Session.Basic
import Mailroom.Proofs.Filter.Form
import Mailroom.Proofs.Filter.Rendering
import Mailroom.Proofs.Session.Coherence
import Mailroom.Proofs.Session.Snapshot
import Mailroom.Proofs.Session.Mutation
import Mailroom.Proofs.Session.Scope
import Mailroom.Proofs.Session.Categories
import Mailroom.Proofs.Session.Refresh
import Mailroom.Proofs.Session.Batches
import Mailroom.Proofs.Session.Bulk
import Mailroom.Proofs.Number.Whole
import Mailroom.Proofs.Data.Runs
import Mailroom.Proofs.Remote.Listing
import Mailroom.Proofs.Session.Paging
import Mailroom.Proofs.Label.Listed
import Mailroom.Proofs.Remote.Labels
import Mailroom.Proofs.Session.Handles
import Mailroom.Proofs.Label.Bare
import Mailroom.Proofs.Session.Operation
import Mailroom.Proofs.Session.Hierarchy
import Mailroom.Proofs.Remote.Indexed
import Mailroom.Proofs.Session.Order
import Mailroom.Proofs.Session.Reading
import Mailroom.Proofs.Session.Readable
import Mailroom.Proofs.Remote.Taped
import Mailroom.Proofs.Program.Quiet
import Mailroom.Proofs.Program.Bulk
import Mailroom.Proofs.Session.Ranking
import Mailroom.Proofs.Session.Relabelling
import Mailroom.Proofs.Label.Relisting
import Mailroom.Proofs.Remote.Unsteady
import Mailroom.Proofs.Session.Deletion
import Mailroom.Proofs.Label.Moving
import Mailroom.Proofs.Session.Renaming
import Mailroom.Proofs.Label.Containment
import Mailroom.Proofs.Session.Containment
import Mailroom.Proofs.Session.Traffic
import Mailroom.Proofs.Session.Freshness
import Mailroom.Proofs.Session.Requests
import Mailroom.Proofs.Session.Addressing
import Mailroom.Proofs.Program.Addressing
import Mailroom.Proofs.Text.Letters
import Mailroom.Proofs.Message.Fixture
import Mailroom.Proofs.Filter.Flags
import Mailroom.Proofs.Filter.Separation
import Mailroom.Proofs.Text.Words
import Mailroom.Proofs.Filter.Truncation
import Mailroom.Proofs.Text.Pieces
import Mailroom.Proofs.Filter.Ordering
import Mailroom.Proofs.Remote.Reports
import Mailroom.Proofs.Calendar.Gregorian
import Mailroom.Proofs.Number.Numeral
import Mailroom.Proofs.Calendar.Written
import Mailroom.Proofs.Filter.Days
import Mailroom.Proofs.Filter.Building
import Mailroom.Proofs.Remote.Backoff
import Mailroom.Proofs.Remote.Pieces
import Mailroom.Proofs.Session.Spacing
import Mailroom.Proofs.Filter.Substitution
import Mailroom.Proofs.Label.Popping
import Mailroom.Proofs.Message.Walk
import Mailroom.Proofs.Remote.Shortage
