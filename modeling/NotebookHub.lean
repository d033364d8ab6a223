import NotebookHub.Main
import NotebookHub.Session.State
import NotebookHub.Lock.Room
import NotebookHub.Proofs.Tables
import NotebookHub.Proofs.Edits
import NotebookHub.Proofs.Coding
import NotebookHub.Proofs.Addresses
import NotebookHub.Proofs.Actions
import NotebookHub.Proofs.Lookups
import NotebookHub.Proofs.Scopes
import NotebookHub.Proofs.Posts
import NotebookHub.Proofs.Delivering
import NotebookHub.Proofs.OwedContents
import NotebookHub.Proofs.Mirror
import NotebookHub.Proofs.Turns
import NotebookHub.Proofs.Staging
import NotebookHub.Proofs.Publishing
import NotebookHub.Proofs.Passes
import NotebookHub.Proofs.Shutdown
import NotebookHub.Proofs.Sights
import NotebookHub.Proofs.Agreement
import NotebookHub.Proofs.Alterations
import NotebookHub.Proofs.Matching
import NotebookHub.Proofs.Replays
import NotebookHub.Proofs.Schedules
import NotebookHub.Proofs.Chaining
import NotebookHub.Proofs.Programs
import NotebookHub.Proofs.Positions
import NotebookHub.Proofs.DueLinks
import NotebookHub.Proofs.Holdings
import NotebookHub.Proofs.Rechaining
import NotebookHub.Proofs.Splices
import NotebookHub.Proofs.Openings
import NotebookHub.Proofs.LockChoice
import NotebookHub.Proofs.Faults
import NotebookHub.Proofs.Outcomes
import NotebookHub.Proofs.FailureEffects
import NotebookHub.Proofs.Rooms
import NotebookHub.Proofs.Indexing
import NotebookHub.Proofs.Aloofness
import NotebookHub.Proofs.Parts
import NotebookHub.Proofs.LinkOrder
import NotebookHub.Proofs.Locks
import NotebookHub.Proofs.Quiescence
import NotebookHub.Proofs.ClosedNotebooks
import NotebookHub.Proofs.RunInvariants
import NotebookHub.Proofs.Notices
import NotebookHub.Proofs.Isolation
import NotebookHub.Proofs.Folders
import NotebookHub.Proofs.Overwrites
import NotebookHub.Proofs.Readings
import NotebookHub.Proofs.Recordings
import NotebookHub.Proofs.Hearing
import NotebookHub.Proofs.Moves
import NotebookHub.Proofs.OpeningChains
import NotebookHub.Proofs.Strays
import NotebookHub.Proofs.Splitting
import NotebookHub.Proofs.Ownership
import NotebookHub.Proofs.Joining
import NotebookHub.Proofs.Walks
import NotebookHub.Proofs.Exchanges
import NotebookHub.Proofs.Rounds
import NotebookHub.Proofs.ToldPredecessors
import NotebookHub.Proofs.Shortest
