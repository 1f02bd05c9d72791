import Leveling.Network.Query
import Leveling.Proofs.Accepted
import Leveling.Proofs.Answers
import Leveling.Proofs.Bounds.Admission
import Leveling.Proofs.Bounds.Base
import Leveling.Proofs.Bounds.Changes
import Leveling.Proofs.Bounds.Deletions
import Leveling.Proofs.Bounds.Drafts
import Leveling.Proofs.Bounds.Eager
import Leveling.Proofs.Bounds.Exact
import Leveling.Proofs.Bounds.Heights
import Leveling.Proofs.Bounds.Lazy
import Leveling.Proofs.Bounds.Offers
import Leveling.Proofs.Bounds.Passes
import Leveling.Proofs.Bounds.Queries
import Leveling.Proofs.Bounds.Relaxing
import Leveling.Proofs.Bounds.Tightening
import Leveling.Proofs.Evaluation
import Leveling.Proofs.Exact
import Leveling.Proofs.Feasibility
import Leveling.Proofs.Network.Arcs
import Leveling.Proofs.Network.Decisions
import Leveling.Proofs.Network.Delete
import Leveling.Proofs.Network.Edits
import Leveling.Proofs.Network.Flags
import Leveling.Proofs.Network.Links
import Leveling.Proofs.Network.Lists
import Leveling.Proofs.Network.Pairing
import Leveling.Proofs.Network.Queries
import Leveling.Proofs.Order
import Leveling.Proofs.Overflows
import Leveling.Proofs.Precedences
import Leveling.Proofs.Profile.Agreement
import Leveling.Proofs.Profile.Arenas
import Leveling.Proofs.Profile.Costs
import Leveling.Proofs.Profile.EventTree
import Leveling.Proofs.Profile.Levels
import Leveling.Proofs.Profile.Loads
import Leveling.Proofs.Profile.Lookups
import Leveling.Proofs.Profile.Moves
import Leveling.Proofs.Profile.Paths
import Leveling.Proofs.Profile.Placements
import Leveling.Proofs.Profile.Queries
import Leveling.Proofs.Profile.Reductions
import Leveling.Proofs.Profile.Replays
import Leveling.Proofs.Profile.Shapes
import Leveling.Proofs.Profile.Stretches
import Leveling.Proofs.Profile.Supplies
import Leveling.Proofs.Profile.Times
import Leveling.Proofs.Profile.Tracked
import Leveling.Proofs.Runs
import Leveling.Proofs.Schedules
import Leveling.Proofs.Search.Batches
import Leveling.Proofs.Search.Best
import Leveling.Proofs.Search.Bookkeeping
import Leveling.Proofs.Search.Books
import Leveling.Proofs.Search.Cadence
import Leveling.Proofs.Search.Calls
import Leveling.Proofs.Search.Candidates
import Leveling.Proofs.Search.Draws
import Leveling.Proofs.Search.Elites
import Leveling.Proofs.Search.Endings
import Leveling.Proofs.Search.Exhaustion
import Leveling.Proofs.Search.Growth
import Leveling.Proofs.Search.Intact
import Leveling.Proofs.Search.Journals
import Leveling.Proofs.Search.Marking
import Leveling.Proofs.Search.Operations
import Leveling.Proofs.Search.Ordering
import Leveling.Proofs.Search.Quiescence
import Leveling.Proofs.Search.Refills
import Leveling.Proofs.Search.Restarts
import Leveling.Proofs.Search.Reuse
import Leveling.Proofs.Search.Rewards
import Leveling.Proofs.Search.Safety
import Leveling.Proofs.Search.Scorers
import Leveling.Proofs.Search.Searches
import Leveling.Proofs.Search.Settling
import Leveling.Proofs.Search.Shares
import Leveling.Proofs.Search.Starts
import Leveling.Proofs.Search.States
import Leveling.Proofs.Search.Steps
import Leveling.Proofs.Search.Stocking
import Leveling.Proofs.Search.Sweeping
import Leveling.Proofs.Search.Tidying
import Leveling.Proofs.Search.Unsticking
import Leveling.Proofs.Search.Worklists
import Leveling.Proofs.Verdicts
import Leveling.Proofs.Walks
import Leveling.Random.ChaCha
import Leveling.Search.Run
