import EvictionCache.Cache.Bounded
import EvictionCache.Plain.Cache
import EvictionCache.Recency.Lemmas
import EvictionCache.Shared.Schedule
import EvictionCache.Sketch.CountMin
import EvictionCache.Workload.Datum
import EvictionCache.Workload.Key
import EvictionCache.Proofs.Listing
import EvictionCache.Proofs.Order
import EvictionCache.Proofs.Store.Recency
import EvictionCache.Proofs.Frequency.Sorted
import EvictionCache.Proofs.Store.Ranked
import EvictionCache.Proofs.Frequency.Buckets
import EvictionCache.Proofs.Store.Bucketed
import EvictionCache.Proofs.Store.Basic
import EvictionCache.Proofs.Outcome
import EvictionCache.Proofs.Queue.Basic
import EvictionCache.Proofs.Cache.Index
import EvictionCache.Proofs.Cache.Lists
import EvictionCache.Proofs.Cache.Queue
import EvictionCache.Proofs.Cache.Refinement
import EvictionCache.Proofs.Plain.Choice
import EvictionCache.Proofs.Plain.History
import EvictionCache.Proofs.Plain.Links
import EvictionCache.Proofs.Plain.Refinement
import EvictionCache.Proofs.Plain.Runs
import EvictionCache.Proofs.Cache.Agreement
import EvictionCache.Proofs.Shared.Guards
import EvictionCache.Proofs.Shared.Replay
import EvictionCache.Proofs.Shared.Serial
import EvictionCache.Proofs.Recency.Links
import EvictionCache.Proofs.Cache.Change
import EvictionCache.Proofs.Cache.Coherence
import EvictionCache.Sketch.Call
import EvictionCache.Proofs.Sketch.Additions
import EvictionCache.Proofs.Sketch.Cells
import EvictionCache.Proofs.Sketch.Counters
import EvictionCache.Proofs.Cache.Turns
import EvictionCache.Proofs.Cache.Books
import EvictionCache.Proofs.Shared.Conservation
import EvictionCache.Proofs.Queue.Inclusion
import EvictionCache.Proofs.Cache.Inclusion
import EvictionCache.Proofs.Queue.Likeness
import EvictionCache.Proofs.Cache.Observation
import EvictionCache.Proofs.Checked.Chain
import EvictionCache.Proofs.Checked.Frequency
import EvictionCache.Proofs.Checked.Store
import EvictionCache.Proofs.Checked.Cache
import EvictionCache.Proofs.Checked.Run
import EvictionCache.Proofs.Recency.Walks
import EvictionCache.Proofs.Cache.Standing
import EvictionCache.Proofs.Cache.Iteration
import EvictionCache.Proofs.Queue.Contents
import EvictionCache.Proofs.Queue.Hot
import EvictionCache.Proofs.Cache.Scan
import EvictionCache.Proofs.Cache.Figures
import EvictionCache.Proofs.Queue.Ties
import EvictionCache.Proofs.Cache.Ties
import EvictionCache.Proofs.Queue.Names
import EvictionCache.Proofs.Shared.Separation
import EvictionCache.Proofs.Shared.Disjoint
import EvictionCache.Proofs.Cache.Accesses
import EvictionCache.Proofs.Queue.Spelling
import EvictionCache.Proofs.Cache.Spelling
import EvictionCache.Proofs.Queue.Departures
import EvictionCache.Proofs.Cache.Frequencies
import EvictionCache.Proofs.Store.Values
import EvictionCache.Proofs.Shared.Stepwise
import EvictionCache.Proofs.Shared.Endings
import EvictionCache.Proofs.Shared.Release
import EvictionCache.Proofs.Shared.Closures
import EvictionCache.Proofs.Sketch.Mixer
import EvictionCache.Proofs.Sketch.Rows
import EvictionCache.Proofs.Sketch.Table
import EvictionCache.Proofs.Store.Footprint
import EvictionCache.Proofs.Cache.HighWater
import EvictionCache.Proofs.Queue.Reached
import EvictionCache.Proofs.Cache.Highest
import EvictionCache.Slot.Call
import EvictionCache.Proofs.Slot.Handles
import EvictionCache.Proofs.Recency.Sharing
import EvictionCache.Proofs.Frequency.Sequences
import EvictionCache.Proofs.Queue.Ledger
import EvictionCache.Proofs.Acceptance
import EvictionCache.Proofs.Shared.Construction
