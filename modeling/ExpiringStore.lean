import ExpiringStore.Arena
import ExpiringStore.Bytes
import ExpiringStore.Clock
import ExpiringStore.Config
import ExpiringStore.Deadlines
import ExpiringStore.Position
import ExpiringStore.Proofs.Accounting
import ExpiringStore.Proofs.Agreement
import ExpiringStore.Proofs.Arena
import ExpiringStore.Proofs.Closing
import ExpiringStore.Proofs.Contents
import ExpiringStore.Proofs.Cursor
import ExpiringStore.Proofs.Deferred
import ExpiringStore.Proofs.Denotes
import ExpiringStore.Proofs.Descent
import ExpiringStore.Proofs.Draws
import ExpiringStore.Proofs.Effects
import ExpiringStore.Proofs.Entries
import ExpiringStore.Proofs.Events
import ExpiringStore.Proofs.Grammar
import ExpiringStore.Proofs.Hash
import ExpiringStore.Proofs.History
import ExpiringStore.Proofs.Insertion
import ExpiringStore.Proofs.KeyOrder
import ExpiringStore.Proofs.Layout
import ExpiringStore.Proofs.Levels
import ExpiringStore.Proofs.Lifetime
import ExpiringStore.Proofs.Listing
import ExpiringStore.Proofs.Numeral
import ExpiringStore.Proofs.Pacing
import ExpiringStore.Proofs.Partition
import ExpiringStore.Proofs.Purge
import ExpiringStore.Proofs.Range
import ExpiringStore.Proofs.Reference
import ExpiringStore.Proofs.Refinement
import ExpiringStore.Proofs.Relink
import ExpiringStore.Proofs.Removal
import ExpiringStore.Proofs.Route
import ExpiringStore.Proofs.Safety
import ExpiringStore.Proofs.Scan
import ExpiringStore.Proofs.Shedding
import ExpiringStore.Proofs.Shows
import ExpiringStore.Proofs.Slots
import ExpiringStore.Proofs.SortedMap
import ExpiringStore.Proofs.Standings
import ExpiringStore.Proofs.Structure
import ExpiringStore.Proofs.Sweep
import ExpiringStore.Proofs.Timer
import ExpiringStore.Proofs.Tower
import ExpiringStore.Proofs.Utf8
import ExpiringStore.Proofs.Visibility
import ExpiringStore.Random.Source
import ExpiringStore.Random.Xoshiro
import ExpiringStore.Ranking
import ExpiringStore.Record
import ExpiringStore.Release
import ExpiringStore.Score
import ExpiringStore.Series
import ExpiringStore.SkipList.Basic
import ExpiringStore.SkipList.Cursor
import ExpiringStore.SkipList.Descent
import ExpiringStore.SkipList.Text
import ExpiringStore.SkipList.Update
import ExpiringStore.Store.Access
import ExpiringStore.Store.Basic
import ExpiringStore.Store.Command
import ExpiringStore.Store.Expiry
import ExpiringStore.Store.Text
