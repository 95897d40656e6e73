import WeakIntern.Main
import WeakIntern.Proofs.Ownership
import WeakIntern.Proofs.Progress
import WeakIntern.Proofs.Pauses
import WeakIntern.Proofs.Redirects
import WeakIntern.Proofs.Settling
import WeakIntern.Proofs.Workshop
import WeakIntern.Text.Hex
import WeakIntern.Text.JsonFields
import WeakIntern.Text.JsonReader
import WeakIntern.Text.Utf8
import WeakIntern.Proofs.RoundTrip
import WeakIntern.Proofs.Acceptance
import WeakIntern.Proofs.Canonical
import WeakIntern.Proofs.Commands
import WeakIntern.Proofs.Inspection
import WeakIntern.Proofs.OnePass
import WeakIntern.Proofs.Addresses
import WeakIntern.Proofs.Handover
import WeakIntern.Proofs.Commits
import WeakIntern.Proofs.Course
import WeakIntern.Proofs.Dumps
import WeakIntern.Proofs.Seeds
import WeakIntern.Proofs.StressRuns
import WeakIntern.Proofs.Alarms
import WeakIntern.Proofs.Lookups
import WeakIntern.Proofs.Addressings
import WeakIntern.Proofs.Draining
import WeakIntern.Proofs.Handles
import WeakIntern.Proofs.Shape
import WeakIntern.Proofs.Walks
import WeakIntern.Proofs.Chains
import WeakIntern.Proofs.Floods
import WeakIntern.Proofs.PendingWork
import WeakIntern.Proofs.Collisions
import WeakIntern.Proofs.Doubles
import WeakIntern.Proofs.Capacity
import WeakIntern.Proofs.Rounding
import WeakIntern.Proofs.Numerals
import WeakIntern.Proofs.ShortTexts
import WeakIntern.Proofs.JsonTexts
import WeakIntern.Proofs.Journal
