import FeatureGates.Evaluator
import FeatureGates.Network.TableReader
import FeatureGates.Settings.Json
import FeatureGates.Proofs.Activity
import FeatureGates.Proofs.Numbering
import FeatureGates.Proofs.Resolution
import FeatureGates.Proofs.Flattening
import FeatureGates.Proofs.Arena
import FeatureGates.Proofs.Folding
import FeatureGates.Proofs.Reports
import FeatureGates.Proofs.Validation
import FeatureGates.Proofs.Agreement
import FeatureGates.Proofs.Cycles
import FeatureGates.Proofs.Exploration
import FeatureGates.Proofs.CycleEvents
import FeatureGates.Proofs.Counterparts
import FeatureGates.Proofs.Directories
import FeatureGates.Proofs.NameIndex
import FeatureGates.Proofs.ByteOrder
import FeatureGates.Proofs.Merging
import FeatureGates.Proofs.IndexedRuns
import FeatureGates.Proofs.Flights
import FeatureGates.Proofs.Waiting
import FeatureGates.Proofs.Insertion
import FeatureGates.Proofs.Widening
import FeatureGates.Proofs.Overlay
import FeatureGates.Proofs.Consistency
import FeatureGates.Proofs.Requested
import FeatureGates.Proofs.FlightLookup
import FeatureGates.Proofs.Publication
import FeatureGates.Proofs.Writings
import FeatureGates.Proofs.Prefixes
import FeatureGates.Proofs.Digits
import FeatureGates.Proofs.Exposure
import FeatureGates.Proofs.Lookup
import FeatureGates.Proofs.AddressText
import FeatureGates.Proofs.NetworkText
import FeatureGates.Proofs.Entries
import FeatureGates.Proofs.FirstSpellings
import FeatureGates.Proofs.Queries
import FeatureGates.Proofs.ForwardedEntries
import FeatureGates.Proofs.Requests
import FeatureGates.Proofs.Campaigns
import FeatureGates.Proofs.NetworkTables
import FeatureGates.Proofs.NetworkForms
import FeatureGates.Proofs.Parsing
import FeatureGates.Proofs.TableText
import FeatureGates.Proofs.SettingsText
import FeatureGates.Proofs.Identities
import FeatureGates.Proofs.Coincidences
import FeatureGates.Proofs.Ancestry
import FeatureGates.Proofs.Endings
import FeatureGates.Proofs.Sessions
import FeatureGates.Proofs.AsciiNames
import FeatureGates.Proofs.Sameness
