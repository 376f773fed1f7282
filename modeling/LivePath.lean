import LivePath.Graph.Cycle
import LivePath.Path.Document
import LivePath.Session.Run
import LivePath.Proofs.FreshKeys
import LivePath.Proofs.Hooks
import LivePath.Proofs.Reading
import LivePath.Proofs.Announcements
import LivePath.Proofs.Moves
import LivePath.Proofs.Commands
import LivePath.Proofs.Turns
import LivePath.Proofs.Lifetimes
import LivePath.Proofs.HookExactness
import LivePath.Proofs.Trails
import LivePath.Proofs.Closure
import LivePath.Proofs.Passes
import LivePath.Proofs.Currency
import LivePath.Proofs.ErrorLog
import LivePath.Proofs.Polling
import LivePath.Proofs.Tokens
import LivePath.Proofs.Grammar
import LivePath.Proofs.Stacks
import LivePath.Proofs.Dependencies
import LivePath.Proofs.Emissions
import LivePath.Proofs.Registries
import LivePath.Proofs.Dispatch
import LivePath.Proofs.Rendering
import LivePath.Proofs.Faults
import LivePath.Proofs.Contents
import LivePath.Proofs.Agreement
import LivePath.Proofs.Sights
import LivePath.Proofs.Atomicity
import LivePath.Proofs.Twins
import LivePath.Proofs.TwinTrackers
import LivePath.Proofs.TwinWorlds
import LivePath.Proofs.TwinMachines
import LivePath.Proofs.Visits
import LivePath.Proofs.Passivity
import LivePath.Proofs.Handlings
import LivePath.Proofs.Termination
import LivePath.Proofs.Subscriptions
import LivePath.Proofs.StableOrder
import LivePath.Proofs.StableMerging
import LivePath.Proofs.StableSorting
import LivePath.Proofs.SortedCollections
import LivePath.Proofs.Assignments
import LivePath.Proofs.Composition
import LivePath.Proofs.Streaming
import LivePath.Proofs.Comparisons
import LivePath.Proofs.Chains
import LivePath.Proofs.FieldChanges
import LivePath.Proofs.FieldOrder
