import Parley.CommandLine.Response
import Parley.Compilation
import Parley.Json.Graph
import Parley.Main
import Parley.Session
import Parley.Proofs.Graph.Change
import Parley.Proofs.Script.Accepted
import Parley.Proofs.Draft.Closing
import Parley.Proofs.Graph.Sound
import Parley.Proofs.Draft.Sound
import Parley.Proofs.Graph.Safe
import Parley.Proofs.Placeholder
import Parley.Proofs.Session.Operation
import Parley.Proofs.Compilation.Sound
import Parley.Proofs.Registry.Fault
import Parley.Proofs.Session.Safe
import Parley.Proofs.Compilation.Branches
import Parley.Proofs.Compilation.Typed
import Parley.Proofs.Draft.Waiting
import Parley.Proofs.Draft.Succession
import Parley.Proofs.Draft.Reading
import Parley.Proofs.Compilation.Successors
import Parley.Proofs.Compilation.Rejoining
import Parley.Proofs.Draft.Stacks
import Parley.Proofs.Draft.Choices
import Parley.Proofs.Draft.Nested
import Parley.Proofs.Draft.Bodies
import Parley.Proofs.Compilation.Bodies
import Parley.Proofs.Draft.Bodiless
import Parley.Proofs.Compilation.Bodiless
import Parley.Proofs.Draft.Branches
import Parley.Proofs.Compilation.DefaultArms
import Parley.Proofs.Draft.Blocks
import Parley.Proofs.Draft.Nesting
import Parley.Proofs.Compilation.Nesting
import Parley.Proofs.Draft.Owners
import Parley.Proofs.Compilation.Owners
import Parley.Proofs.Graph.Links
import Parley.Proofs.Draft.Forward
import Parley.Proofs.Session.Forward
import Parley.Proofs.Compilation.Forward
import Parley.Proofs.Draft.Attached
import Parley.Proofs.Draft.Roots
import Parley.Proofs.Draft.Enclosing
import Parley.Proofs.Draft.Returns
import Parley.Proofs.Compilation.Returns
import Parley.Proofs.Graph.Append
import Parley.Proofs.Draft.Append
import Parley.Proofs.Draft.Titles
import Parley.Proofs.Draft.Borders
import Parley.Proofs.Compilation.Append
import Parley.Proofs.Registry.Effects
import Parley.Proofs.Session.Effects
import Parley.Proofs.Compilation.Assignments
import Parley.Proofs.Session.Attempts
import Parley.Proofs.Graph.Relays
import Parley.Proofs.Graph.Walks
import Parley.Proofs.Draft.Relays
import Parley.Proofs.Compilation.Relays
import Parley.Proofs.Graph.Integrity
import Parley.Proofs.Session.Integrity
import Parley.Proofs.Compilation.Integrity
import Parley.Proofs.Registry.Agreement
import Parley.Proofs.Compilation.LateBinding
import Parley.Proofs.Session.Placement
import Parley.Proofs.Session.Selections
import Parley.Proofs.Compilation.Offers
import Parley.Proofs.Text.Groups
import Parley.Proofs.Text.Splitting
import Parley.Proofs.Text.Words
import Parley.Proofs.Script.OwnParentheses
import Parley.Proofs.Number.Integer
import Parley.Proofs.Compilation.Contents
import Parley.Proofs.Compilation.Edits
import Parley.Proofs.Script.ReadBack
import Parley.Proofs.Graph.Chains
import Parley.Proofs.Compilation.Terminals
import Parley.Proofs.Compilation.ArmBodies
import Parley.Proofs.Draft.Reached
import Parley.Proofs.Compilation.MarkedFlow
import Parley.Proofs.Graph.FirstMatch
import Parley.Proofs.Registry.Atomic
import Parley.Proofs.Session.Failures
import Parley.Proofs.Placeholder.Filling
import Parley.Proofs.Text.Endings
import Parley.Proofs.Script.SpeechLayout
import Parley.Proofs.Script.OptionLayout
import Parley.Proofs.Compilation.Blame
import Parley.Proofs.Session.Started
import Parley.Proofs.Player.Loops
import Parley.Proofs.Player.Halting
import Parley.Proofs.CommandLine.WrittenValues
import Parley.Proofs.CommandLine.Overrides
import Parley.Proofs.Script.Guards
import Parley.Proofs.Number.Rounding
import Parley.Proofs.Number.Shortest
import Parley.Proofs.Number.Layout
import Parley.Proofs.Json.Atoms
import Parley.Proofs.Json.Compact
import Parley.Proofs.Json.Graph
import Parley.Proofs.Text.FinalGroup
import Parley.Proofs.Text.Cuts
import Parley.Proofs.Draft.Sorted
import Parley.Proofs.Draft.Watch
import Parley.Proofs.Compilation.Watch
