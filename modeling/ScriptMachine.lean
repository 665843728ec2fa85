import ScriptMachine.Compile
import ScriptMachine.Interchange.Tagged
import ScriptMachine.Machine
import ScriptMachine.Program.Listing
import ScriptMachine.Proofs.Lowering.Rules
import ScriptMachine.Proofs.Lowering.Compiled
import ScriptMachine.Proofs.Lowering.Tables
import ScriptMachine.Proofs.Shape
import ScriptMachine.Proofs.Shape.Lowered
import ScriptMachine.Proofs.Shape.Sections
import ScriptMachine.Proofs.Lowering.Unpaused
import ScriptMachine.Proofs.Verified
import ScriptMachine.Proofs.Checked
import ScriptMachine.Proofs.Acceptance
import ScriptMachine.Proofs.Machine.Frames
import ScriptMachine.Proofs.Machine.Safe
import ScriptMachine.Proofs.Machine.Sessions
import ScriptMachine.Proofs.Machine.Statements
import ScriptMachine.Proofs.Machine.Locality
import ScriptMachine.Proofs.Machine.HostCalls
import ScriptMachine.Proofs.Machine.Moves
import ScriptMachine.Proofs.Machine.Slots
import ScriptMachine.Proofs.Machine.Lasting
import ScriptMachine.Proofs.Machine.OpenCalls
import ScriptMachine.Proofs.Machine.Activations
import ScriptMachine.Proofs.Machine.Stepping
import ScriptMachine.Proofs.Meaning.Evaluator
import ScriptMachine.Proofs.Meaning.Language
import ScriptMachine.Proofs.Meaning.Agreement
import ScriptMachine.Proofs.Meaning.Literals
import ScriptMachine.Proofs.Meaning.Trace
import ScriptMachine.Proofs.Meaning.Expressions
import ScriptMachine.Proofs.Meaning.Exits
import ScriptMachine.Proofs.Meaning.Scopes
import ScriptMachine.Proofs.Meaning.Loops
import ScriptMachine.Proofs.Meaning.Regions
import ScriptMachine.Proofs.Meaning.Statements
import ScriptMachine.Proofs.Meaning.Calls
import ScriptMachine.Proofs.Meaning.Layout
import ScriptMachine.Proofs.Meaning.Runs
import ScriptMachine.Proofs.Meaning.Preservation
import ScriptMachine.Proofs.Machine.Rails
import ScriptMachine.Proofs.Machine.CallStack
import ScriptMachine.Proofs.Lowering.Paired
import ScriptMachine.Proofs.Machine.Heights
import ScriptMachine.Proofs.Machine.Piles
import ScriptMachine.Proofs.Machine.Tallies
import ScriptMachine.Proofs.Machine.AtRest
import ScriptMachine.Proofs.Grammar
import ScriptMachine.Proofs.Grammar.Reads
import ScriptMachine.Proofs.Grammar.Phrases
import ScriptMachine.Proofs.Grammar.Sound
import ScriptMachine.Proofs.Grammar.Productions
import ScriptMachine.Proofs.Grammar.Complete
import ScriptMachine.Proofs.Lowering.FromRules
import ScriptMachine.Proofs.Spacing.Words
import ScriptMachine.Proofs.Spacing.Tokens
import ScriptMachine.Proofs.Spacing.Programs
import ScriptMachine.Proofs.Machine.Bindings
import ScriptMachine.Proofs.Meaning.Names
import ScriptMachine.Proofs.Meaning.Constructors
import ScriptMachine.Proofs.Machine.Limited
import ScriptMachine.Proofs.Machine.NativeCalls
import ScriptMachine.Proofs.Grammar.Ranges
import ScriptMachine.Proofs.Spacing.Places
import ScriptMachine.Proofs.Spacing.Slices
import ScriptMachine.Proofs.Lowering.Points
import ScriptMachine.Proofs.SteppingPoints
import ScriptMachine.Proofs.Machine.Histories
import ScriptMachine.Proofs.Grammar.Nodes
import ScriptMachine.Proofs.Grammar.Tiling
import ScriptMachine.Proofs.WellFormed
import ScriptMachine.Proofs.Lowering.Outcomes
import ScriptMachine.Proofs.RoundTrip
import ScriptMachine.Proofs.Rendering
import ScriptMachine.Proofs.Meaning.Indexing
import ScriptMachine.Proofs.Lowering.Reentry
import ScriptMachine.Proofs.Lowering.Restored
import ScriptMachine.Proofs.Machine.Assignment
import ScriptMachine.Proofs.Machine.Finalizers
