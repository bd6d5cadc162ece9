import ArrayBridge.Binary.Decimal
import ArrayBridge.Binary.Layout
import ArrayBridge.Bridge.Program
import ArrayBridge.CommandLine.Config
import ArrayBridge.CommandLine.Job
import ArrayBridge.CommandLine.Options
import ArrayBridge.Descriptor
import ArrayBridge.Element
import ArrayBridge.Erased.Program
import ArrayBridge.Erased.Run
import ArrayBridge.Erased.Value
import ArrayBridge.Erasure.Placement
import ArrayBridge.Erasure.Plan
import ArrayBridge.Failure
import ArrayBridge.FileTree
import ArrayBridge.Java.Companion
import ArrayBridge.Java.Imports
import ArrayBridge.Java.Literal
import ArrayBridge.Java.Method
import ArrayBridge.Java.Print
import ArrayBridge.Java.Syntax
import ArrayBridge.Java.Writer
import ArrayBridge.Kind
import ArrayBridge.Log
import ArrayBridge.Main
import ArrayBridge.Ordinal.Basic
import ArrayBridge.Ordinal.Range
import ArrayBridge.Proofs.Binary.Conversion
import ArrayBridge.Proofs.Bridge.Reading
import ArrayBridge.Proofs.Erased.Access
import ArrayBridge.Proofs.Erased.Effects
import ArrayBridge.Proofs.Erased.Evaluation
import ArrayBridge.Proofs.Erased.Items
import ArrayBridge.Proofs.Erased.Outcomes
import ArrayBridge.Proofs.Erased.Provenance
import ArrayBridge.Proofs.Erased.Renaming
import ArrayBridge.Proofs.Erased.Runs
import ArrayBridge.Proofs.Erased.Sharing
import ArrayBridge.Proofs.Erased.Typing
import ArrayBridge.Proofs.Erasure.Adapters
import ArrayBridge.Proofs.Erasure.Appending
import ArrayBridge.Proofs.Erasure.Calls
import ArrayBridge.Proofs.Erasure.Defaults
import ArrayBridge.Proofs.Erasure.Items
import ArrayBridge.Proofs.Erasure.Meaning
import ArrayBridge.Proofs.Erasure.Phases
import ArrayBridge.Proofs.Erasure.Placing
import ArrayBridge.Proofs.Erasure.Planning
import ArrayBridge.Proofs.Erasure.Plans
import ArrayBridge.Proofs.Erasure.Policies
import ArrayBridge.Proofs.Erasure.Safety
import ArrayBridge.Proofs.Erasure.Scoping
import ArrayBridge.Proofs.Erasure.Views
import ArrayBridge.Proofs.Java.Correspondence
import ArrayBridge.Proofs.Java.Execution
import ArrayBridge.Proofs.Java.Lexing
import ArrayBridge.Proofs.Java.Method
import ArrayBridge.Proofs.Java.Operands
import ArrayBridge.Proofs.Java.Operations
import ArrayBridge.Proofs.Java.Scoping
import ArrayBridge.Proofs.Store.Action
import ArrayBridge.Proofs.Store.Elements
import ArrayBridge.Proofs.Store.Frames
import ArrayBridge.Proofs.Store.Operations
import ArrayBridge.Proofs.Store.Sequences
import ArrayBridge.Proofs.Traversal
import ArrayBridge.Proofs.Wrapper.Resolution
import ArrayBridge.Scenario
import ArrayBridge.Store.Array
import ArrayBridge.Store.Basic
import ArrayBridge.Store.Fault
import ArrayBridge.Store.Sequence
import ArrayBridge.Text.Json
import ArrayBridge.Text.Quoted
import ArrayBridge.Text.Report
import ArrayBridge.Wrapper.Call
import ArrayBridge.Wrapper.Contract
import ArrayBridge.Wrapper.Signature
import ArrayBridge.Proofs.Binary.Rounding
import ArrayBridge.Proofs.Store.Words
import ArrayBridge.Proofs.Store.Unboxing
import ArrayBridge.Proofs.Store.Copying
import ArrayBridge.Proofs.Store.RoundTrip
import ArrayBridge.Proofs.Store.Bounds
import ArrayBridge.Proofs.Wrapper.Acceptance
import ArrayBridge.Proofs.Wrapper.Building
import ArrayBridge.Proofs.Java.Lookups
import ArrayBridge.Proofs.Java.Outcome
import ArrayBridge.Proofs.Erasure.TypeTests
import ArrayBridge.Proofs.Erased.Stripping
import ArrayBridge.Proofs.Erasure.Demands
import ArrayBridge.Proofs.Erasure.Remainder
import ArrayBridge.Proofs.Erasure.OnDemand
import ArrayBridge.Proofs.Ordinal.Spans
import ArrayBridge.Proofs.Ordinal.Measures
import ArrayBridge.Proofs.Ordinal.Neighbours
import ArrayBridge.Proofs.Java.Descriptors
import ArrayBridge.Proofs.Java.Overloads
import ArrayBridge.Proofs.Java.Grammar
import ArrayBridge.Proofs.Java.Reading
import ArrayBridge.Proofs.Java.TreeTokens
import ArrayBridge.Proofs.Java.Tokens
import ArrayBridge.Proofs.Java.Numerals
import ArrayBridge.Proofs.Java.Spelling
import ArrayBridge.Proofs.Java.Scanned
import ArrayBridge.Proofs.Java.ReadBack
import ArrayBridge.Proofs.Java.OneLine
import ArrayBridge.Proofs.Java.Indentation
import ArrayBridge.Proofs.Binary.Decimals
import ArrayBridge.Proofs.Erased.Reads
import ArrayBridge.Proofs.CommandLine.Files
import ArrayBridge.Proofs.CommandLine.Companions
