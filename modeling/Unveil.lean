import Unveil.Token
import Unveil.Table.Id
import Unveil.Bytes.Basic
import Unveil.Declaration.Basic
import Unveil.Declaration.Forest
import Unveil.Tally
import Unveil.Table.Row
import Unveil.Table.Column
import Unveil.Table.View
import Unveil.Table.Stream
import Unveil.Heaps
import Unveil.Image.Basic
import Unveil.Metadata.Root
import Unveil.Payload
import Unveil.Journal
import Unveil.Module.Load
import Unveil.Store.Path
import Unveil.Writing.Emission
import Unveil.Writing.Module
import Unveil.Store.Basic
import Unveil.Writing.Draft
import Unveil.CommandLine.Arguments
import Unveil.CommandLine.Failure
import Unveil.CommandLine.Plan
import Unveil.CommandLine.Run
import Unveil.Main
import Unveil.Pattern.Basic
import Unveil.Pattern.Flaw
import Unveil.Text.Plain
import Unveil.Pattern.Bracket
import Unveil.Pattern.Branches
import Unveil.Pattern.Acceptance
import Unveil.Pattern.Matching
import Unveil.Proofs.Bytes.Spelling
import Unveil.Proofs.Bytes.Revision
import Unveil.Proofs.Outcome
import Unveil.Proofs.Bytes.Copying
import Unveil.Proofs.Table.Schema
import Unveil.Proofs.Table.Widths
import Unveil.Proofs.Writing.Attribute
import Unveil.Proofs.Table.Header
import Unveil.Proofs.Table.Placement
import Unveil.Proofs.Table.Rows
import Unveil.Proofs.Table.GenericRow
import Unveil.Proofs.Writing.Rewording
import Unveil.Proofs.Writing.Emission
import Unveil.Proofs.Writing.Patch
import Unveil.Proofs.Writing.Agreement
import Unveil.Proofs.Declaration.Forest
import Unveil.Proofs.Declaration.Publicity
import Unveil.Proofs.Journal
import Unveil.Proofs.Module.Silent
import Unveil.Proofs.Module.Loaded
import Unveil.Proofs.Module.Members
import Unveil.Proofs.Module.Declarations
import Unveil.Proofs.Module.Depths
import Unveil.Proofs.Module.Parents
import Unveil.Proofs.Module.Links
import Unveil.Proofs.Module.Assembly
import Unveil.Proofs.Module.Standing
import Unveil.Proofs.Module.Circles
import Unveil.Proofs.Module.Backing
import Unveil.Proofs.Writing.Widening
import Unveil.Proofs.Writing.Words
import Unveil.Proofs.Image.Container
import Unveil.Proofs.Writing.Rendering
import Unveil.Proofs.Store.Replacing
import Unveil.Proofs.Writing.Draft
import Unveil.Proofs.Writing.Module
import Unveil.Proofs.Table.Substitution
import Unveil.Proofs.Writing.Rereading
import Unveil.Proofs.Module.Completeness
import Unveil.Proofs.Writing.EveryRow
import Unveil.Proofs.Image.Interpretation
import Unveil.Proofs.Metadata.RuntimeHeader
import Unveil.Proofs.Metadata.Root
import Unveil.Proofs.Module.Framing
import Unveil.Proofs.Module.Conservation
import Unveil.Proofs.Module.Runs
import Unveil.Proofs.Image.Checksum
import Unveil.Proofs.Writing.Stamp
import Unveil.Proofs.Writing.Keys
import Unveil.Proofs.Module.Recasting
import Unveil.Proofs.Writing.Redeclaring
import Unveil.Proofs.Declaration.Tally
import Unveil.Proofs.Declaration.Addresses
import Unveil.Proofs.Declaration.Iteration
import Unveil.Proofs.Writing.Separation
import Unveil.Proofs.Writing.Reloading
import Unveil.Proofs.Writing.RoundTrip
import Unveil.Proofs.Writing.Counting
import Unveil.Proofs.Writing.Passes
import Unveil.Proofs.Writing.Enumeration
import Unveil.Proofs.Writing.Reporting
import Unveil.Proofs.Store.Files
import Unveil.Proofs.Store.Walks
import Unveil.Proofs.Store.Names
import Unveil.Proofs.Store.Siblings
import Unveil.Proofs.Writing.Atomicity
import Unveil.Proofs.CommandLine.Survival
import Unveil.Proofs.CommandLine.Destinations
import Unveil.Proofs.Safety.Reading
import Unveil.Proofs.Safety.Container
import Unveil.Proofs.Safety.Rows
import Unveil.Proofs.Safety.Tables
import Unveil.Proofs.Safety.Members
import Unveil.Proofs.Safety.Nesting
import Unveil.Proofs.Safety.Loading
import Unveil.Proofs.Safety.Counters
import Unveil.Proofs.Safety.Module
import Unveil.Proofs.Bytes.Putting
import Unveil.Proofs.Table.Transcript
import Unveil.Proofs.Table.Typed
import Unveil.Proofs.Table.Views
import Unveil.Proofs.Table.Partition
import Unveil.Proofs.Table.Coded
import Unveil.Proofs.Table.IndexWidths
import Unveil.Proofs.Table.Marking
import Unveil.Proofs.Module.Graph
import Unveil.Proofs.Module.Marking
import Unveil.Proofs.Metadata.Names
import Unveil.Proofs.Metadata.Front
import Unveil.Proofs.Image.Mapping
import Unveil.Proofs.Safety.Accessors
