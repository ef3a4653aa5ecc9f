import Parley.Text.LetterCase
import Parley.Text.Lossy
import Parley.Text.Blank
import Parley.SortedMap
import Parley.Code.Class
import Parley.Code.Instruction
import Parley.Assembly.Assemble
import Parley.SavedGlobals
import Parley.Recording
import Parley.Listing.Graph
import Parley.Decompile.Decompile
import Parley.Decompile.Render
import Parley.Format.Datum
import Parley.Format.Json
import Parley.Text.FileName
import Parley.CommandFault
import Parley.Decompile.Written
import Parley.GlobalStore
import Parley.ScriptedRun
import Parley.Debugger.Command
import Parley.Debugger.Console
import Parley.Debugger.Session
import Parley.CommandLine.Option
import Parley.CommandLine.Perform
import Parley.Main
import Parley.FileTree
import Parley.Proofs.Machine.Coverage
import Parley.Proofs.Source.ReadBack
import Parley.Proofs.Machine.Call
import Parley.Proofs.Machine.Frame
import Parley.Proofs.Image.Resaving
import Parley.Proofs.Structure.Balance
import Parley.Proofs.Reach.Header
import Parley.Proofs.FileTree
import Parley.Proofs.Globals.Record
import Parley.Proofs.Globals.Saving
import Parley.Proofs.Globals.Start
import Parley.Proofs.Globals.Running
import Parley.Proofs.Globals.Imported
import Parley.Proofs.Assembly.Draft
import Parley.Proofs.Assembly.Placement
import Parley.Proofs.Decompile.Partition
import Parley.Proofs.Effect.Sequence
import Parley.Proofs.Control.Test
import Parley.Proofs.Control.Goto
import Parley.Proofs.Control.Exit
import Parley.Proofs.Control.Continuation
import Parley.Proofs.Control.Join
import Parley.Proofs.Effect.Inlining
import Parley.Proofs.Source.Negation
import Parley.Proofs.Render.Disassembly
import Parley.Proofs.Render.Interleaving
import Parley.Proofs.Naming.Variable
import Parley.Proofs.Listing.Tiling
import Parley.Proofs.Assembly.Operand
import Parley.Proofs.Machine.Failure
import Parley.Proofs.Machine.Placeholder
import Parley.Proofs.Machine.Stack
import Parley.Proofs.Image.Truncation
import Parley.Proofs.Globals.RoundTrip
import Parley.Proofs.Debugger.Commands
import Parley.Proofs.Machine.WordList
import Parley.Proofs.Listing.Occurrence
