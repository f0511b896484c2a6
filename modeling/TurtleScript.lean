import TurtleScript.Main
import TurtleScript.Proofs.Structured.Script
import TurtleScript.Proofs.Structured.Refinement
import TurtleScript.Proofs.Interpreter.Agreement
import TurtleScript.Proofs.StepLimit
import TurtleScript.Proofs.Resynchronisation
import TurtleScript.Proofs.Number.Bits
import TurtleScript.Proofs.Number.Rounding
import TurtleScript.Proofs.Number.Shortest
import TurtleScript.Proofs.Number.ReadBack
import TurtleScript.Proofs.Token.Spelling
import TurtleScript.Proofs.Transcript
import TurtleScript.Proofs.DepthLimit
import TurtleScript.Proofs.Interpreter.Machine
import TurtleScript.Proofs.Registry
import TurtleScript.Proofs.StoppingPlace
import TurtleScript.Proofs.Structured.Appending
import TurtleScript.Proofs.Drawing.Canvas
import TurtleScript.Proofs.Drawing.Trajectory
import TurtleScript.Proofs.Drawing.Snapshots
import TurtleScript.Proofs.Interpreter.DepthCounter
import TurtleScript.Proofs.Sessions
import TurtleScript.Proofs.Files.Paths
import TurtleScript.Proofs.Files.Storage
import TurtleScript.Proofs.Artifacts
import TurtleScript.Proofs.Drawing.Seam
import TurtleScript.Proofs.Interpreter.Clocked
import TurtleScript.Proofs.Interpreter.Correspondence
import TurtleScript.Proofs.Renaming
import TurtleScript.Proofs.Files.Hosts
import TurtleScript.Proofs.WithoutScript
import TurtleScript.Proofs.Files.Footprint
import TurtleScript.Proofs.Touched
import TurtleScript.Proofs.SavedScript
import TurtleScript.Proofs.Brackets
import TurtleScript.Proofs.CursorMoves
import TurtleScript.Proofs.LoopEnd
import TurtleScript.Proofs.ProcedureBody
import TurtleScript.Proofs.OwnWords
import TurtleScript.Proofs.Token.Combinators
import TurtleScript.Proofs.Interpreter.Work
import TurtleScript.Proofs.Token.Rejoining
import TurtleScript.Proofs.FrameEnd
import TurtleScript.Proofs.Token.OnePass
import TurtleScript.Proofs.Interpreter.DirectReads
import TurtleScript.Proofs.Number.Counts
import TurtleScript.Proofs.SavedDrawings
import TurtleScript.Proofs.Token.Spacing
import TurtleScript.Proofs.Drawing.Decoder
import TurtleScript.Proofs.Drawing.DocumentText
import TurtleScript.Proofs.Balance
import TurtleScript.Proofs.Drawing.Strokes
import TurtleScript.Proofs.Drawing.Colours
import TurtleScript.Proofs.Repainting
