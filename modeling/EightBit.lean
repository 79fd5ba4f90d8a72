import EightBit.FileTree
import EightBit.Main
import EightBit.Proofs.Rule
import EightBit.Proofs.Stack
import EightBit.Proofs.StackPointer
import EightBit.Proofs.ProgramCounter
import EightBit.Proofs.Independence
import EightBit.Proofs.Arithmetic
import EightBit.Proofs.Run
import EightBit.Proofs.Hazard
import EightBit.Proofs.Image
import EightBit.Proofs.Failure
import EightBit.Proofs.Permanence
import EightBit.Proofs.Program
import EightBit.Proofs.Line
import EightBit.Proofs.Literal
import EightBit.Proofs.Rendering
import EightBit.Proofs.Footprint
import EightBit.Proofs.LargerMemory
import EightBit.Proofs.LimitedRoom
import EightBit.Proofs.Audit
import EightBit.Proofs.Bounds
import EightBit.Proofs.Comparison
import EightBit.Proofs.Arguments
import EightBit.Proofs.Session
import EightBit.Proofs.Verbosity
import EightBit.Proofs.Hexadecimal
import EightBit.Proofs.Block
import EightBit.Proofs.Dump
import EightBit.Proofs.Trimming
import EightBit.Proofs.TraceLine
import EightBit.Proofs.PostMortem
import EightBit.Proofs.FileTree
