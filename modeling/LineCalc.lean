import LineCalc.CommandLine.Run
import LineCalc.Main
import LineCalc.Proofs.CarriageReturns
import LineCalc.Proofs.Faults
import LineCalc.Proofs.IntegerLines
import LineCalc.Proofs.Kinds
import LineCalc.Proofs.JoinedLines
import LineCalc.Proofs.LineEnd
import LineCalc.Proofs.Locality
import LineCalc.Proofs.Lookahead
import LineCalc.Proofs.NestedPrograms
import LineCalc.Proofs.NumberEquality
import LineCalc.Proofs.Precedence
import LineCalc.Proofs.Prompt
import LineCalc.Proofs.ScannerRun
import LineCalc.Proofs.ScriptComposition
import LineCalc.Proofs.TreeDump
import LineCalc.Proofs.Vocabulary
import LineCalc.Proofs.WriteLog
