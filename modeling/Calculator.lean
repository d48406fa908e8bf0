import Calculator.Binary64.Bits
import Calculator.Expression.Tree
import Calculator.Main
import Calculator.Proofs.CommandLine.Agreement
import Calculator.Proofs.CommandLine.TokenList
import Calculator.Proofs.Decimal.Checked
import Calculator.Proofs.Evaluate.Integral
import Calculator.Proofs.Evaluate.Position
import Calculator.Proofs.Evaluate.Printed
import Calculator.Proofs.Evaluate.Runtime
import Calculator.Proofs.Evaluate.Spelling
import Calculator.Proofs.Session.Consistent
import Calculator.Proofs.Session.Conversion
import Calculator.Proofs.Session.Finite
import Calculator.Proofs.Session.Longest
import Calculator.Proofs.Session.Signs
import Calculator.Proofs.Session.Stops
import Calculator.Proofs.Source.Interleaving
import Calculator.Proofs.Value.Accuracy
import Calculator.Proofs.Value.Symmetry
import Calculator.Proofs.Expression.Count
