import MutantGate.Main
import MutantGate.Proofs.AcceptedInput
import MutantGate.Proofs.ApplicationOrder
import MutantGate.Proofs.ApplicationOutcome
import MutantGate.Proofs.Conformance
import MutantGate.Proofs.DispatchLoop
import MutantGate.Proofs.DistinctMutants
import MutantGate.Proofs.InterruptedIsolation
import MutantGate.Proofs.IsolatedCode
import MutantGate.Proofs.NarrowedSearch
import MutantGate.Proofs.NoFaults
import MutantGate.Proofs.RegisterCounts
import MutantGate.Proofs.RewrittenDiagnosis
import MutantGate.Proofs.RunFailures
import MutantGate.Proofs.WordAddressing
