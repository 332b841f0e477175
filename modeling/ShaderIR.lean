import ShaderIR.Command
import ShaderIR.Printer
import ShaderIR.Proofs.AddressInterning
import ShaderIR.Proofs.EditFrames
import ShaderIR.Proofs.ErasureRefusal
import ShaderIR.Proofs.ForsakenNodes
import ShaderIR.Proofs.LiveLocations
import ShaderIR.Proofs.LocationSafety
import ShaderIR.Proofs.NameCounters
import ShaderIR.Proofs.NamePreservation
import ShaderIR.Proofs.NestingDepth
import ShaderIR.Proofs.OperandShifts
import ShaderIR.Proofs.PlainMerges
import ShaderIR.Proofs.PrintedNodes
import ShaderIR.Proofs.RecordFraming
import ShaderIR.Proofs.RecordPrefixes
import ShaderIR.Proofs.TableAgreement
import ShaderIR.Proofs.TrackedOrder
import ShaderIR.Proofs.TupleResolution
import ShaderIR.Proofs.UseOrder
import ShaderIR.Proofs.VerificationVerdict
import ShaderIR.Proofs.WrappableValues
import ShaderIR.RuntimeInfo.Record
import ShaderIR.Verifier.Checks
