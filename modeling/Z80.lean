import Z80.Snapshot
import Z80.Journal
import Z80.Proofs.Parallel
import Z80.Proofs.Translation
import Z80.Proofs.Translation.Execute
import Z80.Proofs.IndexPrefix
import Z80.Proofs.Run
import Z80.Proofs.Conformance
import Z80.Proofs.Completion
import Z80.Proofs.Resumption
import Z80.Proofs.Decoding
import Z80.Proofs.Acceptance
import Z80.Proofs.Masking
import Z80.Proofs.Status
import Z80.Proofs.Reproduction
import Z80.Proofs.Totality
import Z80.Proofs.Harm
import Z80.Proofs.Growth
import Z80.Proofs.Returning
import Z80.Proofs.Blame
import Z80.Proofs.Rejection
import Z80.Proofs.Refusal
import Z80.Proofs.Frame
import Z80.Proofs.IndexSymmetry
import Z80.Proofs.IndexedBits
import Z80.Proofs.FlagEffects
import Z80.Proofs.Traffic
import Z80.Proofs.PrefixChain
import Z80.Proofs.Timing
import Z80.Proofs.FlagModel
import Z80.Proofs.Encoding
import Z80.Proofs.ProgramCounter
import Z80.Proofs.Repetition
import Z80.Proofs.BlockCopy
import Z80.Proofs.BlockSearch
import Z80.Proofs.BlockTransfer
import Z80.Proofs.MultiByte
import Z80.Proofs.Decimal
import Z80.Proofs.LongShift
import Z80.Proofs.Cost
import Z80.Proofs.Construction
import Z80.Proofs.ByteStore
import Z80.Proofs.Stack
