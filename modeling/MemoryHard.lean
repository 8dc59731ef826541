import MemoryHard.Cancellation
import MemoryHard.Main
import MemoryHard.Proofs.Block.Permutation
import MemoryHard.Proofs.Command.RoundTrip
import MemoryHard.Proofs.Commitment.Openings
import MemoryHard.Proofs.Geometry.Reference
import MemoryHard.Proofs.Memory.Interruption
import MemoryHard.Proofs.Proof.Canonical
import MemoryHard.Proofs.Proof.Rejections
import MemoryHard.Proofs.Proof.WrongBlocks
import MemoryHard.Proofs.Proof.Lockstep
import MemoryHard.Executor.Crew
import MemoryHard.Proofs.Executor.Workers
import MemoryHard.Proofs.Proof.Reveals
import MemoryHard.Digest.Buffer
import MemoryHard.Proofs.Digest.Output
import MemoryHard.Memory.Pass
import MemoryHard.Proofs.Block.Accumulation
import MemoryHard.Proofs.Block.Layout
import MemoryHard.Proofs.Digest.Prehash
import MemoryHard.Proofs.Memory.Pass
import MemoryHard.Proofs.Target.Difficulty
import MemoryHard.Proofs.Argon2d.Compression
import MemoryHard.Proofs.Argon2d.Squares
