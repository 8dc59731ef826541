import MemoryHard.Bytes.Hex
import MemoryHard.Geometry
import MemoryHard.Memory.Progress

/-!
# MemoryHard.Failure — why a computation gives no result

* `ParameterFault` — what is wrong with the parameters, or with the order of the calls;
* `ThreadFault` — what went wrong with workers;
* `Failure` — all reasons together, with `Failure.message` for their wording.
-/

namespace MemoryHard

open MemoryHard.Bytes

/-- The written form of a shape. -/
def Geometry.text (g : Geometry) : String :=
  s!"MemoryGeometry \x7b lanes: {g.lanes}, segment_length: {g.segmentLength}, " ++
    s!"lane_length: {g.laneLength}, passes: {g.passes} \x7d"

/-- What is wrong with the parameters or with the order of the calls. -/
inductive ParameterFault where
  | noLanes
  | tooManyLanes (lanes : Nat)
  /-- A segment would have less than two blocks. -/
  | memoryTooSmall (cost floor lanes : Nat)
  | noPasses
  | shortTag (length : Nat)
  /-- Nodes of this width cannot be hashed. -/
  | nodeWidth (width : Nat)
  | noSteps
  | difficulty (bits : Nat)
  /-- Only a single pass can be proved. -/
  | passesInProof (passes : Nat)
  /-- A tree cannot have nodes of this width. -/
  | treeNodeWidth (width : Nat)
  | emptyTree
  | seededTwice
  /-- The fill cannot begin at this point. -/
  | notSeeded (progress : Progress)
  | otherGeometry (found expected : Geometry)
  | noJob
  | target (text : String) (fault : Hex.Fault)
  | stated (reason : String)
deriving DecidableEq

/-- The wording of a parameter fault. -/
def ParameterFault.message : ParameterFault → String
  | .noLanes => "lanes must be at least 1"
  | .tooManyLanes lanes => s!"lanes must not exceed 16777215, got {lanes}"
  | .memoryTooSmall cost floor lanes =>
    s!"memory cost {cost} is below the floor of {floor} blocks for {lanes} lanes"
  | .noPasses => "passes must be at least 1"
  | .shortTag length => s!"tag length must be at least 4 bytes, got {length}"
  | .nodeWidth width => s!"merkle node size must be within 8..=64, got {width}"
  | .noSteps => "search length must be at least 1"
  | .difficulty bits => s!"difficulty cannot exceed 256 bits, got {bits}"
  | .passesInProof passes => s!"proofs require exactly one pass, got {passes}"
  | .treeNodeWidth width => s!"node size must be within 8..=64 bytes, got {width}"
  | .emptyTree => "cannot commit to an empty memory"
  | .seededTwice => "memory is already seeded"
  | .notSeeded progress => s!"cannot fill from state {progress.text}"
  | .otherGeometry found expected =>
    s!"memory geometry {found.text} does not match configuration {expected.text}"
  | .noJob => "no job loaded"
  | .target text fault => s!"invalid target {Text.quoted text}: {fault.message}"
  | .stated reason => reason

/-- What went wrong with workers. -/
inductive ThreadFault where
  /-- A job of this worker stopped without a result. -/
  | workerStopped (worker : Nat)
  | wrongCount (executor : String) (results jobs : Nat)
  | searchStopped
  /-- This worker cannot be started to hash blocks. -/
  | leafWorkerRefused (worker : Nat) (reason : String)
  /-- A worker cannot be started to look for a proof. -/
  | searchWorkerRefused (reason : String)
  | stated (reason : String)
deriving DecidableEq

/-- The wording of a thread fault. -/
def ThreadFault.message : ThreadFault → String
  | .workerStopped worker => s!"fill worker {worker} panicked"
  | .wrongCount executor results jobs =>
    s!"{executor} backend returned {results} of {jobs} segments"
  | .searchStopped => "search worker panicked"
  | .leafWorkerRefused worker reason => s!"could not spawn leaf worker {worker}: {reason}"
  | .searchWorkerRefused reason => s!"could not spawn search worker: {reason}"
  | .stated reason => reason

/-- Why a computation gives no result. -/
inductive Failure where
  /-- There is no room. -/
  | allocation (what : String) (bytes : Nat)
  /-- Something went wrong with workers. -/
  | thread (fault : ThreadFault)
  | parameter (fault : ParameterFault)
  | cancelled
  /-- A job stopped without a result and took its caller along. -/
  | stopped
deriving DecidableEq

/-- The wording of a failure. -/
def Failure.message : Failure → String
  | .allocation what bytes => s!"could not allocate {bytes} bytes for {what}"
  | .thread fault => s!"worker thread failure: {fault.message}"
  | .parameter fault => s!"invalid parameter: {fault.message}"
  | .cancelled => "job cancelled"
  | .stopped => "a job stopped"

end MemoryHard
