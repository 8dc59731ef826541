import MemoryHard.Digest.Links
import MemoryHard.Geometry.Checked
import MemoryHard.Proof.Verify

/-!
# MemoryHard.Proof.Checked — checking a proof with every step in range

Proofs and parameters may come from anybody.  Here a proof is checked in the order of
`Proof.verify`, but a step has no value if it leaves 64-bit words, falls below zero or divides by
zero, if it asks for a digest of a width outside 1 to 64, or for a list there is no room for.

* `HashPath.verify?` — whether a path leads from a block to a root;
* `walkFrom?` — the walk over a store of blocks, with `room?` for the indices it visits;
* `Proof.verify?` — the check of a proof.
-/

namespace MemoryHard

open MemoryHard.Bytes Word Digest

/-- The check of the parameters, whose one product has to fit. -/
def Params.validateForProof? (p : Params) : Option (Except Failure Unit) := do
  let _ ← mul? (2 * slices) p.lanes.toNat
  return p.validateForProof

variable [HashSuite]

/-! ## Paths -/

/-- Climbs from the node `current`, number `index` in a level of `count` nodes. -/
def climb? (c : Challenge) (width index count : Nat) (current : Bytes) :
    List Bytes → Option (Option Bytes)
  | [] => some (some current)
  | sibling :: rest =>
    if sibling.length ≠ width then some none
    else if index % 2 = 0 then do
      if (← add? index 1) = count ∧ sibling ≠ current then return none
      let parent ← hash? width (nodeMessage c current sibling)
      climb? c width (index / 2) ((count + 1) / 2) parent rest
    else do
      let parent ← hash? width (nodeMessage c sibling current)
      climb? c width (index / 2) ((count + 1) / 2) parent rest

/-- Whether a path leads from `block`, leaf number `index` of `count`, to `root`. -/
def HashPath.verify? (path : HashPath) (c : Challenge) (width count index : Nat) (block : Block)
    (root : Bytes) : Option Bool :=
  if minNodeWidth ≤ width ∧ width ≤ maxNodeWidth ∧ index < count ∧
      path.siblings.length = treeDepth count then do
    let leaf ← hash? width (leafMessage c block)
    return (← climb? c width index count leaf path.siblings) = some root
  else some false

/-! ## Walks -/

/-- Room for a list of `count` words.  There is room where a list of `present` things is at hand,
none of them smaller than a word, if that is not shorter. -/
def room? (present count : Nat) : Option Unit :=
  if count ≤ present ∨ hasRoom (8 * count) then some () else none

/-- The walk of so many steps from a digest on. -/
def walkFrom? (store : Nat → Option Block) (count : Nat) :
    (steps : Nat) → FixedBytes 32 → Option (List Nat × Option (FixedBytes 32))
  | 0, digest => some ([], some digest)
  | steps + 1, digest => do
    let index ← mod? (leNat (digest.toList.take 8)) count
    match store index with
    | none => return ([index], none)
    | some block =>
      let (rest, last) ← walkFrom? store count steps (walkNext digest block)
      return (index :: rest, last)

/-! ## Proofs -/

/-- The block in an opening, if its path leads to the root. -/
def Opening.check? (o : Opening) (p : Params) (c : Challenge) (root : Bytes) :
    Option (Except Rejection Block) := do
  let count ← p.blockCount?
  if count ≤ o.index.toNat then return .error (.indexOutOfRange o.index.toNat)
  match o.block? with
  | none => return .error (.malformedBlock o.index.toNat)
  | some block =>
    if ← o.path.verify? c p.nodeWidth count o.index.toNat block root then return .ok block
    else return .error (.pathMismatch o.index.toNat)

/-- A seed, if all digests for it have widths in range. -/
def seedBlock? (prehash : Bytes) (lane which : Nat) : Option Block := do
  let bytes ← stretch? Block.byteLength (prehash ++ leBytes 4 which ++ leBytes 4 lane)
  return Block.ofBytes bytes

namespace Proof

/-- Reveals the blocks of some openings, each after its check. -/
def revealOpenings? (p : Params) (c : Challenge) (root : Bytes) (known : Revealed) :
    List Opening → Option (Except Rejection Revealed)
  | [] => some (.ok known)
  | o :: rest => do
    match ← o.check? p c root with
    | .error rejection => return .error rejection
    | .ok block => revealOpenings? p c root (known.insert o.index.toNat block) rest

/-- Checks the walk of a proof over the revealed blocks, and its digest. -/
def checkWalk? (proof : Proof) (p : Params) (c : Challenge) (target : Target) (known : Revealed) :
    Option (Except Rejection Unit) := do
  let _ ← room? proof.steps.length p.searchLength.toNat
  let start := walkStart c proof.root proof.nonce
  match ← walkFrom? known.get? (← p.blockCount?) p.searchLength.toNat start with
  | (_, none) => return .error .unprovenBlock
  | (visited, some digest) =>
    match firstMismatch 0 visited (proof.selectedIndices.map UInt32.toNat) with
    | some rejection => return .error rejection
    | none =>
      if digest ≠ proof.digest then return .error .digestMismatch
      else return if target.isMetBy digest then .ok () else .error .difficultyNotMet

/-- The block that is derived in the place of the one a step visits. -/
def derivedBlock? (g : Geometry) (h0 : Bytes) (job : JobWords) (known : Revealed) (step : Step) :
    Option (Except Rejection Block) := do
  let i := step.selected.index.toNat
  if ← g.isSeed? i then
    return .ok (← seedBlock? h0 (← div? i g.laneLength) (← mod? i g.laneLength))
  else
    match step.previous, step.reference with
    | some previous, some reference =>
      match known.get? previous.index.toNat with
      | none => return .error (.missingAntecedent i)
      | some before =>
        let index ← g.reference? (← g.locate? i) before.firstWord
        if previous.index.toNat ≠ (← sub? i 1) ∨ reference.index.toNat ≠ index then
          return .error (.antecedentMismatch i)
        else
          match known.get? index with
          | none => return .error (.missingAntecedent i)
          | some other => return .ok (Block.derive before other none (some ⟨job, UInt64.ofNat i⟩))
    | _, _ => return .error (.missingAntecedent i)

/-- Checks the blocks visited, step by step. -/
def checkDerivations? (g : Geometry) (h0 : Bytes) (job : JobWords) (known : Revealed) :
    List Step → Option (Except Rejection Unit)
  | [] => some (.ok ())
  | step :: rest => do
    let i := step.selected.index.toNat
    match known.get? i with
    | none => return .error .unprovenBlock
    | some block =>
      match ← derivedBlock? g h0 job known step with
      | .error rejection => return .error rejection
      | .ok expected =>
        if block = expected then checkDerivations? g h0 job known rest
        else return .error (.derivationMismatch i)

/-- Checks a proof for the job with the given header and target. -/
def verify? (proof : Proof) (p : Params) (header : Bytes) (target : Target) :
    Option (Except Rejection Unit) := do
  match ← p.validateForProof? with
  | .error failure => return .error (.params failure)
  | .ok _ =>
    if proof.steps.length ≠ p.searchLength.toNat then
      return .error (.stepCount p.searchLength.toNat proof.steps.length)
    if proof.root.length ≠ p.nodeWidth then return .error (.malformedRoot proof.root.length)
    let challenge := Challenge.ofHeader header
    match ← revealOpenings? p challenge proof.root {} (proof.steps.flatMap Step.openings) with
    | .error rejection => return .error rejection
    | .ok known =>
      match ← proof.checkWalk? p challenge target known with
      | .error rejection => return .error rejection
      | .ok _ =>
        checkDerivations? (← p.wordGeometry) (prehash p (.ofHeader header)) challenge.jobWords
          known proof.steps

end Proof

end MemoryHard
