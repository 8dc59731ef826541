import MemoryHard.Json
import MemoryHard.Json.Reader
import MemoryHard.Proof

/-!
# MemoryHard.Proof.Format — parameters, proofs and their parts as text

Everything that prover and verifier exchange has a JSON form.  Byte strings are written in
base64, digests and targets in hexadecimal digits.  Blocks that a step does not reveal are left
out, and may also be given as `null`.

* `toJson` for `Params`, `Target`, `Challenge`, `HashPath`, `Opening`, `Step` and `Proof`;
* `reader` for each of them;
* `Proof.outline` — a proof for the human reader.
-/

namespace MemoryHard

open MemoryHard.Bytes

namespace Json

/-- A byte string in base64. -/
def base64 (b : Bytes) : Json := .string (Base64.encode Base64.standard b)

/-- A byte string in hexadecimal digits. -/
def hex (b : Bytes) : Json := .string (Hex.encode b)

/-- A field that is to be read once: `old` is its value if it has been read. -/
def Meaning.once {σ α : Type} (old : Option α) (reader : Reader α) (add : α → σ) : Meaning σ :=
  match old with
  | some _ => .again
  | none => .field fun t => mapResult add (reader t)

/-- The value of a field that has to be there. -/
def require {α : Type} (name : String) : Option α → Except String α
  | some a => .ok a
  | none => .error name

end Json

open Json

/-! ## Parameters -/

namespace Params

/-- The JSON form of parameters. -/
def toJson (p : Params) : Json :=
  .object [("lanes", .number p.lanes.toNat), ("memory_cost", .number p.memoryCost.toNat),
    ("passes", .number p.passes.toNat), ("tag_length", .number p.tagLength.toNat),
    ("merkle_node_size", .number p.nodeSize.toNat), ("search_length", .number p.searchLength.toNat),
    ("difficulty_bits", .number p.difficultyBits.toNat), ("jobs", .number p.jobs.toNat)]

/-- Some parameters. -/
structure Fields where
  lanes : Option UInt32 := none
  memoryCost : Option UInt32 := none
  passes : Option UInt32 := none
  tagLength : Option UInt32 := none
  nodeSize : Option UInt64 := none
  searchLength : Option UInt64 := none
  difficultyBits : Option UInt64 := none
  jobs : Option UInt64 := none

/-- The form of parameters. -/
def record : Record Fields Params where
  name := "Config"
  fields := ["lanes", "memory_cost", "passes", "tag_length", "merkle_node_size", "search_length",
    "difficulty_bits", "jobs"]
  needed := 8
  start := {}
  meaning key s :=
    match key with
    | "lanes" => .once s.lanes readWord32 fun v => { s with lanes := some v }
    | "memory_cost" => .once s.memoryCost readWord32 fun v => { s with memoryCost := some v }
    | "passes" => .once s.passes readWord32 fun v => { s with passes := some v }
    | "tag_length" => .once s.tagLength readWord32 fun v => { s with tagLength := some v }
    | "merkle_node_size" => .once s.nodeSize readWord64 fun v => { s with nodeSize := some v }
    | "search_length" => .once s.searchLength readWord64 fun v => { s with searchLength := some v }
    | "difficulty_bits" =>
      .once s.difficultyBits readWord64 fun v => { s with difficultyBits := some v }
    | "jobs" => .once s.jobs readWord64 fun v => { s with jobs := some v }
    | _ => .unknown
  finish s := do
    return {
      lanes := ← require "lanes" s.lanes
      memoryCost := ← require "memory_cost" s.memoryCost
      passes := ← require "passes" s.passes
      tagLength := ← require "tag_length" s.tagLength
      nodeSize := ← require "merkle_node_size" s.nodeSize
      searchLength := ← require "search_length" s.searchLength
      difficultyBits := ← require "difficulty_bits" s.difficultyBits
      jobs := ← require "jobs" s.jobs }

/-- Reads parameters. -/
def reader : Reader Params := record.read

end Params

/-! ## Targets and challenges -/

/-- The JSON form of a target. -/
def Target.toJson (t : Target) : Json := hex t.bytes.toList

/-- Reads a target. -/
def Target.reader : Reader Target := fun t => mapResult Target.mk (readHex 32 t)

namespace Challenge

/-- The JSON form of a challenge. -/
def toJson (c : Challenge) : Json := .object [("bytes", base64 c.bytes.toList)]

/-- The form of a challenge. -/
def record : Record (Option (FixedBytes 32)) Challenge where
  name := "ChallengeId"
  fields := ["bytes"]
  needed := 1
  start := none
  meaning key s :=
    match key with
    | "bytes" => .once s (readBase64Fixed 32) some
    | _ => .unknown
  finish s := (require "bytes" s).map Challenge.mk

/-- Reads a challenge. -/
def reader : Reader Challenge := record.read

end Challenge

/-! ## Openings -/

namespace HashPath

/-- The JSON form of a path. -/
def toJson (p : HashPath) : Json := .object [("siblings", .list (p.siblings.map base64))]

/-- The form of a path. -/
def record : Record (Option (List Bytes)) HashPath where
  name := "MerklePath"
  fields := ["siblings"]
  needed := 1
  start := none
  meaning key s :=
    match key with
    | "siblings" => .once s (readList readBase64) some
    | _ => .unknown
  finish s := (require "siblings" s).map HashPath.mk

/-- Reads a path. -/
def reader : Reader HashPath := record.read

end HashPath

namespace Opening

/-- The JSON form of an opening. -/
def toJson (o : Opening) : Json :=
  .object [("index", .number o.index.toNat), ("block", base64 o.block), ("path", o.path.toJson)]

/-- Some parts of an opening. -/
structure Fields where
  index : Option UInt32 := none
  block : Option Bytes := none
  path : Option HashPath := none

/-- The form of an opening. -/
def record : Record Fields Opening where
  name := "BlockOpening"
  fields := ["index", "block", "path"]
  needed := 3
  start := {}
  meaning key s :=
    match key with
    | "index" => .once s.index readWord32 fun v => { s with index := some v }
    | "block" => .once s.block readBase64 fun v => { s with block := some v }
    | "path" => .once s.path HashPath.reader fun v => { s with path := some v }
    | _ => .unknown
  finish s := do
    return ⟨← require "index" s.index, ← require "block" s.block, ← require "path" s.path⟩

/-- Reads an opening. -/
def reader : Reader Opening := record.read

end Opening

namespace Step

/-- The field of a block that may be revealed. -/
def optionalField (name : String) : Option Opening → List (String × Json)
  | some o => [(name, o.toJson)]
  | none => []

/-- The JSON form of a step. -/
def toJson (s : Step) : Json :=
  .object (("selected", s.selected.toJson) :: optionalField "previous" s.previous ++
    optionalField "reference" s.reference)

/-- Some parts of a step. -/
structure Fields where
  selected : Option Opening := none
  previous : Option (Option Opening) := none
  reference : Option (Option Opening) := none

/-- The form of a step. -/
def record : Record Fields Step where
  name := "StepOpening"
  fields := ["selected", "previous", "reference"]
  needed := 1
  start := {}
  meaning key s :=
    match key with
    | "selected" => .once s.selected Opening.reader fun v => { s with selected := some v }
    | "previous" =>
      .once s.previous (readOption Opening.reader) fun v => { s with previous := some v }
    | "reference" =>
      .once s.reference (readOption Opening.reader) fun v => { s with reference := some v }
    | _ => .unknown
  finish s := do
    return ⟨← require "selected" s.selected, s.previous.getD none, s.reference.getD none⟩

/-- Reads a step. -/
def reader : Reader Step := record.read

end Step

/-! ## Proofs -/

namespace Proof

/-- The JSON form of a proof. -/
def toJson (p : Proof) : Json :=
  .object [("nonce", .number p.nonce.toNat), ("root", base64 p.root),
    ("digest", hex p.digest.toList), ("openings", .list (p.steps.map Step.toJson))]

/-- Some parts of a proof. -/
structure Fields where
  nonce : Option UInt32 := none
  root : Option Bytes := none
  digest : Option WalkDigest := none
  steps : Option (List Step) := none

/-- The form of a proof. -/
def record : Record Fields Proof where
  name := "Proof"
  fields := ["nonce", "root", "digest", "openings"]
  needed := 4
  start := {}
  meaning key s :=
    match key with
    | "nonce" => .once s.nonce readWord32 fun v => { s with nonce := some v }
    | "root" => .once s.root readBase64 fun v => { s with root := some v }
    | "digest" => .once s.digest (readHex 32) fun v => { s with digest := some v }
    | "openings" => .once s.steps (readList Step.reader) fun v => { s with steps := some v }
    | _ => .unknown
  finish s := do
    return ⟨← require "nonce" s.nonce, ← require "root" s.root, ← require "digest" s.digest,
      ← require "openings" s.steps⟩

/-- Reads a proof. -/
def reader : Reader Proof := record.read

/-- The line of a step, from its number on. -/
def outlineStep (number : Nat) (s : Step) : String :=
  let part (name : String) : Option Opening → String
    | some o => s!" ({name} {o.index})"
    | none => ""
  s!"    ({number} (selected {s.selected.index})" ++ part "previous" s.previous ++
    part "reference" s.reference ++ ")\n"

/-- A proof for the human reader: what it claims, and the indices of the blocks it reveals. -/
def outline (p : Proof) : String :=
  "(proof\n" ++ s!"  (nonce {p.nonce})\n" ++
    s!"  (root \"{String.ofList (Base64.encode Base64.urlSafe p.root)}\")\n" ++
    s!"  (digest \"{Hex.text p.digest.toList}\")\n" ++ "  (openings\n" ++
    String.join (p.steps.zipIdx.map fun s => outlineStep s.2 s.1) ++ "  )\n)"

end Proof

end MemoryHard
