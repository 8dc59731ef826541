import MemoryHard.Proof.Format
import MemoryHard.Proofs.Json.Reader

/-!
# MemoryHard.Proofs.Proof.Format — what is exchanged comes back from its text

Parameters, targets, challenges, paths, openings, steps and proofs are read from their text, with
blanks between its parts or without.

* `Params.reads`, `Target.reads`, `Challenge.reads`, `HashPath.reads`, `Opening.reads`,
  `Step.reads`, `Proof.reads` — each form is read, field by field;
* `Json.decode_compact` — texts without blanks;
* `Proof.decode_pretty` — a proof with one item a line.
-/

namespace MemoryHard

open MemoryHard.Json

/-- A field that is read for the first time. -/
theorem Json.Record.Collects.once {σ α β : Type} {r : Record σ α} {s s' : σ} {name : String}
    {v : Json} {reader : Reader β} {b : β} {add : β → σ} {fields : List (String × Json)}
    (hm : r.meaning name s = .once none reader add) (hr : reader.Reads v b)
    (h : r.Collects (add b) fields s') : r.Collects s ((name, v) :: fields) s' :=
  .field hm (hr.map add) h

theorem Json.reads_readBase64 (b : Bytes) : readBase64.Reads (base64 b) b :=
  reads_readBase64With rfl

theorem Params.reads (p : Params) : reader.Reads p.toJson p := by
  let all : Fields := ⟨some p.lanes, some p.memoryCost, some p.passes, some p.tagLength,
    some p.nodeSize, some p.searchLength, some p.difficultyBits, some p.jobs⟩
  refine Record.Collects.reads (?_ : record.Collects record.start _ all) rfl
  refine .once rfl (reads_readWord32 p.lanes) ?_
  refine .once rfl (reads_readWord32 p.memoryCost) ?_
  refine .once rfl (reads_readWord32 p.passes) ?_
  refine .once rfl (reads_readWord32 p.tagLength) ?_
  refine .once rfl (reads_readWord64 p.nodeSize) ?_
  refine .once rfl (reads_readWord64 p.searchLength) ?_
  refine .once rfl (reads_readWord64 p.difficultyBits) ?_
  exact .once rfl (reads_readWord64 p.jobs) (.done _)

theorem Target.reads (t : Target) : reader.Reads t.toJson t := (reads_readHex t.bytes).map Target.mk

theorem Challenge.reads (c : Challenge) : reader.Reads c.toJson c := by
  refine Record.Collects.reads (?_ : record.Collects none _ (some c.bytes)) rfl
  exact .once rfl (reads_readBase64With (FixedBytes.ofBytes?_toList c.bytes)) (.done _)

theorem HashPath.reads (p : HashPath) : reader.Reads p.toJson p := by
  refine Record.Collects.reads (?_ : record.Collects none _ (some p.siblings)) rfl
  exact .once rfl (Reader.Reads.list reads_readBase64 p.siblings) (.done _)

theorem Opening.reads (o : Opening) : reader.Reads o.toJson o := by
  let all : Fields := ⟨some o.index, some o.block, some o.path⟩
  refine Record.Collects.reads (?_ : record.Collects record.start _ all) rfl
  refine .once rfl (reads_readWord32 o.index) ?_
  refine .once rfl (reads_readBase64 o.block) ?_
  exact .once rfl o.path.reads (.done _)

/-- A block that is not revealed has no field, and is taken for absent. -/
theorem Step.reads (s : Step) : reader.Reads s.toJson s := by
  obtain ⟨selected, previous, reference⟩ := s
  -- what is absent has no field, so there are four kinds of text
  cases previous with
  | none =>
    cases reference with
    | none => exact Record.Collects.reads (.once rfl selected.reads (.done _)) rfl
    | some reference =>
      refine Record.Collects.reads (.once rfl selected.reads ?_)
        (?_ : record.finish ⟨some selected, none, some (some reference)⟩ = _)
      · exact .once rfl reference.reads.option (.done _)
      · rfl
  | some previous =>
    cases reference with
    | none =>
      refine Record.Collects.reads (.once rfl selected.reads ?_)
        (?_ : record.finish ⟨some selected, some (some previous), none⟩ = _)
      · exact .once rfl previous.reads.option (.done _)
      · rfl
    | some reference =>
      refine Record.Collects.reads (.once rfl selected.reads ?_)
        (?_ : record.finish ⟨some selected, some (some previous), some (some reference)⟩ = _)
      · exact .once rfl previous.reads.option (.once rfl reference.reads.option (.done _))
      · rfl

theorem Proof.reads (p : Proof) : reader.Reads p.toJson p := by
  let all : Fields := ⟨some p.nonce, some p.root, some p.digest, some p.steps⟩
  refine Record.Collects.reads (?_ : record.Collects record.start _ all) rfl
  refine .once rfl (reads_readWord32 p.nonce) ?_
  refine .once rfl (reads_readBase64 p.root) ?_
  refine .once rfl (reads_readHex p.digest) ?_
  exact .once rfl (Reader.Reads.list Step.reads p.steps) (.done _)

/-! ## Whole texts -/

theorem Json.Reader.Reads.decode_dense {α : Type} {reader : Reader α} {v : Json} {a : α}
    (h : reader.Reads v a) : Json.decode reader v.compact.toList = .ok a := by
  have hdecode := h.decode isBlank_dense isBlankText_nil
  rwa [List.append_nil, ← String.toList_ofList (l := render dense 0 v)] at hdecode

/-- A proof comes back from its text with one item a line and a line break at the end. -/
theorem Proof.decode_pretty (p : Proof) :
    Json.decode reader (p.toJson.pretty ++ "\n").toList = .ok p := by
  have hbreak : IsBlankText "\n".toList := by
    intro c hc
    rw [List.mem_singleton.1 hc]
    rfl
  rw [String.toList_append, Json.pretty, String.toList_ofList]
  exact p.reads.decode isBlank_spread hbreak

/-- Parameters, targets, challenges, paths, openings, steps and proofs: each of them is decoded
from its text as the value it is the text of, whatever its numbers, the lengths of its byte strings
and lists, and the blocks that are revealed or not. -/
theorem Json.decode_compact :
    (∀ p : Params, decode Params.reader p.toJson.compact.toList = .ok p) ∧
    (∀ t : Target, decode Target.reader t.toJson.compact.toList = .ok t) ∧
    (∀ c : Challenge, decode Challenge.reader c.toJson.compact.toList = .ok c) ∧
    (∀ p : HashPath, decode HashPath.reader p.toJson.compact.toList = .ok p) ∧
    (∀ o : Opening, decode Opening.reader o.toJson.compact.toList = .ok o) ∧
    (∀ s : Step, decode Step.reader s.toJson.compact.toList = .ok s) ∧
    ∀ p : Proof, decode Proof.reader p.toJson.compact.toList = .ok p :=
  ⟨fun p => p.reads.decode_dense, fun t => t.reads.decode_dense,
    fun c => c.reads.decode_dense, fun p => p.reads.decode_dense,
    fun o => o.reads.decode_dense, fun s => s.reads.decode_dense,
    fun p => p.reads.decode_dense⟩

end MemoryHard
