/-!
# MemoryHard.Memory.Progress — how far a fill has come

* `Progress` — before, between and after the slices of a fill;
* `Progress.text` — its written form.
-/

namespace MemoryHard

/-- How far a fill has come. -/
inductive Progress where
  | untouched
  /-- The seeds of all lanes are written. -/
  | seeded
  /-- The slice is at work, or about to be. -/
  | filling (pass slice : Nat)
  | complete
deriving DecidableEq

/-- The written form of a progress. -/
def Progress.text : Progress → String
  | .untouched => "Uninitialized"
  | .seeded => "SeedsWritten"
  | .filling pass slice => s!"Filling \x7b pass: {pass}, slice: {slice} \x7d"
  | .complete => "Complete"

end MemoryHard
