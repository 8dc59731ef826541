/-!
# MemoryHard.Cancellation — flags that call work off

A token is a handle on a flag.  Tokens made from one another share their flag, so that raising or
lowering it by one shows on all of them.

* `Tokens.new`, `Tokens.share` — a token with a flag of its own, or with that of another;
* `Tokens.set` — raises or lowers the flag of a token;
* `Tokens.raised` — what each token shows.
-/

namespace MemoryHard

/-- Some tokens and their flags. -/
structure Tokens where
  flags : List Bool := []
  /-- For each token the number of its flag. -/
  handles : List Nat := []

namespace Tokens

/-- Adds a token with a flag of its own, which is down. -/
def new (t : Tokens) : Tokens := ⟨t.flags ++ [false], t.handles ++ [t.flags.length]⟩

/-- Adds a token that shares the flag of token number `i`. -/
def share (t : Tokens) (i : Nat) : Tokens := { t with handles := t.handles ++ t.handles[i]?.toList }

/-- Sets the flag of token number `i`. -/
def set (t : Tokens) (i : Nat) (raised : Bool) : Tokens :=
  match t.handles[i]? with
  | some flag => { t with flags := t.flags.set flag raised }
  | none => t

/-- What each token shows. -/
def raised (t : Tokens) : List Bool := t.handles.map fun flag => t.flags.getD flag false

end Tokens

end MemoryHard
