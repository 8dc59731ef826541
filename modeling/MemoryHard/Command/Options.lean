/-!
# MemoryHard.Command.Options — options on a command line

An option has a name after two dashes and a value, which follows as the next argument or after an
equals sign.  Each option is given once at most, and nothing but options is accepted.

* `collect` — the options of a command line;
* `natural?`, `integer?` — numbers as values.
-/

namespace MemoryHard.Command

/-- Options with their values. -/
abbrev Options := List (String × String)

/-- What an argument without its dashes is: a name, and a value after an equals sign. -/
def splitEquals (s : List Char) : String × Option String :=
  let name := s.takeWhile (· ≠ '=')
  match s.dropWhile (· ≠ '=') with
  | [] => (String.ofList name, none)
  | _ :: value => (String.ofList name, some (String.ofList value))

/-- Whether an argument may be a value that stands on its own: it does not begin with a dash,
unless it is nothing else. -/
def isValue (arg : String) : Bool :=
  match arg.toList with
  | ['-'] => true
  | '-' :: _ => false
  | _ => true

/-- The options of a command line, of which only those `known` are accepted; `none` if something
else is there.  Two dashes alone end the options. -/
def collect (known : List String) (seen : Options) : List String → Option Options
  | [] => some seen
  | arg :: rest =>
    match arg.toList with
    | ['-', '-'] => if rest.isEmpty then some seen else none
    | '-' :: '-' :: body =>
      let (name, value) := splitEquals body
      if !known.contains name || (seen.lookup name).isSome then none
      else
        match value, rest with
        | some value, rest => collect known ((name, value) :: seen) rest
        | none, value :: rest =>
          if isValue value then collect known ((name, value) :: seen) rest else none
        | none, [] => none
    | _ => none

/-- The number that decimal digits stand for; there has to be one digit at least. -/
def digits? (s : List Char) : Option Nat :=
  if s.isEmpty then none
  else
    s.foldl
      (fun n c => n.bind fun n => if c.isDigit then some (10 * n + (c.toNat - 48)) else none)
      (some 0)

/-- A number up to `limit` that may have a plus sign. -/
def natural? (limit : Nat) (s : String) : Option Nat := do
  let n ← match s.toList with
    | '+' :: rest => digits? rest
    | rest => digits? rest
  if n ≤ limit then some n else none

/-- A number up to `limit` that may have a sign; only zero may be negative. -/
def integer? (limit : Nat) (s : String) : Option Nat :=
  match s.toList with
  | '-' :: rest => do
    let n ← digits? rest
    if n = 0 then some 0 else none
  | _ => natural? limit s

/-- The value of an option, or the usual one if it is not given; `none` if the value given does
not read. -/
def valueOr {α : Type} (options : Options) (name : String) (usual : α) (read : String → Option α) :
    Option α :=
  match options.lookup name with
  | some value => read value
  | none => some usual

/-- A number of 32 bits. -/
def word32? (s : String) : Option UInt32 := (integer? (UInt32.size - 1) s).map UInt32.ofNat

/-- A number of 64 bits. -/
def word64? (s : String) : Option UInt64 := (natural? (UInt64.size - 1) s).map UInt64.ofNat

end MemoryHard.Command
