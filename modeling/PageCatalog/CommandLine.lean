import PageCatalog.Directory

/-!
The command line: single commands on the directory of a cache.

    metastore <dir> <cache_id> (alloc <name> | drop <name> | list)

The folder and the cache are opened, and created if they are missing, before the
command is looked at; only a command that was carried out is flushed.

* `CommandLine.cacheId`: the number of a cache from its text.
* `CommandLine.carryOut`: a command, with the lines that it prints.
* `CommandLine.run`: a whole run.
-/

namespace PageCatalog.CommandLine

def usage : String := "usage: metastore <dir> <cache_id> (alloc <name> | drop <name> | list)"

/-- Why a text is not the number of a cache. -/
inductive NumberError where
  | empty
  | invalidDigit
  | overflow
  deriving DecidableEq, Repr

def NumberError.inspect : NumberError → String
  | empty => "ParseIntError \x7b kind: Empty \x7d"
  | invalidDigit => "ParseIntError \x7b kind: InvalidDigit \x7d"
  | overflow => "ParseIntError \x7b kind: PosOverflow \x7d"

/-- Reads decimal digits behind the number `n`. The first digit that is none, or that
makes the number too large for 32 bits, decides. -/
def digits : Nat → List Char → Except NumberError Nat
  | n, [] => .ok n
  | n, c :: cs =>
    if ¬ c.isDigit then .error .invalidDigit
    else
      let n' := 10 * n + (c.toNat - '0'.toNat)
      if 0x100000000 ≤ n' then .error .overflow else digits n' cs

/-- The number of a cache: decimal digits behind at most one plus sign. -/
def cacheId (text : String) : Except NumberError CacheId :=
  match text.toList with
  | [] => .error .empty
  | '+' :: c :: cs => (digits 0 (c :: cs)).map UInt32.ofNat
  | cs => (digits 0 cs).map UInt32.ofNat

/-- What a run leaves: exit code, and the two outputs. -/
structure Outcome where
  code : UInt32
  out : String := ""
  err : String := ""
  deriving DecidableEq, Repr

/-- A run that was called wrongly. -/
def misused : Outcome := { code := 2, err := usage ++ "\n" }

/-- A run that ended with an error. -/
def failed (text : String) : Outcome := { code := 1, err := s!"Error: {text}\n" }

/-- How a failed computation ends a run. One that never ends leaves no outcome; it is given the
code of a computation that breaks off. -/
def ofFailure : Failure → Outcome
  | .error e => failed e.inspect
  | .outOfBounds => { code := 101 }
  | .levelOverflow => { code := 101 }
  | .endless => { code := 101 }
  | .stuck => { code := 101 }

variable {δ : Type} [Device δ]

/-- Carries out a command and gives what it prints; `none` for a command that there
is not. -/
def carryOut (d : Directory) : List String → SessionM δ (Option String)
  | ["alloc", name] => do
    let root ← d.obtain name
    let state := if root.allocated then "allocated" else "existing"
    return some s!"{name}\t{root.address.page.text}\t{state}\n"
  | ["drop", name] => do
    match ← d.drop name with
    | some root => return some s!"{name}\t{root.address.page.text}\tdropped\n"
    | none => return some s!"{name}\tnot found\n"
  | ["list"] => do
    let lines := (← d.entries).map fun e =>
      s!"{Text.decodeLossy e.name}\t{e.page.text}\n"
    return some (String.join lines)
  | _ => return none

/-- A command in an open store. What was printed stays printed if the flush fails. -/
def inStore (c : CacheId) (command : List String) : SessionM δ Outcome := do
  let d ← Directory.start c
  match ← carryOut d command with
  | none => return misused
  | some out =>
    tryCatch (do Session.flush; return { code := 0, out })
      (fun e => return { ofFailure e with out })

/-- A run with the given arguments on a device. -/
def run (args : List String) : StateM δ Outcome := fun device =>
  match args with
  | folder :: cache :: first :: rest =>
    match cacheId cache with
    | .error e => (failed e.inspect, device)
    | .ok c =>
      match Session.start folder {} device with
      | (.error e, device) => (failed e.inspect, device)
      | (.ok store, device) =>
        match inStore c (first :: rest) ⟨device, store⟩ with
        | (.ok outcome, s) => (outcome, s.device)
        | (.error e, s) => (ofFailure e, s.device)
  | _ => (misused, device)

end PageCatalog.CommandLine
