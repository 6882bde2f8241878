import Testnet.Config.Check

/-!
# Command lines

What the arguments of a command ask for. Arguments are read one by one, and the first that cannot be
taken decides: a misuse ends the reading, and so does a question for help or for the version.
-/

namespace Testnet.CommandLine

/-- Options that take a value. -/
inductive Setting where
  | config
  | output
  | shape
  | totalNodes
  | producerNodes
  | producers
  | sharedProducers
  | unstartedNodes
  | genesis
  | maxBlockCpuUsage
  | maxTransactionCpuUsage
deriving DecidableEq, Repr

namespace Setting

def ofLong? : String → Option Setting
  | "config" => some config
  | "output" => some output
  | "shape" => some shape
  | "total-nodes" => some totalNodes
  | "pnodes" => some producerNodes
  | "producers" => some producers
  | "shared-producers" => some sharedProducers
  | "unstarted-nodes" => some unstartedNodes
  | "genesis" => some genesis
  | "max-block-cpu-usage" => some maxBlockCpuUsage
  | "max-transaction-cpu-usage" => some maxTransactionCpuUsage
  | _ => none

def ofShort? : Char → Option Setting
  | 'c' => some config
  | 'o' => some output
  | 's' => some shape
  | 'n' => some totalNodes
  | 'p' => some producerNodes
  | 'g' => some genesis
  | _ => none

end Setting

/-- The arguments taken so far. -/
structure Invocation where
  config : Option Path
  output : Option Path
  overrides : Config.Overrides
  dryRun : Bool
deriving DecidableEq, Repr

inductive Request where
  | run (i : Invocation)
  | help
  | version
  | misuse
deriving DecidableEq, Repr

/-- The value of a text of digits. -/
def digits? (cs : List Char) : Option Nat :=
  if cs.isEmpty || !cs.all Char.isDigit then none
  else some (cs.foldl (fun n c => 10 * n + (c.toNat - '0'.toNat)) 0)

/-- A count may have a plus sign. -/
def count? (s : String) : Option Nat := do
  let n ← digits? (match s.toList with | '+' :: cs => cs | cs => cs)
  if n < countLimit then some n else none

/-- A limit may have either sign, but is never below zero. -/
def limit? (s : String) : Option UInt32 := do
  let n ←
    match s.toList with
    | '+' :: cs => digits? cs
    | '-' :: cs => (digits? cs).bind fun n => if n = 0 then some 0 else none
    | cs => digits? cs
  if n < UInt32.size then some (UInt32.ofNat n) else none

/-- A path is never empty. -/
def path? (s : String) : Option Path := if s.isEmpty then none else some ⟨s⟩

/-- A value in a place that must not have one. -/
def fill? {α : Type} (place : Option α) (value : Option α) : Option (Option α) :=
  if place.isSome then none else value.map some

namespace Invocation

def empty : Invocation := ⟨none, none, .none, false⟩

/-- Takes an option with its value, once. -/
def set? (i : Invocation) (s : Setting) (v : String) : Option Invocation :=
  let o := i.overrides
  let changed (f : Option Config.Overrides) : Option Invocation :=
    f.map fun o => { i with overrides := o }
  match s with
  | .config => (fill? i.config (path? v)).map fun p => { i with config := p }
  | .output => (fill? i.output (path? v)).map fun p => { i with output := p }
  | .shape => changed ((fill? o.shape (some v)).map fun x => { o with shape := x })
  | .totalNodes => changed ((fill? o.totalNodes (count? v)).map fun x => { o with totalNodes := x })
  | .producerNodes =>
    changed ((fill? o.producerNodes (count? v)).map fun x => { o with producerNodes := x })
  | .producers => changed ((fill? o.producers (count? v)).map fun x => { o with producers := x })
  | .sharedProducers =>
    changed ((fill? o.sharedProducers (count? v)).map fun x => { o with sharedProducers := x })
  | .unstartedNodes =>
    changed ((fill? o.unstartedNodes (count? v)).map fun x => { o with unstartedNodes := x })
  | .genesis => changed ((fill? o.genesis (path? v)).map fun x => { o with genesis := x })
  | .maxBlockCpuUsage =>
    changed ((fill? o.maxBlockCpuUsage (limit? v)).map fun x => { o with maxBlockCpuUsage := x })
  | .maxTransactionCpuUsage =>
    changed ((fill? o.maxTransactionCpuUsage (limit? v)).map fun x =>
      { o with maxTransactionCpuUsage := x })

end Invocation

/-- What one argument is by itself. -/
inductive Argument where
  | long (name : List Char) (value : Option (List Char))
  | short (name : Char) (rest : List Char)
  /-- Two dashes alone: no options come after it. -/
  | stop
  | plain
deriving DecidableEq, Repr

/-- A dash alone is no option. -/
def Argument.ofList : List Char → Argument
  | ['-', '-'] => stop
  | '-' :: '-' :: cs =>
    let name := cs.takeWhile (· != '=')
    long name (if name.length < cs.length then some (cs.drop (name.length + 1)) else none)
  | '-' :: c :: cs => short c cs
  | _ => plain

/-- A value that is attached to a short option, with or without an equals sign. -/
def attached? : List Char → Option (List Char)
  | [] => none
  | '=' :: cs => some cs
  | cs => some cs

/-- What an argument asks for when it does not take another as its value. -/
inductive Step where
  | set (s : Setting) (value : Option (List Char))
  | dryRun
  | done (r : Request)
deriving DecidableEq, Repr

def Step.ofArgument : Argument → Step
  | .stop => done .misuse
  | .plain => done .misuse
  | .short c rest =>
    if c = 'h' then done .help
    else if c = 'V' then done .version
    else
      match Setting.ofShort? c with
      | some s => set s (attached? rest)
      | none => done .misuse
  | .long name value =>
    match String.ofList name, value with
    | "help", none => done .help
    | "version", none => done .version
    | "dry-run", none => dryRun
    | other, _ =>
      match Setting.ofLong? other with
      | some s => set s value
      | none => done .misuse

/-- Reads arguments on top of those taken so far. Nothing may come after two dashes alone. -/
def readFrom (i : Invocation) : List String → Request
  | [] => .run i
  | a :: rest =>
    match Argument.ofList a.toList with
    | .stop => if rest.isEmpty then .run i else .misuse
    | argument =>
      match Step.ofArgument argument with
      | .done r => r
      | .dryRun => if i.dryRun then .misuse else readFrom { i with dryRun := true } rest
      | .set s (some v) =>
        match i.set? s (String.ofList v) with
        | some j => readFrom j rest
        | none => .misuse
      | .set s none =>
        match rest with
        | [] => .misuse
        | v :: rest =>
          if Argument.ofList v.toList ≠ .plain then .misuse
          else
            match i.set? s v with
            | some j => readFrom j rest
            | none => .misuse

def read (arguments : List String) : Request := readFrom .empty arguments

end Testnet.CommandLine
