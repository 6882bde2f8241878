/-!
# Logged computations

What a computation says while it runs is part of its result: a list of records, oldest first. The
lemmas let a proof drop the records and reason about the value alone.
-/

namespace Testnet

/-- How much a record matters; `warn` records are always shown. -/
inductive Level where
  | debug
  | info
  | warn
deriving DecidableEq, Repr

structure Record where
  level : Level
  text : String
deriving DecidableEq, Repr

/-- A value together with the records made while it was computed, oldest first. -/
structure Logged (α : Type) where
  records : List Record
  value : α
deriving Repr

namespace Logged

variable {α β : Type}

instance : Monad Logged where
  pure a := ⟨[], a⟩
  bind x f :=
    let y := f x.value
    ⟨x.records ++ y.records, y.value⟩

def tell (r : Record) : Logged Unit := ⟨[r], ()⟩

def say (level : Level) (text : String) : Logged Unit := tell ⟨level, text⟩

@[simp] theorem value_pure (a : α) : (pure a : Logged α).value = a := rfl

@[simp] theorem records_pure (a : α) : (pure a : Logged α).records = [] := rfl

@[simp] theorem value_bind (x : Logged α) (f : α → Logged β) :
    (x >>= f).value = (f x.value).value := rfl

@[simp] theorem records_bind (x : Logged α) (f : α → Logged β) :
    (x >>= f).records = x.records ++ (f x.value).records := rfl

@[simp] theorem value_tell (r : Record) : (tell r).value = () := rfl

@[simp] theorem records_tell (r : Record) : (tell r).records = [r] := rfl

@[simp] theorem value_say (level : Level) (text : String) : (say level text).value = () := rfl

@[simp] theorem records_say (level : Level) (text : String) :
    (say level text).records = [⟨level, text⟩] := rfl

end Logged

end Testnet
