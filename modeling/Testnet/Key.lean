/-!
# Key pairs

Producing nodes sign with key pairs drawn from a source. A source may hand out a different pair at
every draw, so it has a state.
-/

namespace Testnet

structure KeyPair where
  publicKey : String
  privateKey : String
deriving DecidableEq, Repr

namespace KeyPair

/-- The well-known pair for development. -/
def development : KeyPair where
  publicKey := "EOS6MRyAjQq8ud7hVNYcfnVPJqcVpscN5So8BhtHuGYqET5GDW5CV"
  privateKey := "5KQwrPbwdL6PhXujxW37FSSQZ1JiwsST4cqQzDeyXtP79zkvFD3"

end KeyPair

/-- Gives the pair for the node of a name, and the state for the next draw. -/
structure KeySource (σ : Type) where
  draw : String → σ → KeyPair × σ

namespace KeySource

/-- The development pair at every draw. -/
def development : KeySource Unit := ⟨fun _ s => (.development, s)⟩

/-- Public keys named for the node, private keys numbered in the order of the draws from one. -/
def numbered : KeySource Nat :=
  ⟨fun node n => (⟨"PUB_" ++ node, "PRIV_" ++ toString (n + 1)⟩, n + 1)⟩

end KeySource

end Testnet
