import Testnet.Proofs.Account.Order
import Testnet.Proofs.SharedAccounts

/-!
# Blocks in the order of the names

Accounts are dealt out by ordinal, so an earlier node has the lower ordinals, and it has as many
accounts as a later one at least. Names follow the ordinals only within one kind. So an earlier node
has the earlier names unless it holds an account that ends in a single letter while the later one
holds an account with a code. In all, the nodes are in the order of their names exactly if there is
one producing node at most or no account with a code.
-/

namespace Testnet

namespace Plan

variable {p : Plan} {i j : Nat}

theorem length_block (p : Plan) (j : Nat) :
    (p.block j).length = p.perNode + if j < p.leftOver then 1 else 0 := by
  rw [block, List.length_range', blockStart, blockStart, Nat.succ_mul]
  split <;> omega

/-- Later blocks are not longer. -/
theorem length_block_le (h : i ≤ j) : (p.block j).length ≤ (p.block i).length := by
  rw [length_block, length_block]
  split <;> split <;> omega

/-- The names of a block come before those of a later one, unless the first begins with a single
letter and the other ends with a code. -/
theorem block_names_lt_iff (h : p.check = .ok ()) (hproducers : p.producers < Account.ordinalLimit)
    (hij : i < j) (hj : j < p.producingRegular) :
    (∀ o ∈ p.block i, ∀ o' ∈ p.block j,
      Account.name .exclusive o < Account.name .exclusive o') ↔
    Account.letters ≤ p.blockStart i ∨ p.blockStart (j + 1) ≤ Account.letters := by
  have hi : i < p.producingRegular := Nat.lt_trans hij hj
  have hnext : p.blockStart (i + 1) ≤ p.blockStart j := blockStart_mono hij
  have hword : ∀ {k o}, k < p.producingRegular → o ∈ p.block k → o < Account.ordinalLimit :=
    fun hk ho => Nat.lt_trans (lt_producers_of_mem_block h hk ho) hproducers
  constructor
  · intro hbefore
    -- The first account of the one block and the last of the other.
    have hfirst : p.blockStart i ∈ p.block i :=
      mem_block_iff.mpr ⟨Nat.le_refl _, blockStart_lt h hi⟩
    have hsome := blockStart_lt h hj
    have hlast : p.blockStart (j + 1) - 1 ∈ p.block j := mem_block_iff.mpr ⟨by omega, by omega⟩
    have hends := (Account.name_lt_name_iff .exclusive (hword hi hfirst) (hword hj hlast)).mp
      (hbefore _ hfirst _ hlast)
    omega
  · intro hkind o ho o' ho'
    obtain ⟨hlow, hhigh⟩ := mem_block_iff.mp ho
    obtain ⟨hlow', hhigh'⟩ := mem_block_iff.mp ho'
    rw [Account.name_lt_name_iff .exclusive (hword hi ho) (hword hj ho')]
    omega

end Plan

namespace Binding

open Plan

/-- The accounts of a node that are not shared all have names before those of another. -/
def NamesBefore (m n : Node) : Prop := ∀ x ∈ Peering.owned m, ∀ y ∈ Peering.owned n, x < y

/-- Of any two producing nodes the first has the names that come first. -/
def InNameOrder (plan : Plan) (bound : List Node) : Prop :=
  ∀ (i j : Nat) m n, i < j → j < plan.producingRegular → bound[i + 1]? = some m →
    bound[j + 1]? = some n → NamesBefore m n

variable {σ : Type} {plan : Plan} {source : KeySource σ} {s : σ}

theorem length_bind {nodes nodes' : List Node} {outcome : Except (Stop Rejection) Assignment}
    (h : (bind plan source s nodes).value = ⟨nodes', outcome⟩) : nodes'.length = nodes.length := by
  have hsame := congrArg List.length (@unbound_bind plan σ source s nodes)
  rwa [h, List.length_map, List.length_map] at hsame

section Fresh

variable {f : Factory} {a : Allocator} {bound : List Node} {owners : Assignment} {m n : Node}
  {i j : Nat}

/-- A producing node holds its block and, besides shared accounts, nothing else. -/
theorem owned_producing (hproducers : plan.producers < Account.ordinalLimit)
    (hroom : a.Room (plan.totalNodes - 1))
    (h : (bind plan source s (f.made a plan.totalNodes)).value = ⟨bound, .ok owners⟩)
    (hj : j < plan.producingRegular) (hn : bound[j + 1]? = some n) :
    Peering.owned n = (plan.block j).map (Account.name .exclusive) := by
  rw [owned_bind_made hproducers hroom h hn, if_neg (Nat.succ_ne_zero j), owned, if_pos hj]

theorem namesBefore_iff (hproducers : plan.producers < Account.ordinalLimit)
    (hroom : a.Room (plan.totalNodes - 1))
    (h : (bind plan source s (f.made a plan.totalNodes)).value = ⟨bound, .ok owners⟩)
    (hij : i < j) (hj : j < plan.producingRegular) (hm : bound[i + 1]? = some m)
    (hn : bound[j + 1]? = some n) :
    (Peering.owned n).length ≤ (Peering.owned m).length ∧
      (NamesBefore m n ↔ Account.letters ≤ plan.blockStart i ∨
        plan.blockStart (j + 1) ≤ Account.letters) := by
  obtain ⟨hcheck, _⟩ := bind_eq_ok_iff.mp h
  rw [NamesBefore, owned_producing hproducers hroom h (Nat.lt_trans hij hj) hm,
    owned_producing hproducers hroom h hj hn, List.length_map, List.length_map,
    ← block_names_lt_iff hcheck hproducers hij hj]
  refine ⟨length_block_le (Nat.le_of_lt hij), ?_⟩
  simp only [List.forall_mem_map]

theorem inNameOrder_iff (hproducers : plan.producers < Account.ordinalLimit)
    (hroom : a.Room (plan.totalNodes - 1))
    (h : (bind plan source s (f.made a plan.totalNodes)).value = ⟨bound, .ok owners⟩) :
    InNameOrder plan bound ↔ plan.producingRegular ≤ 1 ∨ plan.producers ≤ Account.letters := by
  obtain ⟨hcheck, _⟩ := bind_eq_ok_iff.mp h
  obtain ⟨htotal, hproducing, _⟩ := check_eq_ok_iff.mp hcheck
  have hend := blockStart_producingRegular hcheck
  have hregular : plan.producingRegular = plan.producerNodes - 1 := rfl
  constructor
  · intro hordered
    by_cases htwo : plan.producingRegular ≤ 1
    · exact .inl htwo
    -- The first block begins with a single letter, and the last one ends with the pool.
    obtain ⟨k, hk⟩ : ∃ k, plan.producingRegular = k + 1 := ⟨plan.producingRegular - 1, by omega⟩
    have hlength := length_bind h
    rw [Factory.length_made] at hlength
    obtain ⟨m, hm⟩ : ∃ m, bound[0 + 1]? = some m := ⟨_, List.getElem?_eq_getElem (by omega)⟩
    obtain ⟨n, hn⟩ : ∃ n, bound[k + 1]? = some n := ⟨_, List.getElem?_eq_getElem (by omega)⟩
    have hbefore := hordered 0 k m n (by omega) (by omega) hm hn
    obtain ⟨_, hiff⟩ := namesBefore_iff hproducers hroom h (by omega) (by omega) hm hn
    rw [hiff, blockStart_zero, ← hk, hend] at hbefore
    exact hbefore.imp_left fun hletters => absurd hletters (by decide)
  · intro hfew i j m n hij hj hm hn
    obtain ⟨_, hiff⟩ := namesBefore_iff hproducers hroom h hij hj hm hn
    have hlast := @blockStart_mono plan (j + 1) plan.producingRegular hj
    exact hiff.mpr (.inr (by omega))

/-- A producing node has as many accounts as any after it. Its names come before those of the other
exactly if they have codes already or the others have none yet, and this is so for all producing
nodes exactly if there are not two of them or no account has a code. -/
theorem bind_ordered_iff (f : Factory) (a : Allocator) (plan : Plan) (source : KeySource σ) (s : σ)
    (nodes : List Node) (hcheck : plan.check = .ok ())
    (hproducers : plan.producers < Account.ordinalLimit)
    (hnodes : (f.createAll plan.totalNodes a).value = .ok nodes) :
    ∃ bound owners, (bind plan source s nodes).value = ⟨bound, .ok owners⟩ ∧
      bound.length = plan.totalNodes ∧
      (∀ (i j : Nat) m n, i < j → j < plan.producingRegular → bound[i + 1]? = some m →
        bound[j + 1]? = some n →
          (Peering.owned n).length ≤ (Peering.owned m).length ∧
          (NamesBefore m n ↔ Account.letters ≤ plan.blockStart i ∨
            plan.blockStart (j + 1) ≤ Account.letters)) ∧
      (InNameOrder plan bound ↔
        plan.producingRegular ≤ 1 ∨ plan.producers ≤ Account.letters) := by
  obtain ⟨hroom, rfl⟩ := Factory.createAll_eq_ok_iff.mp hnodes
  obtain ⟨bound, owners, hbind⟩ :=
    @exists_bind_made σ plan source s f a hcheck hproducers hroom
  refine ⟨bound, owners, hbind, ?_, ?_, inNameOrder_iff hproducers hroom hbind⟩
  · rw [length_bind hbind, Factory.length_made]
  · intro i j m n hij hj hm hn
    exact namesBefore_iff hproducers hroom hbind hij hj hm hn

/-- Twenty-seven accounts on two producing nodes: the second one holds the account with a code, and
its name comes before all that the first one holds. -/
theorem bind_ordered_iff_of_code :
    ∃ (plan : Plan) (bound : List Node) (owners : Assignment),
      plan.producers = 27 ∧ plan.producingRegular = 2 ∧ plan.check = .ok () ∧
      (bind plan .development () ((Factory.mk ⟨"etc"⟩ ⟨"var"⟩ 3 0).made (.new 9876 8888) 3)).value =
        ⟨bound, .ok owners⟩ ∧ ¬ InNameOrder plan bound := by
  let f : Factory := ⟨⟨"etc"⟩, ⟨"var"⟩, 3, 0⟩
  let a : Allocator := .new 9876 8888
  let plan : Plan := ⟨3, 3, 27, 0, 0⟩
  obtain ⟨bound, owners, hbind, _, _, hordered⟩ :=
    bind_ordered_iff f a plan .development () (f.made a 3) rfl (by decide) rfl
  exact ⟨plan, bound, owners, rfl, rfl, rfl, hbind, fun h => absurd (hordered.mp h) (by decide)⟩

end Fresh

end Binding

end Testnet
