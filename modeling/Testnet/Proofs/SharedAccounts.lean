import Testnet.Peering.Bridge
import Testnet.Proofs.Binding

/-!
# Shared accounts

Shared accounts are given to all producing nodes alike, and nothing else depends on them: not how
the other accounts are handed out, not which keys are drawn, not who owns what. So binding ends well
for any number of them.
-/

namespace Testnet

/-- All of a node but its shared accounts. -/
def Node.unshared (n : Node) : Node :=
  { n with producers := n.producers.filter (!Account.isShared ·) }

/-- The plan without shared accounts. -/
def Plan.unshared (p : Plan) : Plan := { p with sharedProducers := 0 }

/-- Nobody owns a shared account. -/
theorem Assignment.claimsOf_unshared (n : Node) : claimsOf n.unshared = claimsOf n := by
  have hfilter : (n.producers.filter (!Account.isShared ·)).filter Account.isExclusive =
      n.producers.filter Account.isExclusive := by
    rw [List.filter_filter]
    refine List.filter_congr fun account _ => ?_
    unfold Account.isExclusive
    cases Account.isShared account <;> simp
  unfold claimsOf Node.unshared
  rw [hfilter]

/-- An account of the own pool is not shared. -/
theorem Peering.name_mem_owned_iff {n : Node} {o : Nat} :
    Account.name .exclusive o ∈ owned n ↔ Account.name .exclusive o ∈ n.producers := by
  rw [owned, List.mem_filter, Account.isShared_name]
  exact and_iff_left rfl

namespace Binding

variable {σ : Type} {plan : Plan} {source : KeySource σ} {s : σ}

theorem filter_accounts (d : Deal) : (accounts plan d).filter (!Account.isShared ·) =
    (List.range' d.next (d.share plan)).map (Account.name .exclusive) := by
  have hown : ∀ account ∈ (List.range' d.next (d.share plan)).map (Account.name .exclusive),
      (!Account.isShared account) = true := List.forall_mem_map.mpr fun o _ => by
    rw [Account.isShared_name]
    rfl
  have hshared : ∀ account ∈ (List.range plan.sharedProducers).map
      fun i => Account.name .shared (i % Account.ordinalLimit),
        ¬ (!Account.isShared account) = true := List.forall_mem_map.mpr fun i _ => by
    rw [Account.isShared_name]
    exact Bool.false_ne_true
  rw [accounts, List.filter_append, List.filter_eq_self.mpr hown,
    List.filter_eq_nil_iff.mpr hshared, List.append_nil]

theorem unshared_equip_accounts (n : Node) (d : Deal) (pair : KeyPair) :
    (equip n (accounts plan d) pair).unshared =
      (equip n (accounts plan.unshared d) pair).unshared := by
  unfold equip Node.unshared
  simp only [List.filter_append, filter_accounts]
  rfl

/-- Node by node the same is handed out, and in the end it comes out the same. -/
theorem bindFrom_unshared (d : Deal) (nodes : List Node) :
    (bindFrom plan source d s nodes).value.nodes.map Node.unshared =
      (bindFrom plan.unshared source d s nodes).value.nodes.map Node.unshared ∧
    (bindFrom plan source d s nodes).value.outcome =
      (bindFrom plan.unshared source d s nodes).value.outcome := by
  induction nodes generalizing d s with
  | nil => exact ⟨rfl, rfl⟩
  | cons n rest ih =>
    have hproducing : plan.unshared.producingRegular = plan.producingRegular := rfl
    have hshare : d.share plan.unshared = d.share plan := rfl
    rw [bindFrom, bindFrom, hproducing, hshare]
    split
    · obtain ⟨hnodes, houtcome⟩ := @ih (source.draw n.name s).2 d
      exact ⟨congrArg (_ :: ·) hnodes, houtcome⟩
    split
    · obtain ⟨hnodes, houtcome⟩ := @ih s d.skip
      exact ⟨congrArg (_ :: ·) hnodes, houtcome⟩
    split
    · exact ⟨rfl, rfl⟩
    · obtain ⟨hnodes, houtcome⟩ := @ih (source.draw n.name s).2 (d.serve plan)
      refine ⟨?_, houtcome⟩
      exact List.cons_eq_cons.mpr ⟨unshared_equip_accounts n d _, hnodes⟩

/-- Fresh nodes are bound without fail, however many accounts are shared. -/
theorem exists_bind_made {f : Factory} {a : Allocator} (hcheck : plan.check = .ok ())
    (hproducers : plan.producers < Account.ordinalLimit) (hroom : a.Room (plan.totalNodes - 1)) :
    ∃ nodes owners, (bind plan source s (f.made a plan.totalNodes)).value = ⟨nodes, .ok owners⟩ := by
  have hnone : plan.unshared.sharedProducers ≤ Account.ordinalLimit := Nat.zero_le _
  obtain ⟨owners, _, hbind⟩ :=
    @bind_made plan.unshared σ source s f a hcheck hproducers hnone hroom
  obtain ⟨_, hfrom, howners⟩ := bind_eq_ok_iff.mp hbind
  obtain ⟨hnodes, houtcome⟩ :=
    @bindFrom_unshared σ plan source s (.start plan) (f.made a plan.totalNodes)
  have hstart : Deal.start plan.unshared = .start plan := rfl
  have htotal : plan.unshared.totalNodes = plan.totalNodes := rfl
  rw [hstart, htotal] at hfrom
  rw [hfrom] at hnodes houtcome
  refine ⟨_, owners, bind_eq_ok_iff.mpr ⟨hcheck, congrArg (Change.mk _) houtcome, ?_⟩⟩
  rw [Assignment.ofNodes_congr Node.unshared Assignment.claimsOf_unshared hnodes]
  exact howners

section Fresh

open Plan

variable {f : Factory} {a : Allocator} {nodes : List Node} {owners : Assignment} {n : Node}
  {i : Nat}

theorem filter_holdings_unshared (i : Nat) :
    (plan.unshared.holdings i).filter (!Account.isShared ·) =
      if i = 0 then [Account.system] else plan.owned i := by
  cases i with
  | zero =>
    have hsystem : (!Account.isShared Account.system) = true := by decide
    exact List.filter_cons_of_pos hsystem
  | succ j =>
    have hnone : plan.unshared.holdings (j + 1) = plan.owned (j + 1) := by
      show (if _ then _ ++ [] else _) = plan.owned (j + 1)
      rw [List.append_nil]
      rfl
    rw [hnone, if_neg (Nat.succ_ne_zero j)]
    refine List.filter_eq_self.mpr fun account haccount => ?_
    obtain ⟨_, o, _, _, _, rfl⟩ := mem_owned.mp haccount
    rw [Account.isShared_name]
    rfl

/-- What a node holds besides shared accounts when fresh nodes are bound. -/
theorem owned_bind_made (hproducers : plan.producers < Account.ordinalLimit)
    (hroom : a.Room (plan.totalNodes - 1))
    (h : (bind plan source s (f.made a plan.totalNodes)).value = ⟨nodes, .ok owners⟩)
    (hn : nodes[i]? = some n) :
    Peering.owned n = if i = 0 then [Account.system] else plan.owned i := by
  obtain ⟨hcheck, hfrom, _⟩ := bind_eq_ok_iff.mp h
  have hnone : plan.unshared.sharedProducers ≤ Account.ordinalLimit := Nat.zero_le _
  obtain ⟨_, _, hbind⟩ := @bind_made plan.unshared σ source s f a hcheck hproducers hnone hroom
  obtain ⟨_, hunshared, _⟩ := bind_eq_ok_iff.mp hbind
  obtain ⟨hsame, _⟩ := @bindFrom_unshared σ plan source s (.start plan) (f.made a plan.totalNodes)
  have hstart : Deal.start plan.unshared = .start plan := rfl
  have htotal : plan.unshared.totalNodes = plan.totalNodes := rfl
  rw [hstart, htotal] at hunshared
  rw [hfrom, hunshared, bound_made] at hsame
  have hi := congrArg (fun l : List Node => l[i]?) hsame
  simp only [List.getElem?_map, hn, Option.map_some] at hi
  obtain ⟨_, hget, hequal⟩ := Option.map_eq_some_iff.mp hi.symm
  obtain ⟨_, hm, rfl⟩ := Option.map_eq_some_iff.mp hget
  obtain ⟨_, rfl⟩ := List.getElem?_eq_some_iff.mp hm
  have howned : Peering.owned n = _ := congrArg Node.producers hequal.symm
  rw [howned]
  simp only [Node.unshared, outfit, Factory.producers_nodeAt, List.nil_append, List.getElem_range]
  exact filter_holdings_unshared i

/-- Who holds an account alone. -/
theorem holds_bind_made_iff (hproducers : plan.producers < Account.ordinalLimit)
    (hroom : a.Room (plan.totalNodes - 1))
    (h : (bind plan source s (f.made a plan.totalNodes)).value = ⟨nodes, .ok owners⟩)
    (hn : nodes[i]? = some n) {o : Nat} (ho : o < plan.producers) :
    Account.name .exclusive o ∈ n.producers ↔
      ∃ j < plan.producingRegular, i = j + 1 ∧ o ∈ plan.block j := by
  have howned := owned_bind_made hproducers hroom h hn
  obtain ⟨hcheck, _⟩ := bind_eq_ok_iff.mp h
  rw [← Peering.name_mem_owned_iff, howned]
  constructor
  · intro hmem
    split at hmem
    · exact absurd (List.mem_singleton.mp hmem) (Account.name_ne_system _ _)
    · obtain ⟨j, o', hi, hj, ho', hname⟩ := mem_owned.mp hmem
      have hlt := lt_producers_of_mem_block hcheck hj ho'
      obtain ⟨_, rfl⟩ := Account.name_injective (by omega) (by omega) hname
      exact ⟨j, hj, hi, ho'⟩
  · intro hgiven
    obtain ⟨j, hj, rfl, ho⟩ := hgiven
    rw [if_neg (Nat.succ_ne_zero j)]
    exact mem_owned.mpr ⟨j, o, rfl, hj, ho, rfl⟩

end Fresh

end Binding

end Testnet
