import Testnet.Proofs.Identity

/-!
# Exclusive ownership

An account of its own is what a node signs with alone. Networks made by a rule give an account to
several nodes only if it is one of the shared accounts that are given out by ordinal. A file may say
more: neither the system account nor any account that begins like a shared one is checked when the
nodes of a file are taken, so nothing is claimed about these there.
-/

namespace Testnet

/-- No two nodes list the account. -/
def OwnedOnce (nodes : List Node) (account : String) : Prop :=
  ∀ n ∈ nodes, ∀ m ∈ nodes, account ∈ n.producers → account ∈ m.producers → n = m

instance (nodes : List Node) (account : String) : Decidable (OwnedOnce nodes account) :=
  inferInstanceAs (Decidable (∀ n ∈ nodes, ∀ m ∈ nodes, _ → _ → n = m))

/-- Every account is listed by one node at most, unless it has a name in the shared pool. -/
def ExclusivelyOwned (nodes : List Node) : Prop :=
  ∀ account, (∀ o < Account.ordinalLimit, account ≠ Account.name .shared o) →
    OwnedOnce nodes account

variable {σ : Type} {c : Config} {files : FileTree} {source : KeySource σ} {state : σ} {s : Shape}
  {nodes : List Node} {account : String}

/-- Where there are owners, an exclusive account has one. -/
theorem ownedOnce_of_isExclusive (h : Identified nodes) {owners : Assignment}
    (howners : Assignment.ofNodes nodes = .ok owners)
    (hexclusive : Account.isExclusive account = true) : OwnedOnce nodes account := by
  intro n hn m hm hlisted hlisted'
  have hfirst : owners.owner? account = some n.index :=
    (Assignment.owner?_eq_some_iff howners).mpr ⟨n, hn, hlisted, hexclusive, rfl⟩
  have hsecond : owners.owner? account = some m.index :=
    (Assignment.owner?_eq_some_iff howners).mpr ⟨m, hm, hlisted', hexclusive, rfl⟩
  rw [hfirst] at hsecond
  exact h.eq_of_index hn hm (Option.some.inj hsecond)

/-- Whatever nodes a shape has, their exclusive accounts have owners. -/
theorem exists_owners_of_shaped (h : (shapedNodes c files source state s).result = .ok nodes) :
    ∃ owners, Assignment.ofNodes nodes = .ok owners := by
  cases s with
  | custom path =>
    obtain ⟨t, _, hdeclared⟩ := loadedNodes_eq_ok_iff.mp h
    exact (Topology.declaredNodes_eq_ok_iff.mp hdeclared).2.2.2
  | _ => exact exists_owners_generated h

/-- The system account was granted to the bios node only, and an account of the pool of exclusive
ones is owned. -/
theorem exclusivelyOwned_generated (h : (generatedNodes c s source state).result = .ok nodes) :
    ExclusivelyOwned nodes := by
  intro account hshared
  have hidentified := identified_of_generated h
  obtain ⟨owners, howners⟩ := exists_owners_generated h
  by_cases hexclusive : Account.isExclusive account = true
  · exact ownedOnce_of_isExclusive hidentified howners hexclusive
  -- What is left is the system account, since no node is granted anything else.
  have hbios : ∀ n ∈ nodes, account ∈ n.producers → n.name = Node.biosName := by
    intro n hn hlisted
    obtain ⟨hbios, _⟩ | ⟨pool, o, ho, rfl⟩ := granted_generated h n hn account hlisted
    · exact (hidentified.isBios_iff n hn).mp hbios
    · cases pool with
      | exclusive => exact absurd (Account.isExclusive_name .exclusive o) hexclusive
      | shared => exact absurd rfl (hshared o ho)
  intro n hn m hm hlisted hlisted'
  exact hidentified.eq_of_name hn hm ((hbios n hn hlisted).trans (hbios m hm hlisted').symm)

/-- In every network that was built an account has one owner at most, unless it is the system account
or begins like a shared one. In a network made by a rule the exception is smaller: only accounts that
have a name in the shared pool are listed by several nodes, and the system account is not. -/
theorem build_owned (c : Config) (files : FileTree) (now : Timestamp) (source : KeySource σ)
    (state : σ) (net : Network) (hbuild : (build c files now source state).result = .ok net) :
    (∀ account, account ≠ Account.system → Account.isShared account = false →
      OwnedOnce net.nodes account) ∧
    ∀ s, Shape.resolve files c.network.shape = .ok s → s.isCustom = false →
      ExclusivelyOwned net.nodes := by
  obtain ⟨_, shape, _, _, hnodes, _⟩ := build_eq_ok_iff.mp hbuild
  obtain ⟨owners, howners⟩ := exists_owners_of_shaped hnodes
  constructor
  · intro account hsystem hshared
    apply ownedOnce_of_isExclusive (identified_of_shaped hnodes) howners
    simp [Account.isExclusive, hsystem, hshared]
  · intro s hresolve hrule
    exact exclusivelyOwned_generated (generatedNodes_of_build hresolve hrule hbuild)

/-- Two producing nodes with a shared account: it is listed twice, and all others once. -/
theorem build_owned_of_three :
    ∃ (c : Config) (net : Network), c.network.sharedProducers = 1 ∧
      (build c (.empty []) .leapDay .development ()).result = .ok net ∧
      ¬ OwnedOnce net.nodes "shrproducera" ∧ OwnedOnce net.nodes "defproducerb" ∧
      ExclusivelyOwned net.nodes := by
  let layout : Config.Layout :=
    { Config.Layout.standard with
      totalNodes := 3, producerNodes := 3, producers := 4, sharedProducers := 1 }
  let c : Config := { Config.standard with network := layout }
  have hshape : Shape.resolve (.empty []) "mesh" = .ok .mesh := rfl
  obtain ⟨net, hbuild, hlisted⟩ : ∃ net, (build c (.empty []) .leapDay .development ()).result = .ok net ∧
      ¬ OwnedOnce net.nodes "shrproducera" := exists_of_any (by decide +kernel)
  obtain ⟨hexclusive, hrule⟩ := build_owned c (.empty []) .leapDay .development () net hbuild
  exact ⟨c, net, rfl, hbuild, hlisted, hexclusive _ (by decide) (by decide), hrule .mesh hshape rfl⟩

/-- A file that gives the system account to two nodes, and an account that begins like a shared one
but has no name in any pool: the network is built all the same. -/
theorem not_exclusivelyOwned_of_file :
    ∃ (c : Config) (files : FileTree) (net : Network),
      (build c files .leapDay .development ()).result = .ok net ∧
      ¬ OwnedOnce net.nodes Account.system ∧ ¬ OwnedOnce net.nodes "shrprx" ∧
      (∀ pool o, "shrprx" ≠ Account.name pool o) ∧ ¬ ExclusivelyOwned net.nodes := by
  let blank : Description := ⟨none, [], [], false, none, none, []⟩
  let t : Topology := ⟨"custom_",
    [("bios", { blank with producers := ["eosio"], keys := [.development] }),
      ("node_00", { blank with producers := ["eosio", "shrprx"] }),
      ("node_01", { blank with producers := ["shrprx"] })]⟩
  let declared :=
    (t.declaredNodes ⟨"t.json"⟩ Config.ofFile.factory Config.ofFile.allocator).toOption.getD []
  obtain ⟨nodes, hdeclared, hgraph, htwice, hagain, bios, hbios, hkey⟩ : ∃ nodes,
      t.declaredNodes ⟨"t.json"⟩ Config.ofFile.factory Config.ofFile.allocator = .ok nodes ∧
      Peering.checkGraph nodes = .ok () ∧
      ¬ OwnedOnce nodes Account.system ∧ ¬ OwnedOnce nodes "shrprx" ∧
      ∃ bios, nodes.find? (·.name == Node.biosName) = some bios ∧
        bios.firstPublicKey = some KeyPair.development.publicKey :=
    ⟨declared, by decide +kernel, by decide +kernel, by decide +kernel, by decide +kernel,
      declared.head (by decide +kernel), by decide +kernel, by decide +kernel⟩
  obtain ⟨net, rfl, hbuild⟩ := exists_build_ofFile hdeclared hgraph hbios hkey
  have hnameless : ∀ pool o, "shrprx" ≠ Account.name pool o :=
    fun pool o => (Account.name_ne_of_length (by decide) pool o).symm
  refine ⟨.ofFile, .ofTopology t, net, hbuild, htwice, hagain, hnameless, fun hexclusive => ?_⟩
  exact hagain (hexclusive "shrprx" fun o _ => hnameless .shared o)

end Testnet
