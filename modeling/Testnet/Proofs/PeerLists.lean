import Testnet.Proofs.Launch.Plan

/-!
# Peers that stand once

A node takes on no peer that it has, so in a network made by a rule every list of peers is a set.
The lists of a topology file are taken over as they are. They are checked for peers that are no
other node but not for peers that stand twice. So the network has the repetitions of the file, and a
node is started with an address twice exactly if a peer stands twice.
-/

namespace Testnet

open Peering

/-- No node has a peer twice. -/
def PeersOnce (nodes : List Node) : Prop := ∀ n ∈ nodes, n.peers.Nodup

instance (nodes : List Node) : Decidable (PeersOnce nodes) :=
  inferInstanceAs (Decidable (∀ n ∈ nodes, n.peers.Nodup))

theorem PeersOnce.of_grown {ns ns' : List Node} (h : PeersOnce ns) (hgrown : Grown ns ns') :
    PeersOnce ns' := by
  intro n hn
  obtain ⟨k, hk⟩ := List.mem_iff_getElem?.mp hn
  obtain ⟨given, hget, _⟩ := hgrown k
  rw [hget, Option.map_eq_some_iff] at hk
  obtain ⟨m, hm, rfl⟩ := hk
  exact Node.nodup_peers_addPeers (h m (List.mem_of_getElem? hm)) given

variable {σ : Type} {c : Config} {files : FileTree} {source : KeySource σ} {state : σ} {s : Shape}
  {nodes : List Node}

theorem peersOnce_generated (h : (generatedNodes c s source state).result = .ok nodes) :
    PeersOnce nodes := by
  obtain ⟨bound, hunconnected, hconnect, _⟩ := exists_unconnected_of_generated h
  have hbefore : PeersOnce bound := by
    intro n hn
    obtain ⟨k, hk⟩ := List.mem_iff_getElem?.mp hn
    rw [hunconnected.silent hk]
    exact List.nodup_nil
  have hgrown := grown_connect s c.network.producers bound
  rw [hconnect] at hgrown
  exact hbefore.of_grown hgrown

/-- Declared nodes have the peers that are declared. -/
theorem peersOnce_declared_iff {t : Topology} {path : Path} {f : Factory} {a : Allocator}
    (h : t.declaredNodes path f a = .ok nodes) :
    PeersOnce nodes ↔ ∀ d ∈ t.nodes, d.2.peers.Nodup := by
  obtain ⟨_, hfilled, _⟩ := Topology.declaredNodes_eq_ok_iff.mp h
  have hpeers : nodes.map (·.peers) = t.nodes.map (·.2.peers) :=
    Topology.map_fillFrom (fun _ _ _ _ => rfl) hfilled
  have hlists : PeersOnce nodes ↔ ∀ peers ∈ nodes.map (·.peers), peers.Nodup :=
    List.forall_mem_map.symm
  rw [hlists, hpeers, List.forall_mem_map]

namespace Network

variable {n : Network}

/-- Where all peers are nodes there is an address for each of them. -/
theorem addresses_eq_map {peers : List String}
    (hpeers : ∀ peer ∈ peers, ∃ m ∈ n.nodes, n.node? peer = some m ∧ m.name = peer) :
    n.addresses peers = peers.map fun peer =>
      "localhost:" ++ toString ((n.node? peer).elim 0 (·.ports.p2p.toNat)) := by
  induction peers with
  | nil => rfl
  | cons peer rest ih =>
    obtain ⟨⟨m, _, hfound, _⟩, hrest⟩ := List.forall_mem_cons.mp hpeers
    rw [addresses_cons, ih hrest, List.map_cons, hfound]
    rfl

/-- Addresses stand once exactly if the peers do, since no two nodes have one address. -/
theorem nodup_addresses_iff (hports : (n.nodes.map (·.ports.p2p)).Nodup) {peers : List String}
    (hpeers : ∀ peer ∈ peers, ∃ m ∈ n.nodes, n.node? peer = some m ∧ m.name = peer) :
    (n.addresses peers).Nodup ↔ peers.Nodup := by
  rw [addresses_eq_map hpeers]
  refine ⟨fun h => h.of_map _, fun h => List.Nodup.map_on ?_ h⟩
  intro peer hpeer peer' hpeer' haddress
  obtain ⟨m, hm, hfound, hname⟩ := hpeers peer hpeer
  obtain ⟨m', hm', hfound', hname'⟩ := hpeers peer' hpeer'
  rw [hfound, hfound'] at haddress
  have hport : m.ports.p2p.toNat = m'.ports.p2p.toNat := by
    have hread := congrArg Launch.port haddress
    rwa [Launch.port_peer, Launch.port_peer] at hread
  have hsame : m = m' := List.inj_on_of_nodup_map hports hm hm' (UInt16.toNat_inj.mp hport)
  rw [← hname, ← hname', hsame]

end Network

/-- Whatever a network was built from, the peers of a node are other nodes of it. In a network made
by a rule no peer stands twice. In one that a file declares the peers stand as often as in the file,
which may be twice. No node is started with an address twice exactly if no peer stands twice. -/
theorem peers_once_iff (c : Config) (files : FileTree) (now : Timestamp) (source : KeySource σ)
    (state : σ) (net : Network) (hbuild : (build c files now source state).result = .ok net) :
    IsGraph net.nodes ∧
    (∀ s, Shape.resolve files c.network.shape = .ok s → s.isCustom = false →
      PeersOnce net.nodes) ∧
    (∀ path t, Shape.resolve files c.network.shape = .ok (.custom path) →
      Topology.load files path = .ok t →
      (PeersOnce net.nodes ↔ ∀ d ∈ t.nodes, d.2.peers.Nodup)) ∧
    ∀ o plan, (net.launchPlan o).value = .ok plan →
      ((∀ e ∈ plan, (e.values o "--p2p-peer-address").Nodup) ↔ PeersOnce net.nodes) := by
  obtain ⟨hcheck, shape, _, hresolve, hnodes, hgraph, _⟩ := build_eq_ok_iff.mp hbuild
  have hpeers := checkGraph_eq_ok_iff.mp hgraph
  refine ⟨hpeers, ?_, ?_, ?_⟩
  · intro s hshape hrule
    exact peersOnce_generated (generatedNodes_of_build hshape hrule hbuild)
  · intro path t hshape hload
    have hsame : shape = .custom path := Except.ok.inj (hresolve.symm.trans hshape)
    rw [hsame] at hnodes
    obtain ⟨t', hload', hdeclared⟩ := loadedNodes_eq_ok_iff.mp hnodes
    rw [hload, Except.ok.injEq] at hload'
    rw [hload']
    exact peersOnce_declared_iff hdeclared
  · intro o plan hplan
    obtain ⟨_, rfl⟩ := Network.launchPlan_eq_ok_iff.mp hplan
    have hports := nodup_p2p_of_shaped hnodes hcheck
    rw [List.forall_mem_map]
    refine forall₂_congr fun n hn => ?_
    rw [Network.values_peers]
    exact Network.nodup_addresses_iff hports
      ((identified_of_shaped hnodes).exists_node? hpeers hn)

/-- A file in which a node has the bios node twice: the network is built with both, and the node is
started with one address twice. -/
theorem peers_once_iff_of_repeated :
    ∃ (t : Topology) (net : Network) (o : LaunchOptions) (plan : List LaunchEntry),
      (build .ofFile (.ofTopology t) .leapDay .development ()).result = .ok net ∧ ¬ PeersOnce net.nodes ∧
      (net.launchPlan o).value = .ok plan ∧
      ¬ ∀ e ∈ plan, (e.values o "--p2p-peer-address").Nodup := by
  let blank : Description := ⟨none, [], [], false, none, none, []⟩
  let t : Topology := ⟨"custom_",
    [("bios", { blank with producers := ["eosio"], keys := [.development] }),
      ("node_00", { blank with peers := ["bios", "bios"] })]⟩
  let declared :=
    (t.declaredNodes ⟨"t.json"⟩ Config.ofFile.factory Config.ofFile.allocator).toOption.getD []
  obtain ⟨nodes, hdeclared, hgraph, bios, hbios, hkey⟩ : ∃ nodes,
      t.declaredNodes ⟨"t.json"⟩ Config.ofFile.factory Config.ofFile.allocator = .ok nodes ∧
      checkGraph nodes = .ok () ∧
      ∃ bios, nodes.find? (·.name == Node.biosName) = some bios ∧
        bios.firstPublicKey = some KeyPair.development.publicKey :=
    ⟨declared, by decide +kernel, by decide +kernel, declared.head (by decide +kernel),
      by decide +kernel, by decide +kernel⟩
  obtain ⟨net, rfl, hbuild⟩ : ∃ net, net.nodes = nodes ∧
      (build .ofFile (.ofTopology t) .leapDay .development ()).result = .ok net :=
    exists_build_ofFile hdeclared hgraph hbios hkey
  have hread : (FileTree.ofTopology t).readText ⟨"t.json"⟩ = some t.text := rfl
  let o : LaunchOptions := ⟨⟨"genesis.json"⟩, none, .empty⟩
  have hplan : (net.launchPlan o).value = .ok (net.nodes.map (net.launchEntry o)) :=
    Network.launchPlan_eq_ok_iff.mpr ⟨fun _ hi => List.not_mem_nil hi.1, rfl⟩
  obtain ⟨_, _, hfile, hstarted⟩ :=
    peers_once_iff .ofFile (.ofTopology t) .leapDay .development () net hbuild
  have htwice : ¬ PeersOnce net.nodes := by
    rw [hfile ⟨"t.json"⟩ t rfl (Topology.load_text hread)]
    decide
  exact ⟨t, net, o, _, hbuild, htwice, hplan, fun honce => htwice ((hstarted o _ hplan).mp honce)⟩

end Testnet
