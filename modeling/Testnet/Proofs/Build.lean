import Testnet.Proofs.Genesis.Compose
import Testnet.Proofs.Run
import Testnet.Proofs.Topology

/-!
# Stages of a build

What a network that was built has gone through, stage by stage. Each statement is an equivalence:
it takes a build apart, and it puts one together from stages that end well. The time at which a
network is built shows in the timestamp of its genesis at most.
-/

namespace Testnet

variable {σ : Type} {c : Config} {files : FileTree} {now : Timestamp} {source : KeySource σ}
  {state : σ}

/-- Nodes made by a rule have been made, bound and connected, one after the other. -/
theorem generatedNodes_eq_ok_iff {s : Shape} {nodes : List Node} :
    (generatedNodes c s source state).result = .ok nodes ↔
      c.plan.check = .ok () ∧ (s.check c.plan).value = .ok () ∧
      ∃ fresh owners,
        (c.factory.createAll c.network.totalNodes c.allocator).value = .ok fresh ∧
        (Binding.bind c.plan source state fresh).value.outcome = .ok owners ∧
        (Peering.connect s c.network.producers
          (Binding.bind c.plan source state fresh).value.nodes).value = ⟨nodes, .ok ()⟩ := by
  simp only [generatedNodes, Run.result_bind_eq_ok_iff, Run.result_ofExcept, Run.result_ofLogged,
    Run.result_lift, Run.result_pure, mapError_eq_ok_iff, Except.ok.injEq]
  constructor
  · intro hgiven
    obtain ⟨_, hplan, _, hshape, fresh, hfresh, _, rfl, owners, howners, connected, rfl, _,
      houtcome, rfl⟩ := hgiven
    exact ⟨hplan, hshape, fresh, owners, hfresh, howners, by rw [← houtcome]⟩
  · intro hgiven
    obtain ⟨hplan, hshape, fresh, owners, hfresh, howners, hconnected⟩ := hgiven
    refine ⟨(), hplan, (), hshape, fresh, hfresh, _, rfl, owners, howners, _, rfl, (), ?_, ?_⟩
    · rw [hconnected]
    · rw [hconnected]

/-- Nodes that a file declares are as the declaration says. -/
theorem loadedNodes_eq_ok_iff {path : Path} {nodes : List Node} :
    (loadedNodes c files path).result = .ok nodes ↔
      ∃ t, Topology.load files path = .ok t ∧
        t.declaredNodes path c.factory c.allocator = .ok nodes := by
  simp only [loadedNodes, Run.result_bind_eq_ok_iff, Run.result_ofExcept, Run.result_lift,
    Run.result_say, Run.result_pure, mapError_eq_ok_iff, Except.ok.injEq]
  constructor
  · intro hgiven
    obtain ⟨_, _, t, ht, _, hnodes, _, _, rfl⟩ := hgiven
    exact ⟨t, ht, hnodes⟩
  · intro hgiven
    obtain ⟨t, ht, hnodes⟩ := hgiven
    exact ⟨(), trivial, t, ht, nodes, hnodes, (), trivial, rfl⟩

/-- All that comes of a topology file once it has been read. -/
theorem result_loadedNodes {path : Path} {t : Topology} (h : Topology.load files path = .ok t) :
    (loadedNodes c files path).result =
      (t.declaredNodes path c.factory c.allocator).mapError (Failure.ofStop .rejected) := by
  unfold loadedNodes
  rw [Run.result_bind_of_ok (Run.result_say _ _),
    Run.result_bind_of_ok (Run.result_ofExcept_of_ok h), Run.result_bind, Run.result_ofExcept]
  cases t.declaredNodes path c.factory c.allocator <;> rfl

/-- The nodes of a shape, by its rule or by its file. -/
def shapedNodes (c : Config) (files : FileTree) (source : KeySource σ) (state : σ) :
    Shape → Run (List Node)
  | .custom path => loadedNodes c files path
  | rule => generatedNodes c rule source state

theorem shapedNodes_of_rule {s : Shape} (hs : s.isCustom = false) :
    shapedNodes c files source state s = generatedNodes c s source state := by
  cases s with
  | custom => cases hs
  | _ => rfl

/-- The bios node is looked for by its name. -/
theorem findBios_eq_ok_iff {nodes : List Node} {bios : Node} :
    ((nodes.find? (·.name == Node.biosName)).elim (Except.error ()) Except.ok) = .ok bios ↔
      nodes.find? (·.name == Node.biosName) = some bios := by
  cases nodes.find? (·.name == Node.biosName) <;> simp

/-- What a build does with the nodes of a shape. -/
def finishBuild (c : Config) (files : FileTree) (now : Timestamp) (shape : Shape)
    (nodes : List Node) : Run Network := do
  Run.ofExcept .graph (Peering.checkGraph nodes)
  let bios ←
    Run.ofExcept (fun _ => .noBios)
      ((nodes.find? (·.name == Node.biosName)).elim (Except.error ()) Except.ok)
  let genesis ←
    Run.ofLogged Failure.ofGenesis
      (Genesis.compose files c.genesis.path bios c.genesisOverrides now)
  Run.say .info ("Built network '" ++ c.general.name ++ "' as " ++ shape.text ++ " with " ++
    toString nodes.length ++ " nodes")
  return ⟨c.general.name, nodes, genesis⟩

theorem build_eq :
    build c files now source state = (do
      Run.ofExcept (Failure.ofStop .config) c.check
      let shape ← Run.ofExcept .rejected (Shape.resolve files c.network.shape)
      let nodes ← shapedNodes c files source state shape
      finishBuild c files now shape nodes) := by
  unfold build finishBuild
  refine bind_congr fun _ => bind_congr fun shape => ?_
  cases shape <;> simp only [shapedNodes]

/-- A build that has come to its nodes goes on with them. -/
theorem result_build_of_shaped {shape : Shape} {nodes : List Node} (hcheck : c.check = .ok ())
    (hshape : Shape.resolve files c.network.shape = .ok shape)
    (hnodes : (shapedNodes c files source state shape).result = .ok nodes) :
    (build c files now source state).result = (finishBuild c files now shape nodes).result := by
  rw [build_eq, Run.result_bind_of_ok (Run.result_ofExcept_of_ok hcheck),
    Run.result_bind_of_ok (Run.result_ofExcept_of_ok hshape), Run.result_bind_of_ok hnodes]

theorem finishBuild_eq_ok_iff {shape : Shape} {nodes : List Node} {net : Network} :
    (finishBuild c files now shape nodes).result = .ok net ↔
      Peering.checkGraph nodes = .ok () ∧ ∃ bios genesis,
        nodes.find? (·.name == Node.biosName) = some bios ∧
        (Genesis.compose files c.genesis.path bios c.genesisOverrides now).value = .ok genesis ∧
        net = ⟨c.general.name, nodes, genesis⟩ := by
  simp only [finishBuild, Run.result_bind_eq_ok_iff, Run.result_ofExcept, Run.result_ofLogged,
    Run.result_say, Run.result_pure, mapError_eq_ok_iff, Except.ok.injEq, findBios_eq_ok_iff]
  constructor
  · intro hgiven
    obtain ⟨_, hgraph, bios, hbios, genesis, hgenesis, _, _, rfl⟩ := hgiven
    exact ⟨hgraph, bios, genesis, hbios, hgenesis, rfl⟩
  · intro hgiven
    obtain ⟨hgraph, bios, genesis, hbios, hgenesis, rfl⟩ := hgiven
    exact ⟨(), hgraph, bios, hbios, genesis, hgenesis, (), trivial, rfl⟩

/-- Once there is a graph with a bios node, all that can still go wrong is the genesis. -/
theorem result_finishBuild {shape : Shape} {nodes : List Node} {bios : Node}
    (hgraph : Peering.checkGraph nodes = .ok ())
    (hbios : nodes.find? (·.name == Node.biosName) = some bios) :
    (finishBuild c files now shape nodes).result =
      ((Genesis.compose files c.genesis.path bios c.genesisOverrides now).value.mapError
        Failure.ofGenesis).map fun genesis => ⟨c.general.name, nodes, genesis⟩ := by
  have hfound := findBios_eq_ok_iff.mpr hbios
  unfold finishBuild
  rw [Run.result_bind_of_ok (Run.result_ofExcept_of_ok hgraph),
    Run.result_bind_of_ok (Run.result_ofExcept_of_ok hfound), Run.result_bind, Run.result_ofLogged]
  cases (Genesis.compose files c.genesis.path bios c.genesisOverrides now).value <;> rfl

/-- A network is built from nodes that form a graph and a genesis for their bios node. -/
theorem build_eq_ok_iff {net : Network} :
    (build c files now source state).result = .ok net ↔
      c.check = .ok () ∧ ∃ shape bios,
        Shape.resolve files c.network.shape = .ok shape ∧
        (shapedNodes c files source state shape).result = .ok net.nodes ∧
        Peering.checkGraph net.nodes = .ok () ∧
        net.bios? = some bios ∧
        (Genesis.compose files c.genesis.path bios c.genesisOverrides now).value = .ok net.genesis ∧
        net.name = c.general.name := by
  simp only [build_eq, Run.result_bind_eq_ok_iff, Run.result_ofExcept, mapError_eq_ok_iff,
    finishBuild_eq_ok_iff]
  constructor
  · intro hgiven
    obtain ⟨_, hcheck, shape, hshape, nodes, hnodes, hgraph, bios, genesis, hbios, hgenesis,
      rfl⟩ := hgiven
    exact ⟨hcheck, shape, bios, hshape, hnodes, hgraph, hbios, hgenesis, rfl⟩
  · intro hgiven
    obtain ⟨hcheck, shape, bios, hshape, hnodes, hgraph, hbios, hgenesis, hname⟩ := hgiven
    refine ⟨(), hcheck, shape, hshape, net.nodes, hnodes, hgraph, bios, net.genesis, hbios,
      hgenesis, ?_⟩
    rw [← hname]

/-- A network as it would have been built at another time. -/
def Network.restamp (n : Network) (o : Genesis.Overrides) (later : Timestamp) : Network :=
  { n with genesis := o.restamp later n.genesis }

theorem result_finishBuild_later (c : Config) (files : FileTree) (now later : Timestamp)
    (shape : Shape) (nodes : List Node) : (finishBuild c files later shape nodes).result =
      (·.restamp c.genesisOverrides later) <$> (finishBuild c files now shape nodes).result := by
  simp only [finishBuild, Run.result_bind, Run.result_ofLogged, map_bind]
  refine bind_congr fun _ => bind_congr fun bios => ?_
  rw [Genesis.value_compose_later files c.genesis.path bios c.genesisOverrides now later]
  cases (Genesis.compose files c.genesis.path bios c.genesisOverrides now).value <;> rfl

/-- At another time the same network is built, with another timestamp in its genesis at most; and
what goes wrong, goes wrong at any time. -/
theorem result_build_later (c : Config) (files : FileTree) (now later : Timestamp)
    (source : KeySource σ) (state : σ) : (build c files later source state).result =
      (·.restamp c.genesisOverrides later) <$> (build c files now source state).result := by
  simp only [build_eq, Run.result_bind, map_bind]
  exact bind_congr fun _ => bind_congr fun shape => bind_congr fun nodes =>
    result_finishBuild_later c files now later shape nodes

/-- A file that holds the text of a topology builds what the topology declares. -/
theorem build_of_text {t : Topology} {path : Path} {bios : Node} {net : Network}
    (hcheck : c.check = .ok ()) (hshape : Shape.resolve files c.network.shape = .ok (.custom path))
    (htext : files.readText path = some t.text)
    (hdeclared : t.declaredNodes path c.factory c.allocator = .ok net.nodes)
    (hgraph : Peering.checkGraph net.nodes = .ok ()) (hbios : net.bios? = some bios)
    (hgenesis : (Genesis.compose files c.genesis.path bios c.genesisOverrides now).value =
      .ok net.genesis) (hname : net.name = c.general.name) :
    (build c files now source state).result = .ok net := by
  have hnodes : (shapedNodes c files source state (.custom path)).result = .ok net.nodes :=
    loadedNodes_eq_ok_iff.mpr ⟨t, Topology.load_text htext, hdeclared⟩
  exact build_eq_ok_iff.mpr ⟨hcheck, _, bios, hshape, hnodes, hgraph, hbios, hgenesis, hname⟩

/-- The nodes of a shape and a genesis to start from make a network, if the nodes are a graph, the
bios node has a key and there is a timestamp. -/
theorem build_of_shaped {shape : Shape} {nodes : List Node} {bios : Node} {g : Genesis}
    {key timestamp : String} (hcheck : c.check = .ok ())
    (hshape : Shape.resolve files c.network.shape = .ok shape)
    (hnodes : (shapedNodes c files source state shape).result = .ok nodes)
    (hgraph : Peering.checkGraph nodes = .ok ())
    (hbios : nodes.find? (·.name == Node.biosName) = some bios)
    (hkey : bios.firstPublicKey = some key)
    (hbase : (Genesis.base files c.genesis.path).value = .ok g)
    (htimestamp : c.genesisOverrides.timestamp now g.initialTimestamp = .ok timestamp) :
    (build c files now source state).result = .ok ⟨c.general.name, nodes, timestamp, key,
      Genesis.overrideLimits g.limits c.genesisOverrides, g.extra⟩ := by
  have hgenesis := Genesis.compose_eq_ok_iff.mpr
    ⟨g, hbase, Genesis.finish_eq_ok_iff.mpr ⟨key, timestamp, hkey, htimestamp, rfl⟩⟩
  exact build_eq_ok_iff.mpr
    ⟨hcheck, shape, bios, hshape, hnodes, hgraph, hbios, hgenesis, rfl⟩

/-- The nodes of a network whose shape is a rule are made by the rule. -/
theorem generatedNodes_of_build {s : Shape} {net : Network}
    (hshape : Shape.resolve files c.network.shape = .ok s) (hrule : s.isCustom = false)
    (hbuild : (build c files now source state).result = .ok net) :
    (generatedNodes c s source state).result = .ok net.nodes := by
  obtain ⟨_, shape, _, hresolve, hnodes, _⟩ := build_eq_ok_iff.mp hbuild
  have hsame : s = shape := Except.ok.inj (hshape.symm.trans hresolve)
  rwa [← hsame, shapedNodes_of_rule hrule] at hnodes

/-- A genesis from standard values with the time of the clock. -/
def Config.GenesisSource.clocked : Config.GenesisSource :=
  { Config.GenesisSource.standard with initialTimestamp := some "now" }

/-- Some time on a leap day. -/
def Timestamp.leapDay : Timestamp := ⟨2024, 2, 29, 23, 59, 59, 987654321⟩

/-- The standard configuration, with a topology file in the place of a rule. -/
def Config.ofFile : Config :=
  { Config.standard with network := { Config.Layout.standard with shape := "t.json" } }

/-- Files with a topology where this configuration looks for it. -/
def FileTree.ofTopology (t : Topology) : FileTree := ⟨[], [(["t.json"], .file (.text t.text))]⟩

/-- What a file declares is built, if it is a graph and the bios node has a key. -/
theorem exists_build_ofFile {t : Topology} {nodes : List Node} {bios : Node} {key : String}
    (hdeclared : t.declaredNodes ⟨"t.json"⟩ Config.ofFile.factory Config.ofFile.allocator =
      .ok nodes)
    (hgraph : Peering.checkGraph nodes = .ok ())
    (hbios : nodes.find? (·.name == Node.biosName) = some bios)
    (hkey : bios.firstPublicKey = some key) :
    ∃ net, net.nodes = nodes ∧ (build .ofFile (.ofTopology t) now source state).result = .ok net := by
  have hcheck : Config.ofFile.check = .ok () := eq_ok_of_isSome (by decide +kernel)
  -- Whatever text the file holds, it is found and its path is no rule.
  have hshape (text : String) : Shape.resolve ⟨[], [(["t.json"], .file (.text text))]⟩ "t.json" =
      .ok (.custom ⟨"t.json"⟩) := rfl
  have hread (text : String) :
      FileTree.readText ⟨[], [(["t.json"], .file (.text text))]⟩ ⟨"t.json"⟩ = some text := rfl
  have hclock : ¬ Config.ofFile.genesisOverrides.AsksClock := by decide
  obtain ⟨timestamp, hnormal⟩ : ∃ timestamp, Genesis.normalTimestamp
      (Config.ofFile.genesisOverrides.initialTimestamp.getD Genesis.standard.initialTimestamp) =
        .ok timestamp :=
    exists_of_isSome (by decide +kernel)
  have htimestamp : Config.ofFile.genesisOverrides.timestamp now
      Genesis.standard.initialTimestamp = .ok timestamp :=
    (Genesis.Overrides.timestamp_of_not_asksClock hclock _).trans hnormal
  have hnodes : (shapedNodes .ofFile (.ofTopology t) source state (.custom ⟨"t.json"⟩)).result =
      .ok nodes := loadedNodes_eq_ok_iff.mpr ⟨t, Topology.load_text (hread t.text), hdeclared⟩
  exact ⟨_, rfl,
    build_of_shaped hcheck (hshape t.text) hnodes hgraph hbios hkey rfl htimestamp⟩

end Testnet
