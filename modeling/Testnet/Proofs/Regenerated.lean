import Testnet.Proofs.Genesis.Rewrite
import Testnet.Proofs.Output
import Testnet.Proofs.PortClash
import Testnet.Proofs.Shape

/-!
# Generating from what was generated

A network whose ports are told apart is built again from the topology and the genesis that were
written of it, and its files come out as they were, at whatever time that happens; only a genesis
that takes its time from the clock has the new time. All that may keep the second run from writing
the files is a directory that cannot be written into.
-/

namespace Testnet

namespace Config

/-- The configuration that takes topology and genesis from files that were written. -/
def reading (c : Config) (paths : OutputPaths) : Config :=
  { c with
    network := { c.network with shape := paths.topology.text }
    genesis := { c.genesis with path := some paths.genesis } }

end Config

/-- The output of some network can be written into a directory. -/
def Accepts (files : FileTree) (dir : Path) : Prop :=
  ∃ n plan, (writeOutput files dir n plan).2 = .ok ()

/-- A directory that accepts some output accepts every output. -/
theorem Accepts.writeOutput {files : FileTree} {dir : Path} (h : Accepts files dir) (n : Network)
    (plan : List LaunchEntry) : ∃ after, writeOutput files dir n plan = (after, .ok ()) := by
  obtain ⟨n', plan', hok⟩ := h
  rw [writeOutput_eq_layOut] at hok
  have hwrite : (Testnet.writeOutput files dir n plan).2 = .ok () := by
    rw [writeOutput_eq_layOut, hok]
  exact ⟨(Testnet.writeOutput files dir n plan).1, by rw [← hwrite]⟩

section Paths

variable {dir : Path}

theorem trim_topology (h : Text.trim dir.text = dir.text) :
    Text.trim (OutputPaths.within dir).topology.text = (OutputPaths.within dir).topology.text := by
  have hfirst : "topology.json".toList = 't' :: "opology.json".toList := rfl
  have hlast : "topology.json".toList = "topology.jso".toList ++ ['n'] := rfl
  exact Path.trim_join h hfirst (by decide) (by decide) hlast (by decide)

theorem getLast?_topology : (OutputPaths.within dir).topology.text.toList.getLast? = some 'n' := by
  obtain ⟨slash, _, hjoin⟩ := @Path.toList_join dir "topology.json" (by decide)
  have hlist : (OutputPaths.within dir).topology.text.toList =
      dir.text.toList ++ (slash ++ "topology.json".toList) := hjoin
  rw [hlist, List.getLast?_append, List.getLast?_append]
  rfl

end Paths

variable {c : Config} {files after : FileTree} {now later : Timestamp} {dir : Path} {s : Shape}
  {net : Network} {plan : List LaunchEntry}

/-- Only the indices with arguments of their own decide whether there is a launch plan. -/
theorem exists_launchPlan {o o' : LaunchOptions} (ho : o'.specific = o.specific)
    (h : (net.launchPlan o).value = .ok plan) :
    ∃ plan', (net.launchPlan o').value = .ok plan' := by
  unfold Network.launchPlan at h ⊢
  rw [ho]
  split at h
  · cases h
  · exact ⟨_, rfl⟩

/-- The shape of the second run is the file that the first has written. -/
theorem resolve_written (htrim : Text.trim dir.text = dir.text)
    (hwritten : Written after dir net plan) :
    Shape.resolve after (OutputPaths.within dir).topology.text =
      .ok (.custom (OutputPaths.within dir).topology) :=
  Shape.resolve_of_isFile (trim_topology htrim) getLast?_topology hwritten.topology.isFile

theorem check_reading (htrim : Text.trim dir.text = dir.text) (h : c.check = .ok ()) :
    (c.reading (.within dir)).check = .ok () := by
  obtain ⟨hname, _, hrest⟩ := Config.check_eq_ok_iff.mp h
  refine Config.check_eq_ok_iff.mpr ⟨hname, ?_, hrest⟩
  show ¬ (Text.trim (OutputPaths.within dir).topology.text).isEmpty = true
  rw [trim_topology htrim, String.isEmpty_iff]
  intro hempty
  have hlast := @getLast?_topology dir
  rw [hempty] at hlast
  cases hlast

/-- The network is built again, exactly as it was. -/
theorem build_reading (hclock : c.genesisOverrides.AsksClock → later = now)
    (hbuild : (build c files now .development ()).result = .ok net)
    (hshape : Shape.resolve files c.network.shape = .ok s) (hrule : s.isCustom = false)
    (hports : (net.nodes.flatMap Node.listens).Nodup)
    (hwhole : ∀ g, (Genesis.base files c.genesis.path).value = .ok g →
      ∀ f ∈ g.extra, f.2.IsWhole)
    (htrim : Text.trim dir.text = dir.text) (hwritten : Written after dir net plan) :
    (build (c.reading (.within dir)) after later .development ()).result = .ok net := by
  obtain ⟨hcheck, shape, bios, hresolve, hnodes, hgraph, hbios, hgenesis, hname⟩ :=
    build_eq_ok_iff.mp hbuild
  rw [hshape] at hresolve
  cases hresolve
  rw [shapedNodes_of_rule hrule] at hnodes
  have hdeclared : net.topology.declaredNodes (OutputPaths.within dir).topology
      c.factory c.allocator = .ok net.nodes := by
    obtain ⟨_, hsame⟩ | ⟨hclash, _⟩ := declaredNodes_generated hnodes hgraph net.name
      (OutputPaths.within dir).topology
    · exact hsame
    · exact absurd hports hclash
  exact build_of_text (check_reading htrim hcheck) (resolve_written htrim hwritten)
    hwritten.topology.readText hdeclared hgraph hbios
    (Genesis.compose_again hclock hgenesis hwhole hwritten.genesis.exists? hwritten.genesis.readText) hname

/-- Where the network can be built and planned, generating succeeds exactly in the directories that
accept its output. -/
theorem accepts_iff_exists_generate (hbuild : (build c files now .development ()).result = .ok net)
    (hplan : (net.launchPlan (c.launchOptions dir)).value = .ok plan) :
    Accepts files dir ↔ ∃ after paths, (generate c files now dir).value = (after, .ok paths) := by
  constructor
  · intro haccepts
    obtain ⟨after, hwrite⟩ := haccepts.writeOutput net plan
    exact ⟨after, _, generate_eq_ok_iff.mpr ⟨net, plan, hbuild, hplan, hwrite, rfl⟩⟩
  · intro hgenerated
    obtain ⟨after, paths, hgenerate⟩ := hgenerated
    obtain ⟨n, p, _, _, hwrite, _⟩ := generate_eq_ok_iff.mp hgenerate
    exact ⟨n, p, by rw [hwrite]⟩

/-- Generating once more, at whatever time, from the topology and the genesis that were written gives
the same two files again, in whatever directory accepts them, and in the same directory, which does,
the same launch plan as well. Where the clock is asked it has to show the same. -/
theorem generate_reading (c : Config) (files after : FileTree) (now later : Timestamp) (dir : Path)
    (paths : OutputPaths) (s : Shape) (net : Network)
    (hclock : c.genesisOverrides.AsksClock → later = now) (hshape : Shape.resolve files c.network.shape = .ok s)
    (hrule : s.isCustom = false)
    (hgenerate : (generate c files now dir).value = (after, .ok paths))
    (hbuild : (build c files now .development ()).result = .ok net)
    (hports : (net.nodes.flatMap Node.listens).Nodup)
    (hwhole : ∀ g, (Genesis.base files c.genesis.path).value = .ok g →
      ∀ f ∈ g.extra, f.2.IsWhole)
    (htrim : Text.trim dir.text = dir.text) :
    Accepts after dir ∧ ∀ dir₂,
      (Accepts after dir₂ ↔ ∃ after₂ paths₂,
        (generate (c.reading paths) after later dir₂).value = (after₂, .ok paths₂)) ∧
      ∀ after₂ paths₂, (generate (c.reading paths) after later dir₂).value = (after₂, .ok paths₂) →
        (∃ text, after.readText paths.topology = some text ∧
          after₂.readText paths₂.topology = some text) ∧
        (∃ text, after.readText paths.genesis = some text ∧
          after₂.readText paths₂.genesis = some text) ∧
        (dir₂ = dir → ∃ text, after.readText paths.launchPlan = some text ∧
          after₂.readText paths₂.launchPlan = some text) := by
  obtain ⟨net', plan, hbuilt, hplan, hwrite, rfl⟩ := generate_eq_ok_iff.mp hgenerate
  rw [hbuild] at hbuilt
  cases hbuilt
  have hwritten := writeOutput_eq_ok hwrite
  have hagain := build_reading hclock hbuild hshape hrule hports hwhole htrim hwritten
  refine ⟨⟨net, plan, writeOutput_of_written hwritten net plan⟩, fun dir₂ => ⟨?_, ?_⟩⟩
  · obtain ⟨plan₂, hplan₂⟩ := @exists_launchPlan net plan (c.launchOptions dir)
      ((c.reading (.within dir)).launchOptions dir₂) rfl hplan
    exact accepts_iff_exists_generate hagain hplan₂
  · intro after₂ paths₂ hgenerate₂
    obtain ⟨net₂, plan₂, hbuild₂, hplan₂, hwrite₂, rfl⟩ := generate_eq_ok_iff.mp hgenerate₂
    rw [hagain] at hbuild₂
    cases hbuild₂
    have hwritten₂ := writeOutput_eq_ok hwrite₂
    refine ⟨⟨_, hwritten.topology.readText, hwritten₂.topology.readText⟩,
      ⟨_, hwritten.genesis.readText, hwritten₂.genesis.readText⟩, fun hdir => ?_⟩
    subst hdir
    have hsame : plan = plan₂ := by
      have hvalue : (net.launchPlan (c.launchOptions dir₂)).value = .ok plan₂ := hplan₂
      rw [hplan] at hvalue
      cases hvalue
      rfl
    subst hsame
    exact ⟨_, hwritten.launchPlan.readText, hwritten₂.launchPlan.readText⟩

section Line

/-- Five nodes in a line, of which three have accounts and the last two are not started, with a
genesis file that says more than has a meaning, a time above it, and arguments of their own. -/
def lineConfig : Config where
  general := .standard
  network :=
    { Config.Layout.standard with
      shape := "line", totalNodes := 5, producerNodes := 3, producers := 4, unstartedNodes := 2 }
  genesis := ⟨some ⟨"g.json"⟩, some "2020-1-1T 0:0:0.5", some 7, none⟩
  nodes := ⟨some "--verbose", .ofList [(1, "--max-clients 5")]⟩

/-- They are built and launched, and their ports are told apart. -/
theorem exists_build_lineConfig : ∃ net,
    (build lineConfig Genesis.foreignFiles .leapDay .development ()).result = .ok net ∧
    (net.nodes.flatMap Node.listens).Nodup ∧
    ∃ plan, (net.launchPlan (lineConfig.launchOptions ⟨"out"⟩)).value = .ok plan := by
  obtain ⟨nodes, hnodes, hgraph, hports, hown, hknown⟩ : ∃ nodes,
      (generatedNodes lineConfig .line .development ()).result = .ok nodes ∧
      Peering.checkGraph nodes = .ok () ∧ (nodes.flatMap Node.listens).Nodup ∧
      (nodes.find? (·.name == Node.biosName)).bind Node.firstPublicKey =
        some KeyPair.development.publicKey ∧
      lineConfig.nodes.specific.entries.find?
        (fun e => (nodes.find? (·.index == e.1)).isNone) = none :=
    exists_of_any (by decide +kernel)
  obtain ⟨bios, hbios, hkey⟩ := Option.bind_eq_some_iff.mp hown
  have hcheck : lineConfig.check = .ok () := eq_ok_of_isSome (by decide +kernel)
  have htime : Genesis.normalTimestamp "2020-1-1T 0:0:0.5" = .ok "2020-01-01T00:00:00.500" := by
    decide +kernel
  have hclock : ¬ lineConfig.genesisOverrides.AsksClock := by decide
  have hshaped : (shapedNodes lineConfig Genesis.foreignFiles .development () .line).result =
      .ok nodes := hnodes
  obtain ⟨net, rfl, hbuild⟩ : ∃ net : Network, net.nodes = nodes ∧
      (build lineConfig Genesis.foreignFiles .leapDay .development ()).result = .ok net :=
    ⟨_, rfl, build_of_shaped hcheck rfl hshaped hgraph hbios hkey
      (Genesis.base_of_load Genesis.load_foreignFiles)
      ((Genesis.Overrides.timestamp_of_not_asksClock hclock _).trans htime)⟩
  have hnone : (lineConfig.launchOptions ⟨"out"⟩).specific.entries.find?
      (fun e => (net.nodeByIndex? e.1).isNone) = none := hknown
  refine ⟨net, hbuild, hports, ?_⟩
  unfold Network.launchPlan
  rw [hnone]
  exact ⟨_, rfl⟩

end Line

/-- The nodes in a line are generated into a directory, and from there into it once more on another
day. -/
theorem generate_reading_of_line :
    ∃ (after after₂ : FileTree) (later : Timestamp) (paths : OutputPaths)
      (topology genesis plan : String), later ≠ .leapDay ∧
      (generate lineConfig Genesis.foreignFiles .leapDay ⟨"out"⟩).value = (after, .ok paths) ∧
      (generate (lineConfig.reading paths) after later ⟨"out"⟩).value = (after₂, .ok paths) ∧
      after.readText paths.topology = some topology ∧
      after₂.readText paths.topology = some topology ∧
      after.readText paths.genesis = some genesis ∧ after₂.readText paths.genesis = some genesis ∧
      after.readText paths.launchPlan = some plan ∧
      after₂.readText paths.launchPlan = some plan := by
  let later : Timestamp := ⟨2024, 3, 1, 0, 0, 0, 0⟩
  have hclock : ¬ lineConfig.genesisOverrides.AsksClock := by decide
  have hwhole : ∀ g, (Genesis.base Genesis.foreignFiles (some ⟨"g.json"⟩)).value = .ok g →
      ∀ f ∈ g.extra, f.2.IsWhole := by
    intro g hg
    cases (Genesis.base_of_load Genesis.load_foreignFiles).symm.trans hg
    exact Genesis.isWhole_foreignGenesis
  have hempty : Accepts Genesis.foreignFiles ⟨"out"⟩ :=
    ⟨⟨"", [], .standard⟩, [], by decide +kernel⟩
  obtain ⟨net, hbuild, hports, plan, hplan⟩ := exists_build_lineConfig
  obtain ⟨after, paths, hgenerate⟩ := (accepts_iff_exists_generate hbuild hplan).mp hempty
  obtain ⟨haccepts, hagain⟩ := generate_reading lineConfig Genesis.foreignFiles after .leapDay later
    ⟨"out"⟩ paths .line net (absurd · hclock) rfl rfl hgenerate hbuild hports hwhole rfl
  obtain ⟨hiff, hsame⟩ := hagain ⟨"out"⟩
  obtain ⟨after₂, paths₂, hgenerate₂⟩ := hiff.mp haccepts
  obtain ⟨⟨topology, htopology, htopology₂⟩, ⟨genesis, hgenesis, hgenesis₂⟩, hplans⟩ :=
    hsame after₂ paths₂ hgenerate₂
  obtain ⟨text, htext, htext₂⟩ := hplans rfl
  obtain ⟨_, _, _, _, _, rfl⟩ := generate_eq_ok_iff.mp hgenerate
  obtain ⟨_, _, _, _, _, rfl⟩ := generate_eq_ok_iff.mp hgenerate₂
  exact ⟨after, after₂, later, _, topology, genesis, text, by decide, hgenerate, hgenerate₂,
    htopology, htopology₂, hgenesis, hgenesis₂, htext, htext₂⟩

end Testnet
