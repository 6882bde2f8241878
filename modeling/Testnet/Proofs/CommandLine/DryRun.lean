import Testnet.CommandLine.Run
import Testnet.Proofs.CommandLine.Flag
import Testnet.Proofs.Launch.Plan
import Testnet.Proofs.Regenerated

/-!
# Dry runs

A dry run builds the same network as a run and prints the topology that the run would write. Both
happen at times of their own, which no topology shows. But a dry run makes no launch plan: arguments
for a node that does not exist go through, and the run refuses them.
-/

namespace Testnet.CommandLine

/-- The directory for the files of an invocation. -/
def Invocation.directory (i : Invocation) : Path := i.output.getD standardOutput

theorem failureCode_ne_success (why : Failure) : failureCode why ≠ success := by
  cases why <;> exact Nat.succ_ne_zero _

section Network

variable {c : Config} {files : FileTree} {now : Timestamp} {dir : Path} {n : Network}

/-- What is printed does not depend on the time. -/
theorem preview_later (c : Config) (files : FileTree) (now later : Timestamp) :
    preview c files later = preview c files now := by
  have hlater := result_build_later c files now later .development ()
  unfold preview
  rw [show (build c files later .development ()).run.value = _ from hlater]
  unfold Run.result
  cases (build c files now .development ()).run.value <;> rfl

theorem preview_of_build (h : (build c files now .development ()).result = .ok n) :
    preview c files now = ⟨success, n.topology.text ++ "\n", files⟩ := by
  unfold preview
  rw [show (build c files now .development ()).run.value = .ok n from h]

theorem preview_of_build_error {why : Failure}
    (h : (build c files now .development ()).result = .error why) :
    preview c files now = .failure files why := by
  unfold preview
  rw [show (build c files now .development ()).run.value = .error why from h]

theorem produce_of_prepare_error {why : Failure}
    (h : (prepare c files now dir).result = .error why) :
    produce c files now dir = .failure files why := by
  unfold produce
  rw [value_generate, h]
  rfl

theorem produce_of_build_error {why : Failure}
    (h : (build c files now .development ()).result = .error why) :
    produce c files now dir = .failure files why := by
  apply produce_of_prepare_error
  rw [prepare, Run.result_bind, h]
  rfl

theorem produce_of_launchPlan_error (hbuild : (build c files now .development ()).result = .ok n)
    {why : Rejection} (hplan : (n.launchPlan (c.launchOptions dir)).value = .error why) :
    produce c files now dir = .failure files (.rejected why) := by
  apply produce_of_prepare_error
  rw [prepare, Run.result_bind_of_ok hbuild, Run.result_bind, Run.result_ofLogged, hplan]
  rfl

/-- Where its output is accepted, a network with a plan is written. -/
theorem produce_of_launchPlan (hbuild : (build c files now .development ()).result = .ok n)
    {plan : List LaunchEntry} (hplan : (n.launchPlan (c.launchOptions dir)).value = .ok plan)
    (haccepts : Accepts files dir) : ∃ after, produce c files now dir = ⟨success, "", after⟩ ∧
      after.readText (OutputPaths.within dir).topology = some n.topology.text := by
  obtain ⟨after, hwrite⟩ := haccepts.writeOutput n plan
  have hgenerate := generate_eq_ok_iff.mpr ⟨n, plan, hbuild, hplan, hwrite, rfl⟩
  refine ⟨after, ?_, (writeOutput_eq_ok hwrite).topology.readText⟩
  unfold produce
  rw [hgenerate]

end Network

/-- An index with arguments of its own that no node of the network has that an invocation builds.
The time at which it is built does not matter. -/
def Astray (files : FileTree) (i : Invocation) (index : Int32) : Prop :=
  ∃ c now n, i.configuration files = .ok c ∧ (build c files now .development ()).result = .ok n ∧
    n.Stray (c.launchOptions i.directory) index

section Invocation

variable {files : FileTree} {now : Timestamp} {i : Invocation}

theorem not_astray_of_error {why : Failure} (h : i.configuration files = .error why)
    (index : Int32) : ¬ Astray files i index := by
  intro hastray
  obtain ⟨_, _, _, hc, _⟩ := hastray
  cases h.symm.trans hc

theorem astray_iff {c : Config} (h : i.configuration files = .ok c) (now : Timestamp)
    {index : Int32} : Astray files i index ↔
      ∃ n, (build c files now .development ()).result = .ok n ∧
        n.Stray (c.launchOptions i.directory) index := by
  constructor
  · intro hastray
    obtain ⟨c', earlier, n, hc, hn, hstray⟩ := hastray
    cases h.symm.trans hc
    refine ⟨n.restamp c.genesisOverrides now, ?_, hstray⟩
    rw [result_build_later c files earlier now, hn]
    rfl
  · intro hstray
    obtain ⟨n, hn, hstray⟩ := hstray
    exact ⟨c, now, n, h, hn, hstray⟩

theorem run_of_configuration_error {why : Failure} (h : i.configuration files = .error why) :
    i.run files now = .failure files why := by
  rw [Invocation.run, h]

theorem run_of_configuration {c : Config} (h : i.configuration files = .ok c)
    (hi : i.dryRun = false) : i.run files now = produce c files now i.directory := by
  rw [Invocation.run, h]
  dsimp only
  rw [hi]
  rfl

theorem dry_run_of_configuration {c : Config} (h : i.configuration files = .ok c) :
    i.dry.run files now = preview c files now := by
  rw [Invocation.run, show i.dry.configuration files = .ok c from h]
  rfl

end Invocation

/-- Both ways to run an invocation, each at its own time. Either both fail in the same way, or both
succeed and what is printed is what is written, or the dry run succeeds alone and an index is
astray. -/
theorem run_cases {files : FileTree} {i : Invocation} (now later : Timestamp)
    (hi : i.dryRun = false) (haccepts : Accepts files i.directory) :
    (∃ why, i.run files now = .failure files why ∧ i.dry.run files later = .failure files why ∧
      ∀ index, ¬ Astray files i index) ∨
    (∃ after text, i.run files now = ⟨success, "", after⟩ ∧
      i.dry.run files later = ⟨success, text ++ "\n", files⟩ ∧
      after.readText (OutputPaths.within i.directory).topology = some text ∧
      ∀ index, ¬ Astray files i index) ∨
    (∃ text index, i.run files now = ⟨failed, "", files⟩ ∧
      i.dry.run files later = ⟨success, text ++ "\n", files⟩ ∧ Astray files i index) := by
  cases hconfig : i.configuration files with
  | error why =>
    exact .inl ⟨why, run_of_configuration_error hconfig, run_of_configuration_error hconfig,
      not_astray_of_error hconfig⟩
  | ok c =>
  simp only [astray_iff hconfig now]
  rw [run_of_configuration hconfig hi, dry_run_of_configuration hconfig,
    preview_later c files now later]
  cases hbuild : (build c files now .development ()).result with
  | error why =>
    refine .inl ⟨why, produce_of_build_error hbuild, preview_of_build_error hbuild, ?_⟩
    rintro index ⟨n, hn, _⟩
    cases hn
  | ok n =>
  rw [preview_of_build hbuild]
  obtain ⟨index, hplan, hstray, _⟩ | ⟨hplan, hnone⟩ :=
    @Network.launchPlan_cases n (c.launchOptions i.directory)
  · exact .inr (.inr ⟨_, index, produce_of_launchPlan_error hbuild hplan, rfl, n, rfl, hstray⟩)
  · obtain ⟨after, hproduce, htext⟩ := produce_of_launchPlan hbuild hplan haccepts
    refine .inr (.inl ⟨after, _, hproduce, rfl, htext, ?_⟩)
    rintro index ⟨n', hn, hstray⟩
    cases hn
    exact hnone index hstray

/-- What a dry run says about the run from the same files, into a directory that accepts its output,
whenever each of them happens. The run succeeds exactly if the dry run does and no index is astray,
and then the dry run prints the topology that the run writes. If the dry run fails, the run fails in
the same way. But if an index is astray the dry run succeeds, and the run fails without writing
anything. -/
theorem dry_run_foretells (help : String) (files : FileTree) (now later : Timestamp)
    (arguments flagged : List String) (hflagged : Flagged arguments flagged) :
    ((∀ i, read arguments ≠ .run i) →
      run help files now arguments = run help files later flagged) ∧
    ∀ i, read arguments = .run i → Accepts files i.directory →
      ((run help files now arguments).code = success ↔
        (run help files later flagged).code = success ∧ ∀ index, ¬ Astray files i index) ∧
      ((run help files now arguments).code = success → ∃ text,
        (run help files now arguments).files.readText
          (OutputPaths.within i.directory).topology = some text ∧
        run help files later flagged = ⟨success, text ++ "\n", files⟩) ∧
      ((run help files later flagged).code ≠ success →
        run help files now arguments = run help files later flagged) ∧
      ((∃ index, Astray files i index) →
        (run help files later flagged).code = success ∧
        run help files now arguments = ⟨failed, "", files⟩) := by
  obtain ⟨hread, hundry⟩ := hflagged.read
  constructor
  · intro hother
    rw [Request.dry_of_ne_run hother] at hread
    rw [run, run, hread]
    cases hrequest : read arguments with
    | run i => exact absurd hrequest (hother i)
    | _ => rfl
  · intro i hi haccepts
    have hrun : run help files now arguments = i.run files now := by rw [run, hi]
    have hdry : run help files later flagged = i.dry.run files later := by
      rw [run, hread, hi, Request.dry]
    have hfailed : ∀ why, (Outcome.failure files why).code ≠ success := failureCode_ne_success
    rw [hrun, hdry]
    obtain ⟨why, hsame, hsame', hnone⟩ | ⟨after, text, hdone, hprinted, htext, hnone⟩ |
      ⟨text, index, hrefused, hprinted, hastray⟩ := run_cases now later (hundry i hi) haccepts
    · rw [hsame, hsame']
      refine ⟨⟨fun h => absurd h (hfailed why), fun h => absurd h.1 (hfailed why)⟩,
        fun h => absurd h (hfailed why), fun _ => rfl, fun h => ?_⟩
      obtain ⟨index, hastray⟩ := h
      exact absurd hastray (hnone index)
    · rw [hdone, hprinted]
      refine ⟨⟨fun _ => ⟨rfl, hnone⟩, fun _ => rfl⟩, fun _ => ⟨text, htext, rfl⟩,
        fun h => absurd rfl h, fun h => ?_⟩
      obtain ⟨index, hastray⟩ := h
      exact absurd hastray (hnone index)
    · have hcode : failed ≠ success := by decide
      rw [hrefused, hprinted]
      exact ⟨⟨fun h => absurd h hcode, fun h => absurd hastray (h.2 index)⟩,
        fun h => absurd h hcode, fun h => absurd rfl h, fun _ => ⟨rfl, rfl⟩⟩

section Stray

/-- A configuration with arguments for the node of index seven. -/
def strayText : String := "nodes:\n  specific_args:\n    7: \"--x\"\n"

def strayFiles : FileTree := ⟨["home"], [(["home", "c.yaml"], .file (.text strayText))]⟩

def strayInvocation : Invocation := { Invocation.empty with config := some ⟨"c.yaml"⟩ }

theorem astray_strayInvocation : Astray strayFiles strayInvocation 7 := by
  have hastray : (strayInvocation.configuration strayFiles).toOption.any (fun c => decide
      ((build c strayFiles .leapDay .development ()).result.toOption.any (fun n => decide
        (7 ∈ c.nodes.specific.entries.map (·.1) ∧ 7 ∉ n.nodes.map (·.index))) = true)) = true := by
    decide +kernel
  obtain ⟨c, hc, hbuild⟩ := exists_of_any hastray
  obtain ⟨n, hn, hstray⟩ := exists_of_any hbuild
  exact ⟨c, .leapDay, n, hc, hn, hstray⟩

theorem accepts_strayFiles : Accepts strayFiles standardOutput :=
  ⟨⟨"", [], .standard⟩, [], by decide +kernel⟩

end Stray

/-- The two nodes of the standard values, and the same with arguments for the node of index seven,
which neither is. The dry runs happen a day later. -/
theorem dry_run_foretells_of_seven :
    let help := "Usage: clustergen [OPTIONS]\n"
    let later : Timestamp := ⟨2024, 3, 1, 0, 0, 0, 0⟩
    (∃ text, (run help strayFiles .leapDay []).files.readText
        ⟨"cluster_output/topology.json"⟩ = some text ∧
      run help strayFiles later ["--dry-run"] = ⟨success, text ++ "\n", strayFiles⟩) ∧
    (run help strayFiles later ["-c", "c.yaml", "--dry-run"]).code = success ∧
    run help strayFiles .leapDay ["-c", "c.yaml"] = ⟨failed, "", strayFiles⟩ := by
  intro help later
  have hlast : Flagged ["-c", "c.yaml"] ["-c", "c.yaml", "--dry-run"] :=
    ⟨["-c", "c.yaml"], [], rfl, rfl, by decide +kernel, nofun⟩
  have hread : read ["-c", "c.yaml"] = .run strayInvocation := by decide +kernel
  have hsuccess : (run help strayFiles .leapDay []).code = success := by decide +kernel
  obtain ⟨_, htells⟩ :=
    dry_run_foretells help strayFiles .leapDay later [] _ (flagged_cons List.not_mem_nil)
  obtain ⟨_, htext, _⟩ := htells .empty rfl accepts_strayFiles
  obtain ⟨_, hastray⟩ := dry_run_foretells help strayFiles .leapDay later _ _ hlast
  obtain ⟨_, _, _, hrefused⟩ := hastray strayInvocation hread accepts_strayFiles
  exact ⟨htext hsuccess, hrefused ⟨7, astray_strayInvocation⟩⟩

end Testnet.CommandLine
