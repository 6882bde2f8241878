import Testnet.Proofs.WellFormed

/-!
# Running out of numbers

Every regular node of a topology takes a pair of ports and moves the next index on, whether or not
anything comes of them. So there is one more way for a topology to fail than being refused: the
ports do not last for all regular nodes, or a regular node has the last index. This is so even where
every node says its own ports, and where no other node follows. With enough ports only indices run
out; and where nodes say their ports the allocator decides no more than whether there are enough.
-/

namespace Testnet

/-- A node that says both of its ports. -/
def Description.SaysPorts (d : Description) : Prop :=
  d.p2pPort.isSome = true ∧ d.httpPort.isSome = true

instance (d : Description) : Decidable d.SaysPorts :=
  inferInstanceAs (Decidable (_ = true ∧ _ = true))

namespace Topology

/-- A regular node has the last index. Ports play no part in this. -/
def IndexRunsOut (t : Topology) : Prop :=
  ∃ i ∈ t.identities 0 0, i.name ≠ Node.biosName ∧ i.index = lastIndex

instance (t : Topology) : Decidable t.IndexRunsOut :=
  inferInstanceAs (Decidable (∃ i ∈ t.identities 0 0, _))

section Filled

variable {f : Factory} {a b : Allocator} {next : Int32} {nodes nodes' : List Node}
  {declared : List (String × Description)} {name : String} {d : Description}

theorem fillFrom_eq_error {what : Overflow} (h : fillFrom f next a declared = .error what) :
    what = .add := by
  induction declared generalizing next a with
  | nil => cases h
  | cons node rest ih =>
    obtain ⟨name, d⟩ := node
    rw [fillFrom] at h
    split at h
    · rcases bind_eq_error_iff.mp h with hrest | ⟨_, _, hdone⟩
      · exact ih hrest
      · cases hdone
    · rcases bind_eq_error_iff.mp h with hports | ⟨_, _, hother⟩
      · by_cases hroom : a.Room 1
        · rw [Allocator.nextPair_of_room hroom] at hports
          cases hports
        · rw [Allocator.nextPair_of_not_room hroom] at hports
          cases hports
          rfl
      · rcases bind_eq_error_iff.mp hother with hindex | ⟨_, _, hother⟩
        · unfold indexAfter at hindex
          split at hindex
          · cases hindex
          · cases hindex
            rfl
        · rcases bind_eq_error_iff.mp hother with hrest | ⟨_, _, hdone⟩
          · exact ih hrest
          · cases hdone

theorem fillFrom_eq_error_of_not (h : ¬ ∃ nodes, fillFrom f next a declared = .ok nodes) :
    fillFrom f next a declared = .error .add := by
  cases hfill : fillFrom f next a declared with
  | error what => rw [fillFrom_eq_error hfill]
  | ok nodes => exact absurd ⟨nodes, hfill⟩ h

theorem declaredNode_congr_ports (h : d.SaysPorts) (index : Int32) (ports ports' : Ports) :
    declaredNode f name d index ports = declaredNode f name d index ports' := by
  obtain ⟨p2p, hp2p⟩ := Option.isSome_iff_exists.mp h.1
  obtain ⟨http, hhttp⟩ := Option.isSome_iff_exists.mp h.2
  simp only [declaredNode, hp2p, hhttp, Option.getD_some]

/-- Nodes that say their ports are the same with any allocator that lasts. -/
theorem fillFrom_ok_congr (hports : ∀ node ∈ declared, node.2.SaysPorts)
    (ha : fillFrom f next a declared = .ok nodes) (hb : fillFrom f next b declared = .ok nodes') :
    nodes = nodes' := by
  induction declared generalizing next a b nodes nodes' with
  | nil =>
    cases ha
    cases hb
    rfl
  | cons node rest ih =>
    obtain ⟨hnode, hrest⟩ := List.forall_mem_cons.mp hports
    obtain ⟨hbios, filled, hfilled, rfl⟩ | ⟨hregular, _, _, filled, hfilled, rfl⟩ :=
      fillFrom_cons_eq_ok_iff.mp ha
    · obtain ⟨_, filled', hfilled', rfl⟩ | ⟨hregular, _⟩ := fillFrom_cons_eq_ok_iff.mp hb
      · rw [ih hrest hfilled hfilled', declaredNode_congr_ports hnode]
      · exact absurd hbios hregular
    · obtain ⟨hbios, _⟩ | ⟨_, _, _, filled', hfilled', rfl⟩ := fillFrom_cons_eq_ok_iff.mp hb
      · exact absurd hbios hregular
      · rw [ih hrest hfilled hfilled', declaredNode_congr_ports hnode]

end Filled

section Declared

variable {t : Topology} {source : Path} {f : Factory} {a b : Allocator}

theorem exists_fillFrom_nodes_iff : (∃ nodes, fillFrom f 0 a t.nodes = .ok nodes) ↔
    a.Room (regulars t.nodes) ∧ ¬ t.IndexRunsOut := by
  have hnext : (0 : Int32).toInt = nextIndex [] := rfl
  rw [exists_fillFrom_iff 0 0 hnext, IndexRunsOut, identities]
  simp only [not_exists, not_and]

/-- Where nodes say their ports, allocators that both last or both run out are as good as one. -/
theorem fillFrom_congr (hports : ∀ node ∈ t.nodes, node.2.SaysPorts)
    (hroom : a.Room (regulars t.nodes) ↔ b.Room (regulars t.nodes)) :
    fillFrom f 0 a t.nodes = fillFrom f 0 b t.nodes := by
  have hboth : (∃ nodes, fillFrom f 0 a t.nodes = .ok nodes) ↔
      ∃ nodes, fillFrom f 0 b t.nodes = .ok nodes := by
    rw [exists_fillFrom_nodes_iff, exists_fillFrom_nodes_iff, hroom]
  by_cases hfilled : ∃ nodes, fillFrom f 0 a t.nodes = .ok nodes
  · obtain ⟨nodes', hb⟩ := hboth.mp hfilled
    obtain ⟨nodes, ha⟩ := hfilled
    rw [ha, hb, fillFrom_ok_congr hports ha hb]
  · rw [fillFrom_eq_error_of_not hfilled, fillFrom_eq_error_of_not (mt hboth.mpr hfilled)]

/-- A topology overflows where it is not refused at once and its nodes are not filled in. -/
theorem declaredNodes_eq_overflow_iff {what : Overflow} :
    t.declaredNodes source f a = .error (.overflow what) ↔
      t.check source = .ok () ∧ fillFrom f 0 a t.nodes = .error what := by
  unfold declaredNodes
  cases t.check source with
  | error why => simp
  | ok _ =>
    dsimp only
    cases fillFrom f 0 a t.nodes with
    | error e => simp
    | ok filled =>
      dsimp only
      cases checkIdentities filled >>= fun _ => Assignment.ofNodes filled <;> simp

theorem declaredNodes_congr
    (h : t.check source = .ok () → fillFrom f 0 a t.nodes = fillFrom f 0 b t.nodes) :
    t.declaredNodes source f a = t.declaredNodes source f b := by
  unfold declaredNodes
  cases hcheck : t.check source with
  | error why => rfl
  | ok _ => rw [h hcheck]

theorem exists_overflow_iff : (∃ what, t.declaredNodes source f a = .error (.overflow what)) ↔
    t.check source = .ok () ∧ (¬ a.Room (regulars t.nodes) ∨ t.IndexRunsOut) := by
  have hfilled : (∃ what, fillFrom f 0 a t.nodes = .error what) ↔
      ¬ ∃ nodes, fillFrom f 0 a t.nodes = .ok nodes := by
    constructor
    · rintro ⟨what, hwhat⟩ ⟨nodes, hnodes⟩
      rw [hwhat] at hnodes
      cases hnodes
    · intro h
      exact ⟨_, fillFrom_eq_error_of_not h⟩
  simp only [declaredNodes_eq_overflow_iff, exists_and_left]
  rw [hfilled, exists_fillFrom_nodes_iff, not_and_or, not_not]

/-- With ports for all regular nodes a topology that is not refused at once fails exactly if a
regular node has the last index, be it the last node of all. -/
theorem declaredNodes_overflow_iff (t : Topology) (source : Path) (f : Factory) (a : Allocator)
    (hroom : a.Room (regulars t.nodes)) :
    (∃ what, t.declaredNodes source f a = .error (.overflow what)) ↔
      t.check source = .ok () ∧ t.IndexRunsOut := by
  rw [exists_overflow_iff]
  exact and_congr_right fun _ => or_iff_right (not_not.mpr hroom)

/-- A well-formed topology with ports to spare whose one regular node has the last index: no node
comes after it, and still it fails. -/
theorem declaredNodes_overflow_iff_of_last :
    ∃ (t : Topology) (f : Factory), (Allocator.new 9876 8888).Room (regulars t.nodes) ∧
      t.WellFormed 9876 8888 ∧ (t.nodes.map (·.2.index)).getLast? = some (some 2147483647) ∧
      ∃ what, t.declaredNodes ⟨"custom.json"⟩ f (.new 9876 8888) = .error (.overflow what) := by
  let blank : Description := ⟨none, [], [], false, none, none, []⟩
  let t : Topology := ⟨"custom_",
    [("bios", { blank with producers := ["eosio"] }),
      ("node_00", { blank with
        index := some 2147483647, peers := ["bios"], producers := ["defproducera"] })]⟩
  let f : Factory := ⟨⟨"etc"⟩, ⟨"var"⟩, 2, 0⟩
  have hroom : (Allocator.new 9876 8888).Room (regulars t.nodes) := by decide
  have hwell : t.WellFormed 9876 8888 := by
    constructor <;> decide +kernel
  refine ⟨t, f, hroom, hwell, rfl, ?_⟩
  exact (declaredNodes_overflow_iff t ⟨"custom.json"⟩ f (.new 9876 8888) hroom).mpr
    ⟨rfl, by decide⟩

/-- Whatever else the allocators are like, a topology whose nodes say all their ports comes out the
same, unless one of them lasts for all regular nodes and the other does not. -/
theorem declaredNodes_eq_iff (t : Topology) (source : Path) (f : Factory) (a b : Allocator)
    (hports : ∀ node ∈ t.nodes, node.2.SaysPorts) :
    t.declaredNodes source f a = t.declaredNodes source f b ↔
      t.check source ≠ .ok () ∨ t.IndexRunsOut ∨
        (a.Room (regulars t.nodes) ↔ b.Room (regulars t.nodes)) := by
  constructor
  · intro hsame
    -- Equal results overflow together.
    have ha := @exists_overflow_iff t source f a
    rw [hsame, exists_overflow_iff] at ha
    tauto
  · intro hcases
    apply declaredNodes_congr
    intro hcheck
    rcases hcases with hrefused | hlast | hroom
    · exact absurd hcheck hrefused
    · have hfail : ∀ c : Allocator, ¬ ∃ nodes, fillFrom f 0 c t.nodes = .ok nodes := fun c h =>
        (exists_fillFrom_nodes_iff.mp h).2 hlast
      rw [fillFrom_eq_error_of_not (hfail a), fillFrom_eq_error_of_not (hfail b)]
    · exact fillFrom_congr hports hroom

/-- Four regular nodes that say all ports, and a base with room for three: an allocator that nothing
is taken from makes the topology fail. -/
theorem declaredNodes_eq_iff_of_four :
    ∃ (t : Topology) (f : Factory), (∀ node ∈ t.nodes, node.2.SaysPorts) ∧ regulars t.nodes = 4 ∧
      t.check ⟨"custom.json"⟩ = .ok () ∧
      t.declaredNodes ⟨"custom.json"⟩ f (.new 65533 8888) ≠
        t.declaredNodes ⟨"custom.json"⟩ f (.new 9876 8888) := by
  let node (p2p http : UInt16) : Description :=
    ⟨none, [], [], false, some p2p, some http, []⟩
  let t : Topology := ⟨"custom_", [("bios", node 7000 7001), ("node_00", node 7100 7101),
    ("node_01", node 7102 7103), ("node_02", node 7104 7105), ("node_03", node 7106 7107)]⟩
  let f : Factory := ⟨⟨"etc"⟩, ⟨"var"⟩, 5, 0⟩
  have hports : ∀ node ∈ t.nodes, node.2.SaysPorts := by decide
  refine ⟨t, f, hports, rfl, rfl, fun hsame => ?_⟩
  rcases (declaredNodes_eq_iff t ⟨"custom.json"⟩ f (.new 65533 8888) (.new 9876 8888) hports).mp
    hsame with hrefused | hlast | hroom
  · exact hrefused rfl
  · exact absurd hlast (by decide)
  · exact absurd hroom (by decide)

end Declared

end Topology

end Testnet
