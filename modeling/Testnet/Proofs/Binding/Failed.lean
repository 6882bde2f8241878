import Testnet.Proofs.Binding

/-!
# What a failed binding leaves

A plan is checked before any node is touched, but who owns what only after all nodes have been
served. So a binding that fails for its plan leaves the nodes as they were, and one that fails for
an account that is owned twice leaves them as it has served them: every bios node and every
producing node keeps the accounts and the pair it was given. Nothing is claimed about plans with
more accounts than there are ordinals.
-/

namespace Testnet

/-- An assignment fails only for an account that is owned twice. -/
theorem Assignment.exists_duplicateProducer {nodes : List Node} {why : Rejection}
    (h : ofNodes nodes = .error why) :
    ∃ producer first second, why = .duplicateProducer producer first second := by
  unfold ofNodes at h
  split at h
  · cases h
    exact ⟨_, _, _, rfl⟩
  · cases h

namespace Binding

open Plan

variable {σ : Type} {plan : Plan} {source : KeySource σ} {s : σ} {nodes nodes' before : List Node}
  {n n' : Node}

/-- How many nodes are not bios nodes. -/
def regularsIn (nodes : List Node) : Nat := nodes.countP (!·.isBios)

/-- After the nodes before it a node is served if it is a bios node, or if not all producing nodes
have had their turn. -/
def IsServed (plan : Plan) (before : List Node) (n : Node) : Prop :=
  n.isBios = true ∨ regularsIn before < plan.producingRegular

instance (plan : Plan) (before : List Node) (n : Node) : Decidable (IsServed plan before n) :=
  inferInstanceAs (Decidable (_ ∨ _))

/-- What a turn makes of a node: a node that is served is given some accounts and one pair, and any
other stays as it is. -/
structure Turn (plan : Plan) (before : List Node) (n n' : Node) : Prop where
  served : IsServed plan before n → ∃ producers pair, producers ≠ [] ∧ n' = equip n producers pair
  passed : ¬ IsServed plan before n → n' = n

/-- Nodes that have had their turns one after the other. -/
inductive Turns (plan : Plan) : List Node → List Node → List Node → Prop where
  | nil (before : List Node) : Turns plan before [] []
  | cons {before rest rest' : List Node} {n n' : Node} (head : Turn plan before n n')
      (tail : Turns plan (before ++ [n]) rest rest') : Turns plan before (n :: rest) (n' :: rest')

theorem regularsIn_concat_of_bios (h : n.isBios = true) :
    regularsIn (before ++ [n]) = regularsIn before := by
  simp [regularsIn, h]

theorem regularsIn_concat_of_regular (h : n.isBios = false) :
    regularsIn (before ++ [n]) = regularsIn before + 1 := by
  simp [regularsIn, h]

theorem turn_served {producers : List String} {pair : KeyPair} (h : IsServed plan before n)
    (hsome : producers ≠ []) : Turn plan before n (equip n producers pair) :=
  ⟨fun _ => ⟨producers, pair, hsome, rfl⟩, fun hpassed => absurd h hpassed⟩

theorem turn_passed (h : ¬ IsServed plan before n) : Turn plan before n n :=
  ⟨fun hserved => absurd hserved h, fun _ => rfl⟩

/-- A node is touched in both its lists, or in none. -/
theorem Turn.kept_iff (h : Turn plan before n n') :
    n'.producers = n.producers ∧ n'.keys = n.keys ↔ ¬ IsServed plan before n := by
  constructor
  · intro hkept hserved
    obtain ⟨producers, pair, _, rfl⟩ := h.served hserved
    simp [equip] at hkept
  · intro hpassed
    rw [h.passed hpassed]
    exact ⟨rfl, rfl⟩

theorem Turns.length_eq (h : Turns plan before nodes nodes') : nodes'.length = nodes.length := by
  induction h with
  | nil _ => rfl
  | cons _ _ ih => rw [List.length_cons, List.length_cons, ih]

theorem Turns.turn (h : Turns plan before nodes nodes') {i : Nat} (hn : nodes[i]? = some n)
    (hn' : nodes'[i]? = some n') : Turn plan (before ++ nodes.take i) n n' := by
  induction h generalizing i with
  | nil _ => cases hn
  | cons head _ ih =>
    cases i with
    | zero =>
      cases hn
      cases hn'
      rw [List.take_zero, List.append_nil]
      exact head
    | succ i =>
      rw [List.take_succ_cons, List.append_cons]
      exact ih hn hn'

theorem Turns.eq_self (h : Turns plan before nodes nodes')
    (hnone : ∀ n ∈ nodes, n.isBios = false ∧ plan.producingRegular = 0) : nodes' = nodes := by
  induction h with
  | nil _ => rfl
  | cons head _ ih =>
    obtain ⟨⟨hregular, hproducing⟩, hrest⟩ := List.forall_mem_cons.mp hnone
    rw [head.passed (by simp [IsServed, hregular, hproducing]), ih hrest]

/-- All nodes stay as they are exactly if there is none to be served. -/
theorem Turns.eq_self_iff (h : Turns plan [] nodes nodes') :
    nodes' = nodes ↔ ∀ n ∈ nodes, n.isBios = false ∧ plan.producingRegular = 0 := by
  refine ⟨?_, h.eq_self⟩
  rintro rfl n hn
  have hnot : ∀ {i : Nat} {m : Node}, nodes'[i]? = some m → ¬ IsServed plan (nodes'.take i) m :=
    fun hm => (h.turn hm hm).kept_iff.mp ⟨rfl, rfl⟩
  obtain ⟨i, hi⟩ := List.mem_iff_getElem?.mp hn
  -- No regular node stands before the first one, so it is served if there are producing nodes.
  have hfirst := hnot (List.getElem?_eq_getElem (List.length_pos_of_mem hn))
  refine ⟨Bool.eq_false_iff.mpr fun hbios => hnot hi (.inl hbios), ?_⟩
  exact Nat.eq_zero_of_not_pos fun hproducing => hfirst (.inr hproducing)

/-- A producing node of a sound plan is given something. -/
theorem accounts_ne_nil {d : Deal} (hcheck : plan.check = .ok ())
    (hproducing : 0 < plan.producingRegular) : accounts plan d ≠ [] := by
  have hshare : 0 < d.share plan := Deal.share_pos hcheck hproducing
  refine List.append_ne_nil_of_left_ne_nil ?_ _
  rw [ne_eq, List.map_eq_nil_iff, List.range'_eq_nil_iff]
  omega

/-- Serving comes to an end whatever the nodes are like, and every node has had its turn. What is
left to deal out matters only as long as producing nodes are to come. -/
theorem exists_turns_bindFrom {d : Deal} (hcheck : plan.check = .ok ())
    (hproducers : plan.producers < Account.ordinalLimit) (hpassed : d.passed = regularsIn before)
    (hdeal : d.passed < plan.producingRegular → d = Deal.after plan d.passed) :
    ∃ nodes', (bindFrom plan source d s nodes).value = ⟨nodes', .ok ()⟩ ∧
      Turns plan before nodes nodes' := by
  induction nodes generalizing d s before with
  | nil => exact ⟨[], rfl, .nil before⟩
  | cons n rest ih =>
    cases hn : n.isBios with
    | true =>
      have hsame : d.passed = regularsIn (before ++ [n]) := by
        rw [regularsIn_concat_of_bios hn, hpassed]
      obtain ⟨rest', hrest, hturns⟩ := @ih (source.draw n.name s).2 _ d hsame hdeal
      have hserved : IsServed plan before n := .inl hn
      have hsome : [Account.system] ≠ [] := List.cons_ne_nil _ _
      exact ⟨_, bindFrom_of_bios hn hrest, .cons (turn_served hserved hsome) hturns⟩
    | false =>
      have hcount : d.passed + 1 = regularsIn (before ++ [n]) := by
        rw [regularsIn_concat_of_regular hn, hpassed]
      by_cases hj : d.passed < plan.producingRegular
      · have hd := hdeal hj
        have hserved : IsServed plan before n := .inr (hpassed ▸ hj)
        have hfits : d.next + d.share plan < Account.ordinalLimit := by
          rw [hd]
          exact Deal.next_add_share_lt hcheck hproducers hj
        have hsome : accounts plan d ≠ [] := accounts_ne_nil hcheck (Nat.zero_lt_of_lt hj)
        have hnext : d.serve plan = Deal.after plan (d.passed + 1) := by
          rw [← Deal.serve_after, ← hd]
        obtain ⟨rest', hrest, hturns⟩ :=
          @ih (source.draw n.name s).2 _ (d.serve plan) hcount fun _ => hnext
        exact ⟨_, bindFrom_of_producing hn hj hfits hrest, .cons (turn_served hserved hsome) hturns⟩
      · -- No node to come is a producing one, so nothing is asked of the deal any more.
        have hdone := Nat.not_lt.mp hj
        have hnot : ¬ IsServed plan before n := by
          rintro (hbios | hfew)
          · rw [hn] at hbios
            cases hbios
          · exact hj (hpassed ▸ hfew)
        obtain ⟨rest', hrest, hturns⟩ := @ih s _ d.skip hcount fun hlt =>
          absurd (Nat.lt_of_succ_lt hlt) hj
        exact ⟨_, bindFrom_of_idle hn hdone hrest, .cons (turn_passed hnot) hturns⟩

/-- How a binding fails: at once for its plan, or else, when all nodes have had their turns, for an
account that is owned twice. -/
theorem bind_error_cases {why : Stop Rejection} (hproducers : plan.producers < Account.ordinalLimit)
    (h : (bind plan source s nodes).value = ⟨nodes', .error why⟩) :
    (∃ e, plan.check = .error e ∧ why = .refused e ∧ nodes' = nodes) ∨
    (plan.check = .ok () ∧ Turns plan [] nodes nodes' ∧
      ∃ producer first second, why = .refused (.duplicateProducer producer first second)) := by
  unfold bind at h
  cases hcheck : plan.check with
  | error e =>
    rw [hcheck] at h
    cases h
    exact .inl ⟨e, rfl, rfl, rfl⟩
  | ok _ =>
    right
    have hpassed : (Deal.start plan).passed = regularsIn [] := rfl
    obtain ⟨served, hserved, hturns⟩ :=
      @exists_turns_bindFrom σ plan source s nodes [] _ hcheck hproducers hpassed
        fun _ => Deal.start_eq
    rw [hcheck] at h
    simp only [Logged.value_bind, hserved] at h
    cases howners : Assignment.ofNodes served with
    | error e =>
      rw [howners] at h
      cases h
      obtain ⟨producer, first, second, rfl⟩ := Assignment.exists_duplicateProducer howners
      exact ⟨rfl, hturns, producer, first, second, rfl⟩
    | ok owners =>
      rw [howners] at h
      cases h

/-- A binding fails for its plan, or for an account that is owned twice. In the first case all nodes
stay as they were. In the second one exactly the nodes that were not to be served have the accounts
and pairs they had, so that nothing has changed only if there was no node to be served. -/
theorem bind_failed_kept_iff (plan : Plan) (source : KeySource σ) (s : σ) (nodes nodes' : List Node)
    (why : Stop Rejection) (hproducers : plan.producers < Account.ordinalLimit)
    (h : (bind plan source s nodes).value = ⟨nodes', .error why⟩) :
    nodes'.length = nodes.length ∧
    ((∃ e, plan.check = .error e ∧ why = .refused e) ∨
      plan.check = .ok () ∧
        ∃ producer first second, why = .refused (.duplicateProducer producer first second)) ∧
    (∀ (i : Nat) n n', nodes[i]? = some n → nodes'[i]? = some n' →
      (n'.producers = n.producers ∧ n'.keys = n.keys ↔
        plan.check ≠ .ok () ∨ ¬ IsServed plan (nodes.take i) n)) ∧
    (nodes' = nodes ↔
      plan.check ≠ .ok () ∨ ∀ n ∈ nodes, n.isBios = false ∧ plan.producingRegular = 0) := by
  obtain ⟨e, hcheck, hwhy, rfl⟩ | ⟨hcheck, hturns, hwhy⟩ := bind_error_cases hproducers h
  · have hrefused : plan.check ≠ .ok () := by
      rw [hcheck]
      nofun
    refine ⟨rfl, .inl ⟨e, hcheck, hwhy⟩, ?_, iff_of_true rfl (.inl hrefused)⟩
    intro i n n' hn hn'
    cases hn.symm.trans hn'
    exact iff_of_true ⟨rfl, rfl⟩ (.inl hrefused)
  · have hsound : ¬ plan.check ≠ .ok () := fun h => h hcheck
    refine ⟨hturns.length_eq, .inr ⟨hcheck, hwhy⟩, ?_, ?_⟩
    · intro i n n' hn hn'
      rw [or_iff_right hsound]
      exact (hturns.turn hn hn').kept_iff
    · rw [or_iff_right hsound]
      exact hturns.eq_self_iff

/-- Nodes that are bound to a plan and then to the same plan again: the one regular node would own
its account twice, and the nodes are no longer what they were. -/
theorem bind_failed_kept_iff_of_again :
    ∃ (f : Factory) (a : Allocator) (plan : Plan) (nodes nodes' : List Node)
      (producer first second : String), plan.check = .ok () ∧
      (bind plan .development () (f.made a plan.totalNodes)).value.nodes = nodes ∧
      (bind plan .development () nodes).value =
        ⟨nodes', .error (.refused (.duplicateProducer producer first second))⟩ ∧
      nodes' ≠ nodes := by
  let f : Factory := ⟨⟨"etc"⟩, ⟨"var"⟩, 2, 0⟩
  let a : Allocator := .new 9876 8888
  let plan : Plan := ⟨2, 2, 1, 0, 0⟩
  let nodes : List Node := (bind plan .development () (f.made a plan.totalNodes)).value.nodes
  have hcheck : plan.check = .ok () := rfl
  have hfails : (bind plan .development () nodes).value.outcome.toOption = none := by
    decide +kernel
  cases hagain : (bind plan .development () nodes).value with
  | mk nodes' outcome =>
    rw [hagain] at hfails
    cases outcome with
    | ok owners => cases hfails
    | error why =>
      obtain ⟨_, hwhy, _, hsame⟩ :=
        bind_failed_kept_iff plan .development () nodes nodes' why (by decide) hagain
      obtain ⟨_, hrefused, _⟩ | ⟨_, producer, first, second, rfl⟩ := hwhy
      · cases hcheck.symm.trans hrefused
      · refine ⟨f, a, plan, nodes, nodes', producer, first, second, hcheck, rfl, hagain, ?_⟩
        intro heq
        rcases hsame.mp heq with hrefused | hnone
        · exact hrefused hcheck
        · have hsome : nodes ≠ [] := by decide +kernel
          have hproducing := (hnone _ (List.head_mem hsome)).2
          cases hproducing

end Binding

end Testnet
