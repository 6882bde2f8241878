import Testnet.Binding
import Testnet.Proofs.Account
import Testnet.Proofs.Assignment
import Testnet.Proofs.Factory

/-!
# Who is bound to what

The handing out of accounts in closed form. What a node gets depends on its position alone: the
bios node the system account, each producing node its block and all shared accounts, and all other
nodes nothing. The blocks follow each other without gaps and make up the whole pool.
-/

namespace Testnet

namespace Plan

/-- The ordinal of the first account in the block with a number: the blocks before it have one
share each, and the first of them one account more. -/
def blockStart (p : Plan) (j : Nat) : Nat := j * p.perNode + min j p.leftOver

/-- The ordinals of the accounts in a block. -/
def block (p : Plan) (j : Nat) : List Nat :=
  List.range' (p.blockStart j) (p.blockStart (j + 1) - p.blockStart j)

/-- The accounts for the node at a position. -/
def holdings (p : Plan) : Nat → List String
  | 0 => [Account.system]
  | j + 1 =>
    if j < p.producingRegular then
      (p.block j).map (Account.name .exclusive) ++
        (List.range p.sharedProducers).map (Account.name .shared)
    else []

variable {p : Plan}

theorem check_eq_ok_iff : p.check = .ok () ↔
    0 < p.totalNodes ∧ p.producerNodes ≤ p.totalNodes ∧ p.unstartedNodes < p.totalNodes ∧
      (0 < p.producers → 2 ≤ p.producerNodes) ∧
      (2 ≤ p.producerNodes → p.producingRegular ≤ p.producers) := by
  unfold check
  constructor
  · intro h
    repeat' split at h
    all_goals cases h
    omega
  · intro hgiven
    obtain ⟨htotal, hproducing, hunstarted, henough, hfew⟩ := hgiven
    repeat' split
    all_goals first | rfl | omega

theorem blockStart_zero : p.blockStart 0 = 0 := by
  simp [blockStart]

theorem blockStart_mono {i j : Nat} (h : i ≤ j) : p.blockStart i ≤ p.blockStart j := by
  have hmul := Nat.mul_le_mul_right p.perNode h
  unfold blockStart
  omega

/-- The blocks make up the whole pool. -/
theorem blockStart_producingRegular (h : p.check = .ok ()) :
    p.blockStart p.producingRegular = p.producers := by
  obtain ⟨_, _, _, henough, _⟩ := check_eq_ok_iff.mp h
  unfold blockStart leftOver perNode
  split
  case isTrue hzero =>
    have hproducing : p.producingRegular = p.producerNodes - 1 := rfl
    rw [hzero, Nat.zero_mul]
    omega
  case isFalse hpos =>
    have hmod := Nat.mod_lt p.producers (Nat.pos_of_ne_zero hpos)
    have hdiv := Nat.div_add_mod p.producers p.producingRegular
    rw [Nat.min_eq_right (Nat.le_of_lt hmod)]
    exact hdiv

/-- The accounts that the node at a position holds alone. -/
def owned (p : Plan) : Nat → List String
  | 0 => []
  | j + 1 => if j < p.producingRegular then (p.block j).map (Account.name .exclusive) else []

theorem filter_holdings (i : Nat) : (p.holdings i).filter Account.isExclusive = p.owned i := by
  cases i with
  | zero => simp [holdings, owned, Account.isExclusive_system]
  | succ j =>
    rw [holdings, owned]
    split
    · have hown : ((p.block j).map (Account.name .exclusive)).filter Account.isExclusive =
          (p.block j).map (Account.name .exclusive) := by
        apply List.filter_eq_self.mpr
        intro account haccount
        obtain ⟨o, _, rfl⟩ := List.mem_map.mp haccount
        exact Account.isExclusive_name _ _
      have hshared : ((List.range p.sharedProducers).map (Account.name .shared)).filter
          Account.isExclusive = [] := by
        apply List.filter_eq_nil_iff.mpr
        intro account haccount
        obtain ⟨o, _, rfl⟩ := List.mem_map.mp haccount
        rw [Account.isExclusive_name]
        exact Bool.false_ne_true
      rw [List.filter_append, hown, hshared, List.append_nil]
    · rfl

/-- What the first positions hold alone is the pool up to where their blocks end. -/
theorem flatMap_owned (n : Nat) :
    (List.range (n + 1)).flatMap p.owned =
      (List.range (p.blockStart (min n p.producingRegular))).map (Account.name .exclusive) := by
  induction n with
  | zero => simp [owned, blockStart_zero]
  | succ n ih =>
    rw [List.range_succ, List.flatMap_append, ih, List.flatMap_singleton]
    by_cases hn : n < p.producingRegular
    · have hmono := @blockStart_mono p n (n + 1) (Nat.le_succ n)
      rw [owned, if_pos hn, Nat.min_eq_left (Nat.le_of_lt hn), Nat.min_eq_left hn, block,
        ← List.map_append]
      have happend := @List.range'_append_1 0 (p.blockStart n)
        (p.blockStart (n + 1) - p.blockStart n)
      rw [Nat.zero_add, Nat.add_sub_cancel' hmono] at happend
      rw [List.range_eq_range', List.range_eq_range', happend]
    · have hle := Nat.not_lt.mp hn
      rw [owned, if_neg hn, List.append_nil, Nat.min_eq_right hle,
        Nat.min_eq_right (Nat.le_succ_of_le hle)]

theorem mem_owned {account : String} {i : Nat} :
    account ∈ p.owned i ↔ ∃ j o, i = j + 1 ∧ j < p.producingRegular ∧ o ∈ p.block j ∧
      account = Account.name .exclusive o := by
  cases i with
  | zero => simp [owned]
  | succ j =>
    unfold owned
    split <;> simp_all [eq_comm]

variable {i j o : Nat}

/-- In a sound plan there is an account for every producing node. -/
theorem perNode_pos (h : p.check = .ok ()) (hproducing : 0 < p.producingRegular) :
    0 < p.perNode := by
  obtain ⟨_, _, _, _, hfew⟩ := check_eq_ok_iff.mp h
  have hnodes : p.producingRegular = p.producerNodes - 1 := rfl
  exact Nat.div_pos (hfew (by omega)) hproducing

/-- Every producing node of a sound plan has a block that is not empty. -/
theorem blockStart_lt (h : p.check = .ok ()) (hj : j < p.producingRegular) :
    p.blockStart j < p.blockStart (j + 1) := by
  have hper : 0 < p.perNode := perNode_pos h (Nat.zero_lt_of_lt hj)
  rw [blockStart, blockStart, Nat.succ_mul]
  omega

theorem mem_block_iff : o ∈ p.block j ↔ p.blockStart j ≤ o ∧ o < p.blockStart (j + 1) := by
  have hmono := @blockStart_mono p j (j + 1) (Nat.le_succ j)
  rw [block, List.mem_range'_1]
  omega

theorem lt_producers_of_mem_block (h : p.check = .ok ()) (hj : j < p.producingRegular)
    (ho : o ∈ p.block j) : o < p.producers := by
  have hend := @blockStart_mono p (j + 1) p.producingRegular hj
  rw [blockStart_producingRegular h] at hend
  exact Nat.lt_of_lt_of_le (mem_block_iff.mp ho).2 hend

/-- No account is in two blocks. -/
theorem block_disjoint (hi : o ∈ p.block i) (hj : o ∈ p.block j) : i = j := by
  rw [mem_block_iff] at hi hj
  rcases Nat.lt_trichotomy i j with hlt | heq | hlt
  · have hmono := @blockStart_mono p (i + 1) j hlt
    omega
  · exact heq
  · have hmono := @blockStart_mono p (j + 1) i hlt
    omega

/-- The blocks leave out nothing. -/
theorem exists_mem_block {m : Nat} (ho : o < p.blockStart m) : ∃ j < m, o ∈ p.block j := by
  induction m with
  | zero =>
    rw [blockStart_zero] at ho
    exact absurd ho (Nat.not_lt_zero o)
  | succ m ih =>
    by_cases hm : o < p.blockStart m
    · obtain ⟨j, hj, hmem⟩ := ih hm
      exact ⟨j, Nat.lt_succ_of_lt hj, hmem⟩
    · exact ⟨m, Nat.lt_succ_self m, mem_block_iff.mpr ⟨Nat.not_lt.mp hm, ho⟩⟩

end Plan

namespace KeySource

variable {σ : Type}

/-- The pairs for the nodes of a list of names, drawn one after the other. -/
def draws (source : KeySource σ) : List String → σ → List KeyPair
  | [], _ => []
  | name :: rest, s => (source.draw name s).1 :: source.draws rest (source.draw name s).2

theorem length_draws (source : KeySource σ) (names : List String) (s : σ) :
    (source.draws names s).length = names.length := by
  induction names generalizing s with
  | nil => rfl
  | cons name rest ih => rw [draws, List.length_cons, List.length_cons, ih]

end KeySource

/-- All of a node but what binding gives it. -/
def Node.unbound (n : Node) : Node := { n with producers := [], keys := [] }

namespace Binding

open Plan

variable {plan : Plan}

/-- How far the handing out has come after a number of producing nodes. -/
def Deal.after (plan : Plan) (j : Nat) : Deal := ⟨plan.leftOver - j, plan.blockStart j, j⟩

theorem Deal.start_eq : Deal.start plan = Deal.after plan 0 := by
  simp [Deal.start, Deal.after, blockStart_zero]

/-- A share is the length of a block. -/
theorem Deal.share_after (j : Nat) :
    (Deal.after plan j).share plan = plan.blockStart (j + 1) - plan.blockStart j := by
  simp only [Deal.share, Deal.after, blockStart, Nat.succ_mul]
  omega

theorem Deal.serve_after (j : Nat) : (Deal.after plan j).serve plan = Deal.after plan (j + 1) := by
  have hmono := @blockStart_mono plan j (j + 1) (Nat.le_succ j)
  have hshare := @Deal.share_after plan j
  simp only [Deal.after] at hshare
  simp only [Deal.serve, Deal.after, Deal.mk.injEq, hshare]
  exact ⟨by omega, by omega, trivial⟩

/-- Every producing node of a sound plan has a share. -/
theorem Deal.share_pos {d : Deal} (hcheck : plan.check = .ok ())
    (hproducing : 0 < plan.producingRegular) : 0 < d.share plan :=
  Nat.lt_of_lt_of_le (perNode_pos hcheck hproducing) (Nat.le_add_right _ _)

/-- The ordinals last for every producing node of a sound plan. -/
theorem Deal.next_add_share_lt {j : Nat} (hcheck : plan.check = .ok ())
    (hproducers : plan.producers < Account.ordinalLimit) (hj : j < plan.producingRegular) :
    (Deal.after plan j).next + (Deal.after plan j).share plan < Account.ordinalLimit := by
  have hmono := @blockStart_mono plan j (j + 1) (Nat.le_succ j)
  have hend := @blockStart_mono plan (j + 1) plan.producingRegular hj
  rw [blockStart_producingRegular hcheck] at hend
  rw [Deal.share_after]
  simp only [Deal.after]
  omega

/-- A producing node gets its block and the shared accounts. -/
theorem accounts_after {j : Nat} (hj : j < plan.producingRegular)
    (hshared : plan.sharedProducers ≤ Account.ordinalLimit) :
    accounts plan (Deal.after plan j) = plan.holdings (j + 1) := by
  have hword : (List.range plan.sharedProducers).map
      (fun i => Account.name .shared (i % Account.ordinalLimit)) =
        (List.range plan.sharedProducers).map (Account.name .shared) := by
    apply List.map_congr_left
    intro i hi
    have hlt := List.mem_range.mp hi
    rw [Nat.mod_eq_of_lt (Nat.lt_of_lt_of_le hlt hshared)]
  rw [accounts, Deal.share_after, hword]
  simp only [holdings, hj, if_true]
  rfl

variable {σ : Type} {source : KeySource σ} {s : σ}

section Step

variable {d : Deal} {n : Node} {rest nodes : List Node} {outcome : Except Overflow Unit}

theorem bindFrom_of_bios (hbios : n.isBios = true)
    (htail : (bindFrom plan source d (source.draw n.name s).2 rest).value = ⟨nodes, outcome⟩) :
    (bindFrom plan source d s (n :: rest)).value =
      ⟨equip n [Account.system] (source.draw n.name s).1 :: nodes, outcome⟩ := by
  rw [bindFrom, if_pos hbios, Logged.value_bind, htail]
  rfl

theorem bindFrom_of_idle (hregular : n.isBios = false) (hd : plan.producingRegular ≤ d.passed)
    (htail : (bindFrom plan source d.skip s rest).value = ⟨nodes, outcome⟩) :
    (bindFrom plan source d s (n :: rest)).value = ⟨n :: nodes, outcome⟩ := by
  rw [bindFrom, hregular, if_neg Bool.false_ne_true, if_pos hd, Logged.value_bind, htail]
  rfl

theorem bindFrom_of_producing (hregular : n.isBios = false) (hd : d.passed < plan.producingRegular)
    (hfits : d.next + d.share plan < Account.ordinalLimit)
    (htail : (bindFrom plan source (d.serve plan) (source.draw n.name s).2 rest).value =
      ⟨nodes, outcome⟩) :
    (bindFrom plan source d s (n :: rest)).value =
      ⟨equip n (accounts plan d) (source.draw n.name s).1 :: nodes, outcome⟩ := by
  rw [bindFrom, hregular, if_neg Bool.false_ne_true, if_neg (Nat.not_le.mpr hd),
    if_neg (Nat.not_le.mpr hfits)]
  simp only [Logged.value_bind, htail]
  rfl

end Step

theorem unbound_bindFrom (d : Deal) (nodes : List Node) :
    (bindFrom plan source d s nodes).value.nodes.map Node.unbound = nodes.map Node.unbound := by
  induction nodes generalizing d s with
  | nil => rfl
  | cons n rest ih =>
    rw [bindFrom]
    split
    · exact congrArg (n.unbound :: ·) (ih d)
    · split
      · exact congrArg (n.unbound :: ·) (ih d.skip)
      · split
        · rfl
        · exact congrArg (n.unbound :: ·) (ih (d.serve plan))

/-- Whether or not binding fails, the nodes are as they were or as they were served. -/
theorem nodes_bind_cases (nodes : List Node) :
    (bind plan source s nodes).value.nodes = nodes ∨
      (bind plan source s nodes).value.nodes =
        (bindFrom plan source (.start plan) s nodes).value.nodes := by
  unfold bind
  split
  · exact .inl rfl
  · right
    rw [Logged.value_bind]
    split
    · rfl
    · split <;> rfl

/-- Binding changes nothing but accounts and keys, even where it fails. -/
theorem unbound_bind (nodes : List Node) :
    (bind plan source s nodes).value.nodes.map Node.unbound = nodes.map Node.unbound := by
  rcases @nodes_bind_cases plan σ source s nodes with hsame | hserved
  · rw [hsame]
  · rw [hserved, unbound_bindFrom]

/-- An account that binding may give to a node: the system account to the bios node, and to any node
one that has a name in a pool. -/
def Granted (n : Node) (account : String) : Prop :=
  (n.isBios = true ∧ account = Account.system) ∨
    ∃ pool, ∃ o < Account.ordinalLimit, account = Account.name pool o

theorem Granted.isValid {n : Node} {account : String} (h : Granted n account) :
    Account.isValid account = true := by
  obtain ⟨_, rfl⟩ | ⟨pool, o, _, rfl⟩ := h
  · exact Account.isValid_system
  · exact Account.isValid_name pool o

/-- Both for the block and for the shared accounts the ordinals are words. -/
theorem granted_of_mem_accounts {d : Deal} (hfits : d.next + d.share plan < Account.ordinalLimit)
    (n : Node) {account : String} (h : account ∈ accounts plan d) : Granted n account := by
  rcases List.mem_append.mp h with hown | hshared
  · obtain ⟨o, ho, rfl⟩ := List.mem_map.mp hown
    have hlt := (List.mem_range'_1.mp ho).2
    exact .inr ⟨.exclusive, o, by omega, rfl⟩
  · obtain ⟨i, _, rfl⟩ := List.mem_map.mp hshared
    exact .inr ⟨.shared, _, Nat.mod_lt i (by decide), rfl⟩

theorem granted_bindFrom {d : Deal} {nodes : List Node}
    (hnodes : ∀ n ∈ nodes, ∀ account ∈ n.producers, Granted n account) :
    ∀ n ∈ (bindFrom plan source d s nodes).value.nodes, ∀ account ∈ n.producers,
      Granted n account := by
  induction nodes generalizing d s with
  | nil => nofun
  | cons n rest ih =>
    obtain ⟨hn, hrest⟩ := List.forall_mem_cons.mp hnodes
    rw [bindFrom]
    split
    case isTrue hbios =>
      refine List.forall_mem_cons.mpr ⟨fun account haccount => ?_, ih hrest⟩
      rcases List.mem_append.mp haccount with hold | hnew
      · exact hn account hold
      · exact .inl ⟨hbios, List.mem_singleton.mp hnew⟩
    split
    · exact List.forall_mem_cons.mpr ⟨hn, ih hrest⟩
    split
    case isTrue => exact hnodes
    case isFalse hfits =>
      refine List.forall_mem_cons.mpr ⟨fun account haccount => ?_, ih hrest⟩
      rcases List.mem_append.mp haccount with hold | hnew
      · exact hn account hold
      · exact granted_of_mem_accounts (Nat.not_le.mp hfits) _ hnew

/-- Binding gives out no other accounts, even where it fails. -/
theorem granted_bind {nodes : List Node}
    (hnodes : ∀ n ∈ nodes, ∀ account ∈ n.producers, Granted n account) :
    ∀ n ∈ (bind plan source s nodes).value.nodes, ∀ account ∈ n.producers, Granted n account := by
  rcases @nodes_bind_cases plan σ source s nodes with hsame | hserved
  · rw [hsame]
    exact hnodes
  · rw [hserved]
    exact granted_bindFrom hnodes

/-- Binding ends well when the plan is sound, the ordinals fit, and no account is owned twice. -/
theorem bind_eq_ok_iff {nodes nodes' : List Node} {owners : Assignment} :
    (bind plan source s nodes).value = ⟨nodes', .ok owners⟩ ↔ plan.check = .ok () ∧
      (bindFrom plan source (.start plan) s nodes).value = ⟨nodes', .ok ()⟩ ∧
      Assignment.ofNodes nodes' = .ok owners := by
  unfold bind
  cases hcheck : plan.check with
  | error e => simp
  | ok _ =>
    simp only [Logged.value_bind, true_and]
    obtain ⟨bound, outcome⟩ := (bindFrom plan source (.start plan) s nodes).value
    cases outcome with
    | error e => simp
    | ok _ =>
      cases howners : Assignment.ofNodes bound with
      | error e =>
        simp only [Logged.value_pure, Change.mk.injEq, reduceCtorEq, and_false,
          false_iff, and_true, not_and]
        rintro rfl
        rw [howners]
        nofun
      | ok found =>
        simp only [Logged.value_bind, Logged.value_pure, Change.mk.injEq, and_true,
          Except.ok.injEq]
        refine and_congr_right fun hbound => ?_
        rw [← hbound, howners, Except.ok.injEq]

/-- Once all producing nodes are served nothing is handed out. -/
theorem bindFrom_of_served {d : Deal} {nodes : List Node}
    (hregular : ∀ n ∈ nodes, n.isBios = false) (hd : plan.producingRegular ≤ d.passed) :
    (bindFrom plan source d s nodes).value = ⟨nodes, .ok ()⟩ := by
  induction nodes generalizing d with
  | nil => rfl
  | cons n rest ih =>
    have hn := hregular n (List.mem_cons_self ..)
    have htail := @ih d.skip (fun m hm => hregular m (List.mem_cons_of_mem n hm))
      (Nat.le_succ_of_le hd)
    exact bindFrom_of_idle hn hd htail

/-- A node with the holdings of a position and a pair, if there is one. -/
def outfit (plan : Plan) (pair : Option KeyPair) (i : Nat) (n : Node) : Node :=
  { n with producers := n.producers ++ plan.holdings i, keys := n.keys ++ pair.toList }

theorem outfit_of_idle {j : Nat} (hj : plan.producingRegular ≤ j) (n : Node) :
    outfit plan none (j + 1) n = n := by
  simp only [outfit, holdings, Nat.not_lt.mpr hj, if_false, List.append_nil, Option.toList_none]

/-- The regular nodes get their holdings one after the other, as far as there are producing nodes,
and the pairs are drawn in the same order. -/
theorem bindFrom_after {nodes : List Node} {j : Nat} (hcheck : plan.check = .ok ())
    (hproducers : plan.producers < Account.ordinalLimit)
    (hshared : plan.sharedProducers ≤ Account.ordinalLimit)
    (hregular : ∀ n ∈ nodes, n.isBios = false) :
    (bindFrom plan source (Deal.after plan j) s nodes).value =
      ⟨nodes.mapIdx fun i n => outfit plan
        (source.draws ((nodes.take (plan.producingRegular - j)).map (·.name)) s)[i]? (j + i + 1) n,
        .ok ()⟩ := by
  induction nodes generalizing j s with
  | nil => rfl
  | cons n rest ih =>
    have hn := hregular n (List.mem_cons_self ..)
    by_cases hj : j < plan.producingRegular
    · have hpassed : (Deal.after plan j).passed < plan.producingRegular := hj
      have hfits := Deal.next_add_share_lt hcheck hproducers hj
      have htail := @ih (source.draw n.name s).2 (j + 1)
        fun m hm => hregular m (List.mem_cons_of_mem n hm)
      obtain ⟨left, hleft⟩ : ∃ left, plan.producingRegular - j = left + 1 :=
        ⟨plan.producingRegular - j - 1, by omega⟩
      have hrest : plan.producingRegular - (j + 1) = left := by omega
      rw [hrest, ← Deal.serve_after] at htail
      rw [bindFrom_of_producing hn hpassed hfits htail]
      rw [hleft, List.take_succ_cons, List.map_cons, KeySource.draws, List.mapIdx_cons,
        accounts_after hj hshared]
      simp only [List.getElem?_cons_zero, List.getElem?_cons_succ, Nat.add_zero]
      have hshift : ∀ i, j + 1 + i + 1 = j + (i + 1) + 1 := by omega
      simp only [hshift]
      rfl
    · have hle := Nat.not_lt.mp hj
      have hnone : plan.producingRegular - j = 0 := by omega
      rw [bindFrom_of_served hregular hle, hnone, List.take_zero, List.map_nil, KeySource.draws]
      congr 1
      refine (List.ext_getElem? fun i => ?_).symm
      rw [List.getElem?_mapIdx, List.getElem?_nil]
      have hidle : ∀ m, outfit plan none (j + i + 1) m = m := outfit_of_idle (by omega)
      simp only [hidle, Option.map_id']

/-- The nodes after binding: each has the holdings of its position, and the bios node and the
producing nodes have one pair each. -/
def bound (plan : Plan) (source : KeySource σ) (s : σ) (nodes : List Node) : List Node :=
  nodes.mapIdx fun i n => outfit plan
    (source.draws ((nodes.take (plan.producingRegular + 1)).map (·.name)) s)[i]? i n

theorem bindFrom_start {b : Node} {rest : List Node} (hcheck : plan.check = .ok ())
    (hproducers : plan.producers < Account.ordinalLimit)
    (hshared : plan.sharedProducers ≤ Account.ordinalLimit) (hb : b.isBios = true)
    (hregular : ∀ n ∈ rest, n.isBios = false) :
    (bindFrom plan source (Deal.start plan) s (b :: rest)).value =
      ⟨bound plan source s (b :: rest), .ok ()⟩ := by
  have htail := @bindFrom_after plan _ source (source.draw b.name s).2 rest 0 hcheck hproducers
    hshared hregular
  rw [← Deal.start_eq, Nat.sub_zero] at htail
  rw [bindFrom_of_bios hb htail]
  simp only [bound, List.take_succ_cons, List.map_cons, KeySource.draws, List.mapIdx_cons,
    List.getElem?_cons_zero, List.getElem?_cons_succ, Nat.zero_add]
  rfl

section Fresh

variable {f : Factory} {a : Allocator} {n : Nat}

theorem bound_made : bound plan source s (f.made a n) = (List.range n).map fun i =>
    outfit plan (source.draws (((f.made a n).take (plan.producingRegular + 1)).map (·.name)) s)[i]?
      i (f.nodeAt a i) := by
  apply List.ext_getElem?
  intro i
  rw [bound, List.getElem?_mapIdx, List.getElem?_map, Factory.getElem?_made]
  split
  · rw [List.getElem?_range ‹_›]
    rfl
  · have hnone : (List.range n)[i]? = none := by
      rw [List.getElem?_eq_none_iff, List.length_range]
      omega
    rw [hnone]
    rfl

/-- Fresh nodes claim the whole pool, in order. -/
theorem claims_bound (hcheck : plan.check = .ok ()) (hn : plan.totalNodes = n) :
    (Assignment.claims (bound plan source s (f.made a n))).map (·.producer) =
      (List.range plan.producers).map (Account.name .exclusive) := by
  obtain ⟨htotal, hproducing, _⟩ := check_eq_ok_iff.mp hcheck
  obtain ⟨m, hm⟩ : ∃ m, n = m + 1 := ⟨n - 1, by omega⟩
  have hfew : plan.producingRegular ≤ m := by
    unfold producingRegular
    omega
  rw [Assignment.map_producer_claims, bound_made, List.flatMap_map, hm]
  have hown : ∀ i, (outfit plan (source.draws (((f.made a (m + 1)).take
      (plan.producingRegular + 1)).map (·.name)) s)[i]? i (f.nodeAt a i)).producers.filter
        Account.isExclusive = plan.owned i := by
    intro i
    simp only [outfit, Factory.producers_nodeAt, List.nil_append]
    exact filter_holdings i
  simp only [hown]
  rw [flatMap_owned, Nat.min_eq_right hfew, blockStart_producingRegular hcheck]

/-- Nodes fresh from a factory are bound without fail. -/
theorem bind_made (hcheck : plan.check = .ok ())
    (hproducers : plan.producers < Account.ordinalLimit)
    (hshared : plan.sharedProducers ≤ Account.ordinalLimit) (hroom : a.Room (plan.totalNodes - 1)) :
    ∃ owners, Assignment.ofNodes (bound plan source s (f.made a plan.totalNodes)) = .ok owners ∧
      (bind plan source s (f.made a plan.totalNodes)).value =
        ⟨bound plan source s (f.made a plan.totalNodes), .ok owners⟩ := by
  obtain ⟨m, hm⟩ : ∃ m, plan.totalNodes = m + 1 :=
    ⟨plan.totalNodes - 1, by have := (check_eq_ok_iff.mp hcheck).1; omega⟩
  have hfrom : (bindFrom plan source (Deal.start plan) s (f.made a plan.totalNodes)).value =
      ⟨bound plan source s (f.made a plan.totalNodes), .ok ()⟩ := by
    rw [hm, Factory.made_succ]
    apply bindFrom_start hcheck hproducers hshared rfl
    intro n hn
    obtain ⟨i, hi, rfl⟩ := List.mem_map.mp hn
    have hlt := List.mem_range.mp hi
    have hports := hroom.lt_portLimit
    have hlimit : Counter.portLimit = 65536 := rfl
    exact Factory.isBios_nodeAt (by omega)
  have hnodup : ((Assignment.claims (bound plan source s
      (f.made a plan.totalNodes))).map (·.producer)).Nodup := by
    rw [claims_bound hcheck rfl]
    refine List.Pairwise.map _ (fun i j hij => hij) ?_
    refine List.nodup_range.imp_of_mem fun {i j} hi hj hij hname => hij ?_
    have hi := List.mem_range.mp hi
    have hj := List.mem_range.mp hj
    exact (Account.name_injective (by omega) (by omega) hname).2
  have howners := Assignment.ofNodes_eq_ok_iff.mpr ⟨hnodup, rfl⟩
  exact ⟨_, howners, bind_eq_ok_iff.mpr ⟨hcheck, hfrom, howners⟩⟩

/-- The owner of an account is the node whose block has the account's ordinal. -/
theorem owner?_bound {owners : Assignment}
    (h : Assignment.ofNodes (bound plan source s (f.made a n)) = .ok owners) {producer : String}
    {index : Int32} :
    owners.owner? producer = some index ↔ ∃ j o m, j < plan.producingRegular ∧
      o ∈ plan.block j ∧ (f.made a n)[j + 1]? = some m ∧ producer = Account.name .exclusive o ∧
      index = m.index := by
  rw [Assignment.owner?_eq_some_iff h, bound_made]
  constructor
  · intro hgiven
    obtain ⟨m, hm, hproducer, hexclusive, rfl⟩ := hgiven
    obtain ⟨i, hi, rfl⟩ := List.mem_map.mp hm
    simp only [outfit, Factory.producers_nodeAt, List.nil_append] at hproducer
    have howned := List.mem_filter.mpr ⟨hproducer, hexclusive⟩
    rw [filter_holdings] at howned
    obtain ⟨j, o, rfl, hj, ho, rfl⟩ := mem_owned.mp howned
    refine ⟨j, o, f.nodeAt a (j + 1), hj, ho, ?_, rfl, rfl⟩
    rw [Factory.getElem?_made, if_pos (List.mem_range.mp hi)]
  · intro hgiven
    obtain ⟨j, o, m, hj, ho, hm, rfl, rfl⟩ := hgiven
    rw [Factory.getElem?_made] at hm
    split at hm
    case isFalse => cases hm
    case isTrue hn =>
      cases hm
      have howned := mem_owned.mpr ⟨j, o, rfl, hj, ho, rfl⟩
      rw [← filter_holdings] at howned
      obtain ⟨hproducer, hexclusive⟩ := List.mem_filter.mp howned
      refine ⟨_, List.mem_map.mpr ⟨j + 1, List.mem_range.mpr hn, rfl⟩, ?_, hexclusive, rfl⟩
      simp only [outfit, Factory.producers_nodeAt, List.nil_append]
      exact hproducer

/-- Binding parts the pool among the producing nodes: the nodes have the holdings of their
positions, the pairs are drawn in the order of the nodes, and the assignment has every account of
the pool, with the node whose block it is in, and no other. -/
theorem bind_fresh (f : Factory) (a : Allocator) (plan : Plan) (source : KeySource σ) (s : σ)
    (nodes : List Node) (hcheck : plan.check = .ok ())
    (hproducers : plan.producers < Account.ordinalLimit)
    (hshared : plan.sharedProducers ≤ Account.ordinalLimit)
    (hnodes : (f.createAll plan.totalNodes a).value = .ok nodes) :
    ∃ pairs owners,
      pairs = source.draws ((nodes.take (plan.producingRegular + 1)).map (·.name)) s ∧
      pairs.length = plan.producingRegular + 1 ∧
      (bind plan source s nodes).value =
        ⟨nodes.mapIdx fun i n =>
          { n with producers := plan.holdings i, keys := pairs[i]?.toList }, .ok owners⟩ ∧
      owners.size = plan.producers ∧
      ∀ producer index, owners.owner? producer = some index ↔
        ∃ j o n, j < plan.producingRegular ∧ o ∈ plan.block j ∧ nodes[j + 1]? = some n ∧
          producer = Account.name .exclusive o ∧ index = n.index := by
  obtain ⟨hroom, rfl⟩ := Factory.createAll_eq_ok_iff.mp hnodes
  obtain ⟨owners, howners, hbind⟩ := @bind_made plan σ source s f a hcheck hproducers hshared hroom
  obtain ⟨htotal, hproducing, _⟩ := check_eq_ok_iff.mp hcheck
  refine ⟨_, owners, rfl, ?_, ?_, ?_, fun producer index => owner?_bound howners⟩
  · rw [KeySource.length_draws, List.length_map, List.length_take, Factory.length_made]
    unfold producingRegular
    omega
  · rw [hbind, bound]
    refine congrArg (Change.mk · _) (List.ext_getElem? fun i => ?_)
    rw [List.getElem?_mapIdx, List.getElem?_mapIdx, Factory.getElem?_made]
    split
    · rw [Option.map_some, Option.map_some, outfit, Factory.producers_nodeAt,
        Factory.keys_nodeAt, List.nil_append, List.nil_append]
    · rfl
  · have hlength := congrArg List.length (@claims_bound plan σ source s f a _ hcheck rfl)
    rw [List.length_map, List.length_map, List.length_range] at hlength
    rw [Assignment.size_eq howners, hlength]

/-- Seven accounts on two of three regular nodes: the first has four of them, and the fourth is
its. -/
theorem bind_fresh_of_seven :
    ∃ owners : Assignment, owners.size = 7 ∧
      owners.owner? "defproducerd" = some 0 ∧ owners.owner? "defproducere" = some 1 := by
  let f : Factory := ⟨⟨"etc"⟩, ⟨"var"⟩, 4, 0⟩
  let a : Allocator := .new 9876 8888
  let plan : Plan := ⟨4, 3, 7, 2, 0⟩
  obtain ⟨_, owners, _, _, _, hsize, howner⟩ :=
    bind_fresh f a plan .numbered 0 (f.made a 4) rfl (by decide) (by decide) rfl
  refine ⟨owners, hsize, ?_, ?_⟩
  · exact (howner _ _).mpr ⟨0, 3, f.nodeAt a 1, by decide, by decide, rfl, by decide, rfl⟩
  · exact (howner _ _).mpr ⟨1, 4, f.nodeAt a 2, by decide, by decide, rfl, by decide, rfl⟩

end Fresh

end Binding

end Testnet
