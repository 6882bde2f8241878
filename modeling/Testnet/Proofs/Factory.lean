import Testnet.Proofs.Run
import Testnet.Proofs.Port

/-!
# Nodes as they are made

The list that the factory makes, in closed form: which node stands at a position depends on the
position alone. Names are pairwise different, and as long as the ports suffice only the first node
has the reserved index.
-/

namespace Testnet

namespace Node

/-- The name of a regular node is five letters and a number of at least two digits. -/
theorem toList_regularName (i : Nat) :
    (regularName i).toList =
      ['n', 'o', 'd', 'e', '_'] ++ ((if i < 10 then ['0'] else []) ++ Nat.toDigits 10 i) := by
  unfold regularName
  split <;> simp

/-- The ordinal can be read off the name. -/
theorem ofDigitChars_regularName (i : Nat) :
    Nat.ofDigitChars 10 ((regularName i).toList.drop 5) 0 = i := by
  rw [toList_regularName]
  show Nat.ofDigitChars 10 ((if i < 10 then ['0'] else []) ++ Nat.toDigits 10 i) 0 = i
  split
  · rw [List.singleton_append, Nat.ofDigitChars_cons]
    exact Nat.ofDigitChars_ten_toDigits
  · exact Nat.ofDigitChars_ten_toDigits

theorem regularName_injective {i j : Nat} (h : regularName i = regularName j) : i = j := by
  rw [← ofDigitChars_regularName i, h, ofDigitChars_regularName]

theorem regularName_ne_biosName (i : Nat) : regularName i ≠ biosName := by
  intro h
  have hlist := congrArg String.toList h
  rw [toList_regularName] at hlist
  simp [biosName] at hlist

theorem biosName_notMem_map (ordinals : List Nat) : biosName ∉ ordinals.map regularName := by
  intro h
  obtain ⟨i, _, hname⟩ := List.mem_map.mp h
  exact regularName_ne_biosName i hname

end Node

namespace Factory

variable {f : Factory} {a : Allocator}

/-- The node that stands at a position. -/
def nodeAt (f : Factory) (a : Allocator) : Nat → Node
  | 0 => f.bios a.biosPorts
  | i + 1 => f.regular (i + 1) (a.pairAt i)

/-- The list that is made when the ports suffice. -/
def made (f : Factory) (a : Allocator) (n : Nat) : List Node := (List.range n).map (f.nodeAt a)

theorem create_of_room {position : Nat} (h : a.Room 1) :
    f.create position false a = (.ok (f.regular position (a.pairAt 0)), a.advance 1) := by
  simp [create, Allocator.nextPair_of_room h]

theorem create_of_not_room {position : Nat} (h : ¬ a.Room 1) :
    (f.create position false a).1 = .error .add := by
  have hpair := Allocator.nextPair_of_not_room h
  unfold create
  cases hnext : a.nextPair with
  | mk result b =>
    rw [hnext] at hpair
    cases hpair
    rfl

/-- The regular nodes from a position on are made exactly when the ports suffice. -/
theorem createFrom_eq_ok_iff {p n : Nat} {nodes : List Node} (hp : p ≠ 0) :
    (f.createFrom (List.range' p n) a).value = .ok nodes ↔
      a.Room n ∧ nodes = (List.range n).map fun i => f.regular (p + i) (a.pairAt i) := by
  induction n generalizing p a nodes with
  | zero => simp [createFrom, a.room_zero, eq_comm]
  | succ n ih =>
    have hbios : (p == 0) = false := by simp [hp]
    rw [List.range'_succ, createFrom, hbios, Allocator.room_succ_iff, List.range_succ_eq_map]
    by_cases hroom : a.Room 1
    · have hstep : ∀ i, f.regular (p + 1 + i) ((a.advance 1).pairAt i) =
          f.regular (p + (i + 1)) (a.pairAt (i + 1)) := fun i => by
        rw [Allocator.pairAt_succ, Nat.add_assoc, Nat.add_comm 1]
      rw [create_of_room hroom]
      simp only [Logged.value_bind, Logged.value_pure, map_eq_ok_iff, ih (Nat.succ_ne_zero p),
        hroom, true_and, List.map_cons, List.map_map, Nat.add_zero, hstep]
      constructor
      · intro hgiven
        obtain ⟨rest, ⟨hrest, rfl⟩, rfl⟩ := hgiven
        exact ⟨hrest, rfl⟩
      · intro hgiven
        obtain ⟨hrest, rfl⟩ := hgiven
        exact ⟨_, ⟨hrest, rfl⟩, rfl⟩
    · have hnone : (f.create p false a).1 = .error .add := create_of_not_room hroom
      cases hcreate : f.create p false a with
      | mk result b =>
        rw [hcreate] at hnone
        cases hnone
        simp [hroom]

/-- A whole list is made exactly when the ports suffice for all nodes but the bios node. -/
theorem createAll_eq_ok_iff {n : Nat} {nodes : List Node} :
    (f.createAll n a).value = .ok nodes ↔ a.Room (n - 1) ∧ nodes = f.made a n := by
  unfold createAll made
  cases n with
  | zero => simp [createFrom, a.room_zero, eq_comm]
  | succ n =>
    have hrange : List.range (n + 1) = 0 :: List.range' 1 n := by
      rw [List.range_eq_range', List.range'_succ]
    have hmap : (List.range' 1 n).map (f.nodeAt a) =
        (List.range n).map fun i => f.regular (1 + i) (a.pairAt i) := by
      rw [List.range'_eq_map_range, List.map_map]
      apply List.map_congr_left
      intro i _
      show f.nodeAt a (1 + i) = _
      rw [Nat.add_comm]
      rfl
    rw [hrange, List.map_cons, hmap, Nat.add_sub_cancel]
    show (((f.createFrom (List.range' 1 n) a).value).map _ = _) ↔ _
    rw [map_eq_ok_iff]
    simp only [createFrom_eq_ok_iff Nat.one_ne_zero]
    constructor
    · intro hgiven
      obtain ⟨rest, ⟨hroom, rfl⟩, rfl⟩ := hgiven
      exact ⟨hroom, rfl⟩
    · intro hgiven
      obtain ⟨hroom, rfl⟩ := hgiven
      exact ⟨_, ⟨hroom, rfl⟩, rfl⟩

@[simp] theorem length_made (n : Nat) : (f.made a n).length = n := by simp [made]

theorem getElem?_made (n i : Nat) :
    (f.made a n)[i]? = if i < n then some (f.nodeAt a i) else none := by
  unfold made
  rw [List.getElem?_map]
  split
  · rw [List.getElem?_range ‹_›]
    rfl
  · rw [List.getElem?_eq_none (by simp; omega)]
    rfl

theorem made_succ (n : Nat) :
    f.made a (n + 1) = f.bios a.biosPorts :: (List.range n).map fun i => f.nodeAt a (i + 1) := by
  unfold made
  rw [List.range_succ_eq_map, List.map_cons, List.map_map]
  rfl

theorem producers_nodeAt (i : Nat) : (f.nodeAt a i).producers = [] := by
  cases i <;> rfl

theorem keys_nodeAt (i : Nat) : (f.nodeAt a i).keys = [] := by
  cases i <;> rfl

theorem peers_nodeAt (i : Nat) : (f.nodeAt a i).peers = [] := by
  cases i <;> rfl

theorem configDir_nodeAt (i : Nat) :
    (f.nodeAt a i).configDir = f.configDir.join (f.nodeAt a i).name := by
  cases i <;> simp only [nodeAt, bios, regular, place]

theorem dataDir_nodeAt (i : Nat) :
    (f.nodeAt a i).dataDir = f.dataDir.join (f.nodeAt a i).name := by
  cases i <;> simp only [nodeAt, bios, regular, place]

theorem name_nodeAt (i : Nat) :
    (f.nodeAt a i).name = match i with | 0 => Node.biosName | i + 1 => Node.regularName i := by
  cases i <;> rfl

theorem name_nodeAt_injective {i j : Nat} (h : (f.nodeAt a i).name = (f.nodeAt a j).name) :
    i = j := by
  rw [name_nodeAt, name_nodeAt] at h
  cases i with
  | zero =>
    cases j with
    | zero => rfl
    | succ j => exact absurd h.symm (Node.regularName_ne_biosName j)
  | succ i =>
    cases j with
    | zero => exact absurd h (Node.regularName_ne_biosName i)
    | succ j => rw [Node.regularName_injective h]

/-- Ordinals that fit a word of 31 bits are indices, none of them the reserved one. -/
theorem toInt_index_regular {i : Nat} {ports : Ports} (hi : i < 0x80000000) :
    (f.regular (i + 1) ports).index.toInt = i := Int32.toInt_ofNat_of_lt hi

/-- The index of a node, as a number, says its position. -/
theorem toInt_index_nodeAt {i : Nat} (hi : i ≤ 0x80000000) :
    (f.nodeAt a i).index.toInt = if i = 0 then (-100 : Int) else ((i - 1 : Nat) : Int) := by
  cases i with
  | zero =>
    show Node.biosIndex.toInt = _
    decide
  | succ i => exact toInt_index_regular hi

/-- The last nodes are not started, as long as that leaves the bios node. -/
theorem dontStart_nodeAt {i : Nat} (h : f.unstartedNodes < f.totalNodes) :
    (f.nodeAt a i).dontStart = true ↔ f.totalNodes - f.unstartedNodes ≤ i := by
  cases i with
  | zero => exact iff_of_false Bool.false_ne_true (by omega)
  | succ i => exact decide_eq_true_iff

theorem isBios_nodeAt {i : Nat} (hi : i ≤ 0x80000000) : (f.nodeAt a i).isBios = (i == 0) := by
  cases i with
  | zero => rfl
  | succ i =>
    have hindex : (f.nodeAt a (i + 1)).index.toInt = i := toInt_index_regular hi
    have hne : (f.nodeAt a (i + 1)).index ≠ Node.biosIndex := by
      intro h
      have hbios : Node.biosIndex.toInt = -100 := by decide
      rw [h, hbios] at hindex
      omega
    simpa [Node.isBios] using hne

end Factory

end Testnet
