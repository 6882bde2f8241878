import Testnet.Launch.Entry

/-!
# Argument lists read back

An argument list is read from its front. A flag takes the argument after it as its value, whatever
that looks like, and one flag stands alone as a switch. So the arguments of a node give back, flag
by flag, what they were put together from, and a value that looks like a flag is passed over.
Nothing is said of the arguments that the options append.
-/

namespace Testnet

namespace Launch

/-- The flag that takes no value. -/
def switch : String := "--enable-stale-production"

/-- The flags of an argument list with their values. -/
def flags : List String → List (String × String)
  | flag :: value :: rest =>
    if flag = switch then flags (value :: rest) else (flag, value) :: flags rest
  | _ => []

/-- The values that are given for a flag, in their order. -/
def valuesOf (flag : String) (given : List (String × String)) : List String :=
  (given.filter (·.1 == flag)).map (·.2)

/-- Flags with their values as they stand in an argument list. -/
def written (given : List (String × String)) : List String := given.flatMap fun f => [f.1, f.2]

/-- Every flag with each of its values. -/
def spread (groups : List (String × List String)) : List (String × String) :=
  groups.flatMap fun g => g.2.map fun v => (g.1, v)

/-- The number after the colon of an address. -/
def port (address : String) : Nat :=
  Nat.ofDigitChars 10 (address.toList.dropWhile (· != ':')).tail 0

theorem flags_written_append {given : List (String × String)} (h : ∀ f ∈ given, f.1 ≠ switch)
    (rest : List String) : flags (written given ++ rest) = given ++ flags rest := by
  induction given with
  | nil => rfl
  | cons f given ih =>
    obtain ⟨hf, hgiven⟩ := List.forall_mem_cons.mp h
    show flags (f.1 :: f.2 :: (written given ++ rest)) = _
    rw [flags, if_neg hf, ih hgiven]
    rfl

example : flags ["--data-dir", "--plugin", switch, "--plugin", "net"] =
    [("--data-dir", "--plugin"), ("--plugin", "net")] := by decide

theorem valuesOf_append (flag : String) (first second : List (String × String)) :
    valuesOf flag (first ++ second) = valuesOf flag first ++ valuesOf flag second := by
  rw [valuesOf, List.filter_append, List.map_append]
  rfl

theorem valuesOf_map (flag other : String) (values : List String) :
    valuesOf flag (values.map fun v => (other, v)) = if other = flag then values else [] := by
  unfold valuesOf
  by_cases h : other = flag
  · simp [List.filter_map, Function.comp_def, h]
  · simp [List.filter_map, Function.comp_def, h]

theorem valuesOf_spread_of_not_mem {flag : String} {groups : List (String × List String)}
    (h : flag ∉ groups.map (·.1)) : valuesOf flag (spread groups) = [] := by
  induction groups with
  | nil => rfl
  | cons g groups ih =>
    rw [List.map_cons, List.mem_cons, not_or] at h
    show valuesOf flag (g.2.map (fun v => (g.1, v)) ++ spread groups) = []
    rw [valuesOf_append, valuesOf_map, if_neg (Ne.symm h.1), ih h.2]
    rfl

theorem written_append (first second : List (String × String)) :
    written (first ++ second) = written first ++ written second := List.flatMap_append

theorem spread_append (first second : List (String × List String)) :
    spread (first ++ second) = spread first ++ spread second := List.flatMap_append

theorem spread_singleton (flag : String) (values : List String) :
    spread [(flag, values)] = values.map fun v => (flag, v) := List.flatMap_singleton ..

theorem fst_mem_of_mem_spread {groups : List (String × List String)} {f : String × String}
    (h : f ∈ spread groups) : f.1 ∈ groups.map (·.1) := by
  obtain ⟨g, hg, hf⟩ := List.mem_flatMap.mp h
  obtain ⟨v, _, rfl⟩ := List.mem_map.mp hf
  exact List.mem_map_of_mem hg

/-- A flag of one group has the values of the group. -/
theorem valuesOf_spread {flag : String} {values : List String}
    {groups : List (String × List String)} (hnodup : (groups.map (·.1)).Nodup)
    (h : (flag, values) ∈ groups) : valuesOf flag (spread groups) = values := by
  induction groups with
  | nil => cases h
  | cons g groups ih =>
    rw [List.map_cons, List.nodup_cons] at hnodup
    show valuesOf flag (g.2.map (fun v => (g.1, v)) ++ spread groups) = values
    rw [valuesOf_append, valuesOf_map]
    rcases List.mem_cons.mp h with rfl | h
    · rw [if_pos rfl, valuesOf_spread_of_not_mem hnodup.1, List.append_nil]
    · have hne : g.1 ≠ flag := fun heq => hnodup.1 (heq ▸ List.mem_map_of_mem h)
      rw [if_neg hne, ih hnodup.2 h, List.nil_append]

/-- An address says its port. -/
theorem port_append {front : String} {host : List Char} (hfront : front.toList = host ++ [':'])
    (hhost : ':' ∉ host) (p : Nat) : port (front ++ toString p) = p := by
  have hskip : (front ++ toString p).toList.dropWhile (· != ':') = ':' :: Nat.toDigits 10 p := by
    rw [String.toList_append, hfront, List.append_assoc, List.dropWhile_append_of_pos]
    · simp
    · intro c hc
      rw [bne_iff_ne]
      rintro rfl
      exact hhost hc
  rw [port, hskip]
  exact Nat.ofDigitChars_ten_toDigits

theorem port_listen (p : Nat) : port ("0.0.0.0:" ++ toString p) = p :=
  port_append (show "0.0.0.0:".toList = "0.0.0.0".toList ++ [':'] from rfl) (by decide) p

theorem port_peer (p : Nat) : port ("localhost:" ++ toString p) = p :=
  port_append (show "localhost:".toList = "localhost".toList ++ [':'] from rfl) (by decide) p

end Launch

namespace Network

open Launch

variable (n : Network) (node : Node) (o : LaunchOptions)

/-- The arguments of a node without those that the options append. -/
def ownArguments : List String :=
  homeArguments node ++ node.peers.flatMap n.peerArguments ++ producerArguments node ++
    biosArguments node o ++ ["--genesis-timestamp", n.genesis.initialTimestamp]

/-- The addresses of those peers that the network has. -/
def addresses (peers : List String) : List String :=
  peers.flatMap fun peer =>
    (n.node? peer).toList.map fun p => "localhost:" ++ toString p.ports.p2p.toNat

/-- What a key is given as to a node that signs with it. -/
def signatureProvider (k : KeyPair) : String := k.publicKey ++ "=KEY:" ++ k.privateKey

def homeGroups : List (String × List String) :=
  [("--config-dir", [node.configDir.text]), ("--data-dir", [node.dataDir.text]),
    ("--p2p-listen-endpoint", ["0.0.0.0:" ++ toString node.ports.p2p.toNat]),
    ("--http-server-address", ["127.0.0.1:" ++ toString node.ports.http.toNat])]

def producerGroups : List (String × List String) :=
  [("--plugin", if node.isProducing then ["eosio::producer_plugin"] else []),
    ("--producer-name", node.producers),
    ("--signature-provider", if node.isProducing then node.keys.map signatureProvider else [])]

/-- What a node is told before it is told where the chain starts, flag by flag. -/
def placeGroups : List (String × List String) :=
  homeGroups node ++ [("--p2p-peer-address", n.addresses node.peers)] ++ producerGroups node

def startGroups : List (String × List String) :=
  [("--genesis-json", if node.isBios then [o.genesisPath.text] else []),
    ("--genesis-timestamp", [n.genesis.initialTimestamp])]

/-- Everything that a node is told, flag by flag. -/
def groups : List (String × List String) := n.placeGroups node ++ n.startGroups node o

theorem arguments_eq : n.arguments node o =
    n.ownArguments node o ++ mergeArguments o.extra o.specific node.index := rfl

theorem map_fst_groups : (n.groups node o).map (·.1) =
    ["--config-dir", "--data-dir", "--p2p-listen-endpoint", "--http-server-address",
      "--p2p-peer-address", "--plugin", "--producer-name", "--signature-provider",
      "--genesis-json", "--genesis-timestamp"] := rfl

theorem addresses_cons (peer : String) (rest : List String) : n.addresses (peer :: rest) =
    ((n.node? peer).toList.map fun p => "localhost:" ++ toString p.ports.p2p.toNat) ++
      n.addresses rest := List.flatMap_cons

theorem written_peers (peers : List String) : peers.flatMap n.peerArguments =
    written (spread [("--p2p-peer-address", n.addresses peers)]) := by
  rw [spread_singleton]
  induction peers with
  | nil => rfl
  | cons peer rest ih =>
    rw [List.flatMap_cons, ih, addresses_cons, List.map_append, written_append]
    unfold peerArguments
    cases n.node? peer <;> rfl

theorem written_producers : producerArguments node = written (spread (producerGroups node)) := by
  unfold producerArguments producerGroups
  by_cases hproducing : node.isProducing = true
  · simp [written, spread, List.flatMap_map, signatureProvider, hproducing]
  · have hnone : node.producers = [] := by simpa [Node.isProducing] using hproducing
    simp [written, spread, hproducing, hnone]

/-- All but the arguments about the start of the chain are flags with values. -/
theorem written_placeGroups :
    homeArguments node ++ node.peers.flatMap n.peerArguments ++ producerArguments node =
      written (spread (n.placeGroups node)) := by
  have hhome : homeArguments node = written (spread (homeGroups node)) := rfl
  rw [hhome, written_peers, written_producers, placeGroups, spread_append, spread_append,
    written_append, written_append]

/-- Where the chain starts is told in flags with values but for the switch before them. -/
theorem flags_start : flags (biosArguments node o ++
    ["--genesis-timestamp", n.genesis.initialTimestamp]) = spread (n.startGroups node o) := by
  unfold biosArguments startGroups
  cases node.isBios <;> rfl

/-- The arguments of a node are read back as what it is told. -/
theorem flags_ownArguments : flags (n.ownArguments node o) = spread (n.groups node o) := by
  -- Only the flags are compared with the switch, so the values may be anything.
  have hplace : ∀ f ∈ spread (n.placeGroups node), f.1 ≠ switch := by
    intro f hf heq
    have hname : f.1 ∈ (n.groups node o).map (·.1) := by
      rw [groups, List.map_append]
      exact List.mem_append_left _ (fst_mem_of_mem_spread hf)
    rw [heq, map_fst_groups] at hname
    exact absurd hname (by decide)
  rw [ownArguments, written_placeGroups, List.append_assoc, flags_written_append hplace,
    flags_start, groups, spread_append]

/-- What a node is told for a flag. -/
theorem valuesOf_ownArguments {flag : String} {values : List String}
    (h : (flag, values) ∈ n.groups node o) :
    valuesOf flag (flags (n.ownArguments node o)) = values := by
  rw [flags_ownArguments]
  refine valuesOf_spread ?_ h
  rw [map_fst_groups]
  decide

end Network

end Testnet
