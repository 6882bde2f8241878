import Testnet.Config.Check
import Testnet.Proofs.Port
import Testnet.Proofs.Run
import Testnet.Proofs.Shape

/-!
# Which configurations pass

A configuration passes its check exactly when names are not empty, both bases leave room, and no
limit is zero. Each base is looked at by itself. A count that is far too large is not always
refused: it is added to the base before it is compared with anything, and the sum has to be a count.
-/

namespace Testnet.Config

variable {c : Config}

theorem refuse_eq_ok_iff {ε α : Type} {p : Prop} [Decidable p] {e : ε} {f : Unit → Except ε α}
    {x : Except ε α} {a : α} : (if p then throw e >>= f else x) = .ok a ↔ ¬ p ∧ x = .ok a := by
  by_cases hp : p
  · rw [if_pos hp]
    exact ⟨nofun, fun h => absurd hp h.1⟩
  · rw [if_neg hp]
    exact ⟨fun h => ⟨hp, h⟩, fun h => h.2⟩

theorem refuse_eq_error_iff {ε α : Type} {p : Prop} [Decidable p] {e e' : ε}
    {f : Unit → Except ε α} {x : Except ε α} :
    (if p then throw e >>= f else x) = .error e' ↔ p ∧ e = e' ∨ ¬ p ∧ x = .error e' := by
  by_cases hp : p
  · rw [if_pos hp]
    show Except.error e = .error e' ↔ _
    simp [hp]
  · simp [hp]

theorem check_bind_eq_ok_iff {ε α : Type} {x : Except ε Unit} {f : Unit → Except ε α} {a : α} :
    x >>= f = .ok a ↔ x = .ok () ∧ f () = .ok a := by
  rw [bind_eq_ok_iff]
  constructor
  · intro h
    obtain ⟨_, hx, ha⟩ := h
    exact ⟨hx, ha⟩
  · intro h
    exact ⟨(), h⟩

theorem check_bind_eq_error_iff {ε α : Type} {x : Except ε Unit} {f : Unit → Except ε α} {e : ε} :
    x >>= f = .error e ↔ x = .error e ∨ x = .ok () ∧ f () = .error e := by
  rw [bind_eq_error_iff]
  apply or_congr_right
  constructor
  · intro h
    obtain ⟨_, hx, he⟩ := h
    exact ⟨hx, he⟩
  · intro h
    exact ⟨(), h⟩

theorem not_lt_biosOffset_iff {base : UInt16} :
    ¬ base < Allocator.biosOffset ↔ Allocator.biosOffset.toNat ≤ base.toNat := by
  rw [UInt16.lt_iff_toNat_lt, Nat.not_lt]

theorem checkBase_eq_ok_iff {kind : PortKind} {base : UInt16} {totalNodes : Nat} :
    checkBase kind base totalNodes = .ok () ↔
      Allocator.biosOffset.toNat ≤ base.toNat ∧ base.toNat + totalNodes ≤ lastPort := by
  have hlast : lastPort = 65535 := rfl
  have hlimit : countLimit = 18446744073709551616 := rfl
  unfold checkBase
  by_cases hlow : base < Allocator.biosOffset
  · rw [if_pos hlow]
    exact ⟨nofun, fun h => absurd hlow (not_lt_biosOffset_iff.mpr h.1)⟩
  · rw [if_neg hlow, and_iff_right (not_lt_biosOffset_iff.mp hlow)]
    split
    case h_1 what hadd =>
      have hsum := (addCounts_eq_error_iff.mp hadd).1
      exact ⟨nofun, fun h => absurd h (by omega)⟩
    case h_2 last hadd =>
      obtain ⟨_, rfl⟩ := addCounts_eq_ok_iff.mp hadd
      split
      · exact ⟨nofun, fun h => absurd h (by omega)⟩
      · exact ⟨fun _ => by omega, fun _ => rfl⟩

/-- A base overflows with a count only if the sum of the two is no count. -/
theorem checkBase_eq_overflow_iff {kind : PortKind} {base : UInt16} {totalNodes : Nat}
    {what : Overflow} : checkBase kind base totalNodes = .error (.overflow what) ↔
      Allocator.biosOffset.toNat ≤ base.toNat ∧ countLimit ≤ base.toNat + totalNodes ∧
        what = .add := by
  unfold checkBase
  by_cases hlow : base < Allocator.biosOffset
  · rw [if_pos hlow]
    exact ⟨nofun, fun h => absurd hlow (not_lt_biosOffset_iff.mpr h.1)⟩
  · rw [if_neg hlow, and_iff_right (not_lt_biosOffset_iff.mp hlow), ← addCounts_eq_error_iff]
    split
    case h_1 e hadd =>
      rw [hadd, Except.error.injEq, Except.error.injEq, Stop.overflow.injEq]
    case h_2 last hadd =>
      rw [hadd]
      refine ⟨fun h => ?_, nofun⟩
      split at h
      · cases h
      · cases h

theorem checkLimit_ne_overflow {fault : Fault} {limit : Option UInt32} {what : Overflow} :
    checkLimit fault limit ≠ .error (.overflow what) := by
  unfold checkLimit
  split <;> nofun

theorem checkLimit_eq_ok_iff {fault : Fault} {limit : Option UInt32} :
    checkLimit fault limit = .ok () ↔ limit ≠ some 0 := by
  unfold checkLimit
  split
  · exact ⟨nofun, fun h => absurd ‹_› h⟩
  · exact ⟨fun _ => ‹_›, fun _ => rfl⟩

theorem check_eq_ok_iff : c.check = .ok () ↔
    ¬ c.general.name.isEmpty = true ∧ ¬ (Text.trim c.network.shape).isEmpty = true ∧
    (Allocator.biosOffset.toNat ≤ c.network.p2pBase.toNat ∧
      c.network.p2pBase.toNat + c.network.totalNodes ≤ lastPort) ∧
    (Allocator.biosOffset.toNat ≤ c.network.httpBase.toNat ∧
      c.network.httpBase.toNat + c.network.totalNodes ≤ lastPort) ∧
    c.genesis.maxBlockCpuUsage ≠ some 0 ∧ c.genesis.maxTransactionCpuUsage ≠ some 0 := by
  unfold check
  dsimp only
  rw [refuse_eq_ok_iff, refuse_eq_ok_iff]
  simp only [check_bind_eq_ok_iff, checkBase_eq_ok_iff, checkLimit_eq_ok_iff]

/-- What a configuration is checked for. The sums are sums of numbers, whatever their size. -/
structure Sound (c : Config) : Prop where
  name : c.general.name ≠ ""
  shape : ∃ ch ∈ c.network.shape.toList, Text.isBlank ch = false
  p2p : 100 ≤ c.network.p2pBase.toNat ∧ c.network.p2pBase.toNat + c.network.totalNodes ≤ 65535
  http : 100 ≤ c.network.httpBase.toNat ∧ c.network.httpBase.toNat + c.network.totalNodes ≤ 65535
  blockCpu : c.genesis.maxBlockCpuUsage ≠ some 0
  transactionCpu : c.genesis.maxTransactionCpuUsage ≠ some 0

/-- The first sum of a check is no count. -/
structure SumOverflows (c : Config) : Prop where
  name : c.general.name ≠ ""
  shape : ∃ ch ∈ c.network.shape.toList, Text.isBlank ch = false
  p2p : 100 ≤ c.network.p2pBase.toNat
  sum : countLimit ≤ c.network.p2pBase.toNat + c.network.totalNodes

theorem not_isEmpty_iff {s : String} : ¬ s.isEmpty = true ↔ s ≠ "" := by
  rw [String.isEmpty_iff]

theorem trim_ne_empty_iff {s : String} :
    Text.trim s ≠ "" ↔ ∃ ch ∈ s.toList, Text.isBlank ch = false := by
  rw [ne_eq, Text.trim_eq_empty_iff]
  simp only [not_forall, Bool.not_eq_true, exists_prop]

theorem check_eq_ok_iff_sound : c.check = .ok () ↔ c.Sound := by
  rw [check_eq_ok_iff, not_isEmpty_iff, not_isEmpty_iff, trim_ne_empty_iff]
  constructor
  · intro h
    obtain ⟨hname, hshape, hp2p, hhttp, hblock, htransaction⟩ := h
    exact ⟨hname, hshape, hp2p, hhttp, hblock, htransaction⟩
  · intro h
    exact ⟨h.name, h.shape, h.p2p, h.http, h.blockCpu, h.transactionCpu⟩

/-- Where the first sum is a port the second one is a count, so only the first ever overflows. -/
theorem check_eq_overflow_iff {what : Overflow} :
    c.check = .error (.overflow what) ↔ c.SumOverflows ∧ what = .add := by
  have hlast : lastPort = 65535 := rfl
  have hlimit : countLimit = 18446744073709551616 := rfl
  have hword := c.network.httpBase.toNat_lt
  unfold check
  dsimp only
  simp only [refuse_eq_error_iff, check_bind_eq_error_iff, reduceCtorEq, and_false, false_or,
    checkBase_eq_overflow_iff, checkBase_eq_ok_iff, checkLimit_ne_overflow, or_false,
    not_isEmpty_iff, trim_ne_empty_iff]
  constructor
  · rintro ⟨hname, hshape, ⟨hp2p, hsum, hwhat⟩ | ⟨⟨_, hport⟩, _, hsum, _⟩⟩
    · exact ⟨⟨hname, hshape, hp2p, hsum⟩, hwhat⟩
    · omega
  · rintro ⟨⟨hname, hshape, hp2p, hsum⟩, hwhat⟩
    exact ⟨hname, hshape, .inl ⟨hp2p, hsum, hwhat⟩⟩

theorem exists_overflow_iff :
    (∃ what, c.check = .error (.overflow what)) ↔ c.SumOverflows := by
  simp only [check_eq_overflow_iff, exists_and_left, exists_eq, and_true]

theorem exists_refused_iff : (∃ fault, c.check = .error (.refused fault)) ↔
    ¬ c.check = .ok () ∧ ¬ ∃ what, c.check = .error (.overflow what) := by
  cases c.check with
  | ok _ => simp
  | error why => cases why <;> simp

/-- A configuration passes exactly if it is sound, and overflows exactly if the first sum is no
count; any other is refused for a fault. -/
theorem check_ok_overflow_refused_iff (c : Config) :
    (c.check = .ok () ↔ c.Sound) ∧
    ((∃ what, c.check = .error (.overflow what)) ↔ c.SumOverflows) ∧
    ((∃ fault, c.check = .error (.refused fault)) ↔ ¬ c.Sound ∧ ¬ c.SumOverflows) := by
  refine ⟨check_eq_ok_iff_sound, exists_overflow_iff, ?_⟩
  rw [exists_refused_iff, check_eq_ok_iff_sound, exists_overflow_iff]

/-- The largest count of all is no count any more when the standard base is added to it. -/
example : check { Config.standard with
      network := { Layout.standard with totalNodes := countLimit - 1 } } =
    .error (.overflow .add) := rfl

/-- A configuration that passes leaves room for the ports of all regular nodes. -/
theorem room_of_check (h : c.check = .ok ()) :
    c.network.totalNodes ≤ lastPort ∧ c.allocator.Room (c.network.totalNodes - 1) := by
  obtain ⟨_, _, ⟨_, hp2p⟩, ⟨_, hhttp⟩, _⟩ := check_eq_ok_iff.mp h
  have hlast : lastPort = 65535 := rfl
  have hlimit : Counter.portLimit = 65536 := rfl
  refine ⟨by omega, Counter.room_new_iff.mpr ⟨by omega, fun i hi => by omega⟩, ?_⟩
  exact Counter.room_new_iff.mpr ⟨by omega, fun i hi => by omega⟩

end Testnet.Config
