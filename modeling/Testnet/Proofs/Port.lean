import Testnet.Port

/-!
# Ports of many nodes

How far a counter reaches, and what it gives on the way. An allocator has room for a number of
pairs exactly when handing them out one by one never leaves a word.
-/

namespace Testnet

namespace Counter

/-- The counter can hand out that many ports. -/
def Room (c : Counter) (n : Nat) : Prop :=
  (n = 0 ∨ c.base.toNat + c.used.toNat + n ≤ portLimit) ∧ c.used.toNat + n < portLimit

instance (c : Counter) (n : Nat) : Decidable (c.Room n) :=
  inferInstanceAs (Decidable ((_ ∨ _) ∧ _ < _))

/-- The counter after that many ports. -/
def advance (c : Counter) (n : Nat) : Counter := { c with used := c.used + .ofNat n }

/-- The port that is handed out after `i` others. -/
def portAt (c : Counter) (i : Nat) : UInt16 := c.base + (c.used + .ofNat i)

theorem room_zero (c : Counter) : c.Room 0 := ⟨.inl rfl, c.used.toNat_lt⟩

theorem toNat_used_advance {c : Counter} {n i : Nat} (h : c.Room n) (hi : i ≤ n) :
    (c.advance i).used.toNat = c.used.toNat + i := by
  have hlimit : portLimit = 65536 := rfl
  have hn := h.2
  simp only [advance, UInt16.toNat_add, UInt16.toNat_ofNat']
  omega

theorem toNat_portAt {c : Counter} {n i : Nat} (h : c.Room n) (hi : i < n) :
    (c.portAt i).toNat = c.base.toNat + c.used.toNat + i := by
  have hlimit : portLimit = 65536 := rfl
  have hn := h.1
  have hused := toNat_used_advance h (Nat.le_of_lt hi)
  simp only [advance] at hused
  simp only [portAt, UInt16.toNat_add, hused]
  omega

theorem room_one_iff {c : Counter} :
    c.Room 1 ↔ c.base.toNat + c.used.toNat < portLimit ∧ c.used.toNat + 1 < portLimit := by
  unfold Room
  omega

theorem next_of_room {c : Counter} (h : c.Room 1) : c.next = .ok (c.portAt 0, c.advance 1) := by
  have hport : c.portAt 0 = c.base + c.used := by simp [portAt]
  rw [hport, next_eq_ok_iff]
  exact ⟨room_one_iff.mp h, rfl, rfl⟩

theorem next_of_not_room {c : Counter} (h : ¬ c.Room 1) : c.next = .error .add := by
  rw [room_one_iff] at h
  exact if_neg h

theorem room_succ_iff {c : Counter} {n : Nat} :
    c.Room (n + 1) ↔ c.Room 1 ∧ (c.advance 1).Room n := by
  have hlimit : portLimit = 65536 := rfl
  constructor
  · intro h
    have hused : (c.advance 1).used.toNat = c.used.toNat + 1 := toNat_used_advance h (by omega)
    obtain ⟨hbase, hlast⟩ := h
    refine ⟨⟨by omega, by omega⟩, ?_, by omega⟩
    change n = 0 ∨ c.base.toNat + (c.advance 1).used.toNat + n ≤ portLimit
    omega
  · intro hgiven
    obtain ⟨hone, hbase, hlast⟩ := hgiven
    have hused : (c.advance 1).used.toNat = c.used.toNat + 1 :=
      toNat_used_advance hone (Nat.le_refl 1)
    change n = 0 ∨ c.base.toNat + (c.advance 1).used.toNat + n ≤ portLimit at hbase
    obtain ⟨hfirst, _⟩ := hone
    exact ⟨by omega, by omega⟩

theorem advance_advance (c : Counter) (m n : Nat) :
    (c.advance m).advance n = c.advance (m + n) := by
  simp only [advance, UInt16.ofNat_add, UInt16.add_assoc]

theorem portAt_advance (c : Counter) (m i : Nat) :
    (c.advance m).portAt i = c.portAt (m + i) := by
  simp only [portAt, advance, UInt16.ofNat_add, UInt16.add_assoc]

theorem portAt_succ (c : Counter) (i : Nat) : (c.advance 1).portAt i = c.portAt (i + 1) := by
  rw [portAt_advance, Nat.add_comm]

/-- After some ports there is room for the others. -/
theorem Room.advance {c : Counter} {m n : Nat} (h : c.Room (m + n)) : (c.advance m).Room n := by
  have hused : (c.advance m).used.toNat = c.used.toNat + m :=
    toNat_used_advance h (Nat.le_add_right m n)
  obtain ⟨hbase, hlast⟩ := h
  constructor
  · show n = 0 ∨ c.base.toNat + (c.advance m).used.toNat + n ≤ portLimit
    omega
  · omega

/-- A fresh counter has room as long as ports and their number are words. -/
theorem room_new_iff {base : UInt16} {n : Nat} :
    (new base).Room n ↔ n < portLimit ∧ ∀ i < n, base.toNat + i < portLimit := by
  have hused : (new base).used.toNat = 0 := rfl
  have hbase : (new base).base = base := rfl
  unfold Room
  rw [hused, hbase]
  constructor
  · intro h
    exact ⟨by omega, fun i hi => by omega⟩
  · intro h
    obtain ⟨hcount, hports⟩ := h
    cases n with
    | zero => exact ⟨.inl rfl, by omega⟩
    | succ n =>
      have hlast := hports n (Nat.lt_succ_self n)
      exact ⟨by omega, by omega⟩

end Counter

namespace Allocator

def Room (a : Allocator) (n : Nat) : Prop := a.p2p.Room n ∧ a.http.Room n

instance (a : Allocator) (n : Nat) : Decidable (a.Room n) :=
  inferInstanceAs (Decidable (_ ∧ _))

def advance (a : Allocator) (n : Nat) : Allocator := ⟨a.p2p.advance n, a.http.advance n⟩

def pairAt (a : Allocator) (i : Nat) : Ports := ⟨a.p2p.portAt i, a.http.portAt i⟩

theorem room_zero (a : Allocator) : a.Room 0 := ⟨a.p2p.room_zero, a.http.room_zero⟩

theorem room_succ_iff {a : Allocator} {n : Nat} :
    a.Room (n + 1) ↔ a.Room 1 ∧ (a.advance 1).Room n := by
  unfold Room
  rw [Counter.room_succ_iff, Counter.room_succ_iff (c := a.http)]
  exact ⟨fun ⟨⟨a, b⟩, c, d⟩ => ⟨⟨a, c⟩, b, d⟩, fun ⟨⟨a, c⟩, b, d⟩ => ⟨⟨a, b⟩, c, d⟩⟩

theorem Room.lt_portLimit {a : Allocator} {n : Nat} (h : a.Room n) : n < Counter.portLimit := by
  have hp2p := h.1.2
  omega

theorem Room.advance {a : Allocator} {m n : Nat} (h : a.Room (m + n)) : (a.advance m).Room n :=
  ⟨Counter.Room.advance h.1, Counter.Room.advance h.2⟩

theorem advance_advance (a : Allocator) (m n : Nat) :
    (a.advance m).advance n = a.advance (m + n) := by
  simp only [advance, Counter.advance_advance]

theorem pairAt_advance (a : Allocator) (m i : Nat) :
    (a.advance m).pairAt i = a.pairAt (m + i) := by
  simp only [pairAt, advance, Counter.portAt_advance]

theorem pairAt_succ (a : Allocator) (i : Nat) : (a.advance 1).pairAt i = a.pairAt (i + 1) := by
  simp only [pairAt, advance, Counter.portAt_succ]

theorem nextPair_of_room {a : Allocator} (h : a.Room 1) :
    a.nextPair = (.ok (a.pairAt 0), a.advance 1) := by
  simp [nextPair, nextP2p, nextHttp, Counter.next_of_room h.1, Counter.next_of_room h.2, pairAt,
    advance]

theorem nextPair_of_not_room {a : Allocator} (h : ¬ a.Room 1) :
    a.nextPair.1 = .error .add := by
  by_cases hp2p : a.p2p.Room 1
  · have hhttp : ¬ a.http.Room 1 := fun hhttp => h ⟨hp2p, hhttp⟩
    simp [nextPair, nextP2p, nextHttp, Counter.next_of_room hp2p, Counter.next_of_not_room hhttp]
  · simp [nextPair, nextP2p, Counter.next_of_not_room hp2p]

theorem toNat_below (base : UInt16) :
    (below base).toNat = base.toNat - biosOffset.toNat := by
  unfold below
  split
  case isTrue hlow =>
    have hlt := UInt16.lt_iff_toNat_lt.mp hlow
    rw [Nat.sub_eq_zero_of_le (Nat.le_of_lt hlt)]
    rfl
  case isFalse hhigh => exact UInt16.toNat_sub_of_le _ _ (UInt16.not_lt.mp hhigh)

end Allocator

end Testnet
