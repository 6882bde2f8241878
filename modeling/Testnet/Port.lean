import Testnet.Overflow

/-!
# Ports

Every node listens on a pair of ports. Regular nodes take theirs from two counters that run
independently; the bios node sits at a fixed distance below both bases.
-/

namespace Testnet

structure Ports where
  p2p : UInt16
  http : UInt16
deriving DecidableEq, Repr

/-- Hands out the ports from `base` upward; `used` counts those handed out. -/
structure Counter where
  base : UInt16
  used : UInt16
deriving DecidableEq, Repr

namespace Counter

def portLimit : Nat := UInt16.size

def new (base : UInt16) : Counter := ⟨base, 0⟩

/-- The next port. Neither the port nor the number of ports in use may leave its word. -/
def next (c : Counter) : Except Overflow (UInt16 × Counter) :=
  if c.base.toNat + c.used.toNat < portLimit ∧ c.used.toNat + 1 < portLimit then
    .ok (c.base + c.used, { c with used := c.used + 1 })
  else .error .add

theorem next_eq_ok_iff {c : Counter} {port : UInt16} {c' : Counter} :
    c.next = .ok (port, c') ↔
      (c.base.toNat + c.used.toNat < portLimit ∧ c.used.toNat + 1 < portLimit) ∧
        port = c.base + c.used ∧ c' = { c with used := c.used + 1 } := by
  unfold next
  split
  · simp_all [eq_comm]
  · simp only [reduceCtorEq, false_iff, not_and]
    exact fun h => absurd h ‹_›

end Counter

/-- One counter for each kind of port. -/
structure Allocator where
  p2p : Counter
  http : Counter
deriving DecidableEq, Repr

namespace Allocator

def defaultP2p : UInt16 := 9876

def defaultHttp : UInt16 := 8888

/-- How far below the bases the bios node listens. -/
def biosOffset : UInt16 := 100

def new (p2p http : UInt16) : Allocator := ⟨.new p2p, .new http⟩

/-- The allocator used when no bases are given. -/
def standard : Allocator := new defaultP2p defaultHttp

def nextP2p (a : Allocator) : Except Overflow UInt16 × Allocator :=
  match a.p2p.next with
  | .ok (port, c) => (.ok port, { a with p2p := c })
  | .error e => (.error e, a)

def nextHttp (a : Allocator) : Except Overflow UInt16 × Allocator :=
  match a.http.next with
  | .ok (port, c) => (.ok port, { a with http := c })
  | .error e => (.error e, a)

/-- A pair for a regular node. The first port stays taken when there is no second. -/
def nextPair (a : Allocator) : Except Overflow Ports × Allocator :=
  match a.nextP2p with
  | (.ok p2p, b) =>
    match b.nextHttp with
    | (.ok http, c) => (.ok ⟨p2p, http⟩, c)
    | (.error e, c) => (.error e, c)
  | (.error e, b) => (.error e, b)

def below (base : UInt16) : UInt16 := if base < biosOffset then 0 else base - biosOffset

/-- The pair of the bios node; the counters stay as they are. -/
def biosPorts (a : Allocator) : Ports := ⟨below a.p2p.base, below a.http.base⟩

end Allocator

end Testnet
