/-!
# Producer accounts

Accounts are named by ordinal. The first 26 of a pool end in one letter, later ones in a code of
seven letters. Shared accounts are recognised by the beginning of their name.
-/

namespace Testnet

/-- Who may hold an account: one node only, or every producing node. -/
inductive Pool where
  | exclusive
  | shared
deriving DecidableEq, Repr

namespace Account

/-- The account that only the bios node holds. -/
def system : String := "eosio"

/-- Ordinals are words of 32 bits. -/
def ordinalLimit : Nat := UInt32.size

/-- Ordinals below this one are written as a single letter. -/
def letters : Nat := 26

def letter (n : Nat) : Char := Char.ofNat ('a'.toNat + n % letters)

/-- The last `width` digits of a number in base 26, written as letters. -/
def code : Nat → Nat → List Char
  | 0, _ => []
  | width + 1, n => code width (n / letters) ++ [letter n]

def stem : Pool → List Char
  | .exclusive => ['d', 'e', 'f', 'p', 'r']
  | .shared => ['s', 'h', 'r', 'p', 'r']

/-- What follows the stem; the code of the first long name is that of one. -/
def ending (ordinal : Nat) : List Char :=
  if ordinal < letters then ['o', 'd', 'u', 'c', 'e', 'r', letter ordinal]
  else code 7 (ordinal - 25)

/-- The name of an account of a pool. -/
def name (pool : Pool) (ordinal : Nat) : String := String.ofList (stem pool ++ ending ordinal)

/-- An account whose name begins like a shared one belongs to no node alone. -/
def isShared (account : String) : Bool := (stem .shared).isPrefixOf account.toList

/-- Accounts that are owned by a single node: neither shared nor the system account. -/
def isExclusive (account : String) : Bool := account != system && !isShared account

def isNameChar (c : Char) : Bool := ('a' ≤ c && c ≤ 'z') || ('1' ≤ c && c ≤ '5') || c = '.'

/-- A usable account name has 1 to 12 characters of the alphabet and does not end in a dot. -/
def isValid (account : String) : Bool :=
  let cs := account.toList
  !cs.isEmpty && cs.length ≤ 12 && cs.all isNameChar && cs.getLast? != some '.'

theorem length_code (width n : Nat) : (code width n).length = width := by
  induction width generalizing n with
  | zero => rfl
  | succ w ih => simp [code, ih]

theorem length_ending (ordinal : Nat) : (ending ordinal).length = 7 := by
  unfold ending
  split
  · rfl
  · exact length_code 7 _

theorem isShared_name (pool : Pool) (ordinal : Nat) :
    isShared (name pool ordinal) = decide (pool = .shared) := by
  cases pool <;> simp [isShared, name, stem, List.isPrefixOf]

end Account

end Testnet
