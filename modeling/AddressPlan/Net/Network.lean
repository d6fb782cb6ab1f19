import AddressPlan.Net.Address.Parser
import AddressPlan.Net.Address.Printer

/-!
Networks: an address with a prefix length. The address may be any one of the network's addresses, so a
network also serves as a host with the length of the network it belongs to; `truncate` forgets which.
-/

namespace AddressPlan.Net

open Text

/-- An address together with a prefix length, as in `10.0.0.5/24`. -/
structure Network where
  address : Address
  length : Nat
  length_le : length ≤ address.family.width
  deriving DecidableEq, Repr

namespace Network

def family (n : Network) : Family :=
  n.address.family

/-- The network with the given length around an address, if the family has such a length. -/
def of? (a : Address) (length : Nat) : Option Network :=
  if h : length ≤ a.family.width then some ⟨a, length, h⟩ else none

/-- A single address as a network. -/
def host (a : Address) : Network :=
  ⟨a, a.family.width, Nat.le_refl _⟩

def size (n : Network) : Nat :=
  2 ^ (n.family.width - n.length)

theorem size_pos (n : Network) : 0 < n.size :=
  Nat.two_pow_pos _

def first (n : Network) : Nat :=
  n.address.value / n.size * n.size

def last (n : Network) : Nat :=
  n.first + (n.size - 1)

theorem first_le (n : Network) : n.first ≤ n.address.value :=
  Nat.div_mul_le_self _ _

theorem first_lt (n : Network) : n.first < 2 ^ n.family.width :=
  Nat.lt_of_le_of_lt n.first_le n.address.value_lt

theorem first_le_last (n : Network) : n.first ≤ n.last :=
  Nat.le_add_right _ _

theorem le_last (n : Network) : n.address.value ≤ n.last := by
  have h := Nat.div_add_mod n.address.value n.size
  have hm := Nat.mod_lt n.address.value n.size_pos
  rw [Nat.mul_comm] at h
  unfold last first
  omega

theorem last_lt (n : Network) : n.last < 2 ^ n.family.width := by
  have hp : 2 ^ n.family.width = 2 ^ n.length * n.size := by
    unfold size
    rw [← Nat.pow_add]
    congr 1
    have := n.length_le
    unfold family
    omega
  have hq : n.address.value / n.size < 2 ^ n.length := by
    rw [Nat.div_lt_iff_lt_mul n.size_pos, ← hp]
    exact n.address.value_lt
  have hs := n.size_pos
  have hmul : (n.address.value / n.size + 1) * n.size ≤ 2 ^ n.length * n.size :=
    Nat.mul_le_mul_right _ hq
  rw [Nat.add_mul, Nat.one_mul] at hmul
  rw [hp]
  unfold last first
  omega

/-- The network with its lowest address in place of the one it was written with. -/
def truncate (n : Network) : Network :=
  ⟨⟨n.family, n.first, n.first_lt⟩, n.length, n.length_le⟩

/-! ### Text -/

def chars (n : Network) : List Char :=
  n.address.chars ++ '/' :: decimal n.length

def text (n : Network) : String :=
  .ofList n.chars

/-- The most digits in which a prefix length may be written. -/
def lengthDigits : Family → Nat
  | .v4 => 2
  | .v6 => 3

/-- A text that is an address, a slash and a prefix length. -/
def ofChars? (cs : List Char) : Option Network := do
  let (a, cs) ← Address.take? .tolerant cs
  let (ds, rest) := takeDigits 10 (← dropChar? '/' cs)
  if ds.isEmpty || lengthDigits a.family < ds.length || !rest.isEmpty then none
  else of? a (ofDigits 10 ds)

end Network

end AddressPlan.Net
