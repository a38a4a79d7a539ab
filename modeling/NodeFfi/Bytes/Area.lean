import Mathlib.Data.Nat.Basic

/-!
# Areas of bytes

An area gives the byte at each address, or at each offset from a pointer. `write` puts a range of
bytes into it. Two areas agree on a set of addresses when they have the same bytes there; writing
keeps the agreement with what was there outside the range (`agreeOn_write`).
-/

namespace NodeFfi.Bytes

abbrev Byte := BitVec 8

abbrev Area := Nat → Byte

/-- Outside a range of addresses. -/
def Outside (lo hi b : Nat) : Prop := b < lo ∨ hi ≤ b

namespace Area

/-- The bytes from the address `a` on. -/
def at_ (m : Area) (a : Nat) : Area := fun k => m (a + k)

/-- `n` bytes of `src` at the address `a`. -/
def write (m : Area) (a n : Nat) (src : Area) : Area := fun b =>
  if a ≤ b ∧ b < a + n then src (b - a) else m b

/-- All bytes zero. -/
def zero : Area := fun _ => 0

/-- Each byte is the last one of its address. -/
def numbered : Area := fun a => BitVec.ofNat 8 a

/-- The first `n` bytes, then zeros. -/
def extend (m : Area) (n : Nat) : Area := fun k => if k < n then m k else 0

/-- The same bytes at the addresses of a set. -/
def AgreeOn (P : Nat → Prop) (m m' : Area) : Prop := ∀ a, P a → m' a = m a

variable {m m' m'' src : Area} {a b n k : Nat} {P Q : Nat → Prop}

theorem at_apply : m.at_ a k = m (a + k) := rfl

theorem write_of_lt (h : k < n) : m.write a n src (a + k) = src k := by
  unfold write
  rw [if_pos (by omega), Nat.add_sub_cancel_left]

theorem write_of_out (h : b < a ∨ a + n ≤ b) : m.write a n src b = m b := if_neg (by omega)

theorem extend_of_lt (h : k < n) : m.extend n k = m k := if_pos h

theorem AgreeOn.rfl : AgreeOn P m m := fun _ _ => Eq.refl _

theorem AgreeOn.trans (h : AgreeOn P m m') (h' : AgreeOn P m' m'') : AgreeOn P m m'' :=
  fun a ha => (h' a ha).trans (h a ha)

theorem AgreeOn.mono (h : AgreeOn P m m') (hQ : ∀ a, Q a → P a) : AgreeOn Q m m' :=
  fun a ha => h a (hQ a ha)

theorem agreeOn_write (h : ∀ b, P b → b < a ∨ a + n ≤ b) : AgreeOn P m (m.write a n src) :=
  fun b hb => write_of_out (h b hb)

end Area

end NodeFfi.Bytes
