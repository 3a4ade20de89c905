/-! Room in memory. What is kept together lies in one block, and no block has more than
`2 ^ 63 - 1` bytes; how many items a block holds depends on the size of one. An operation whose
block cannot exist ends everything, whatever would have been put into the block. -/
namespace Conference.Memory

/-- The most bytes of a block. -/
def blockSize : Nat := 1 <<< 63 - 1

/-- Whether a block holds `count` items of `size` bytes. -/
def holds (size count : Nat) : Bool := decide (size * count ≤ blockSize)

/-- Whether a block holds `count` samples, of four bytes each. -/
def holdsSamples (count : Nat) : Bool := holds 4 count

/-- Whether a block holds a set of `count` samples that is shared. Two counters of eight bytes lie
before the samples, and the block is a multiple of eight bytes long. -/
def holdsShared (count : Nat) : Bool := holds 8 (2 + (count + 1) / 2)

/-- What holds some items holds fewer of them. -/
theorem holds_of_le (held : holds size many = true) (fewer : few ≤ many) :
    holds size few = true := by
  simp only [holds, decide_eq_true_eq] at held ⊢
  exact Nat.le_trans (Nat.mul_le_mul_left size fewer) held

theorem shared_of_le (held : holdsShared many = true) (fewer : few ≤ many) :
    holdsShared few = true :=
  holds_of_le held (Nat.add_le_add_left (Nat.div_le_div_right (Nat.succ_le_succ fewer)) 2)

/-- Samples take less room alone than in a shared set. -/
theorem samples_of_shared (held : holdsShared count = true) : holdsSamples count = true := by
  simp only [holdsShared, holdsSamples, holds, decide_eq_true_eq] at held ⊢
  omega

end Conference.Memory
