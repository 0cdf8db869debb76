import Mathlib.Logic.Function.Basic
import Mathlib.Data.List.FinRange

/-!
# A flat memory

A byte at every address, and buffers that are ranges of addresses.  Writes are pairs of an
address and a byte; they reach wherever their address is, and whether they stay inside a
buffer is a check on the list of them.
-/

set_option autoImplicit false

namespace BleBroadcast.Lib

universe u

abbrev FlatMemory (β : Type u) := Nat → β

structure Buffer where
  base : Nat
  size : Nat

def Buffer.Holds (buffer : Buffer) (address : Nat) : Prop :=
  buffer.base ≤ address ∧ address < buffer.base + buffer.size

instance holdsDecidable (buffer : Buffer) (address : Nat) : Decidable (buffer.Holds address) :=
  inferInstanceAs (Decidable (_ ∧ _))

def Buffer.Apart (first second : Buffer) : Prop :=
  ∀ address, first.Holds address → ¬ second.Holds address

variable {β : Type u} {n m : Nat}

def block (base : Nat) (bytes : Fin n → β) : List (Nat × β) :=
  (List.finRange n).map fun i => (base + i.val, bytes i)

/-- The checked writes: none leaves the buffer. -/
def WritesWithin (buffer : Buffer) (writes : List (Nat × β)) : Prop :=
  ∀ write ∈ writes, buffer.Holds write.1

namespace FlatMemory

def apply (memory : FlatMemory β) (writes : List (Nat × β)) : FlatMemory β :=
  writes.foldl (fun memory write => Function.update memory write.1 write.2) memory

def read (memory : FlatMemory β) (base : Nat) : Fin n → β := fun i => memory (base + i.val)

end FlatMemory

/-! ## Buffers -/

theorem Buffer.Apart.symm {first second : Buffer} (apart : first.Apart second) :
    second.Apart first :=
  fun address inSecond inFirst => apart address inFirst inSecond

theorem apart_of_le {first second : Buffer} (before : first.base + first.size ≤ second.base) :
    first.Apart second := by
  rintro address ⟨_, inFirst⟩ ⟨inSecond, _⟩
  omega

theorem apart_iff {base other : Nat} :
    Buffer.Apart ⟨base, n + 1⟩ ⟨other, m + 1⟩ ↔
      base + (n + 1) ≤ other ∨ other + (m + 1) ≤ base := by
  constructor
  · intro apart
    by_contra overlap
    refine apart (max base other) ⟨le_max_left _ _, ?_⟩ ⟨le_max_right _ _, ?_⟩
    · simp only
      omega
    · simp only
      omega
  · rintro (before | after)
    · exact apart_of_le before
    · exact (apart_of_le after).symm

theorem not_holds_iff {base address : Nat} :
    ¬ Buffer.Holds ⟨base, n⟩ address ↔ address < base ∨ base + n ≤ address := by
  rw [Buffer.Holds, not_and_or, not_le, not_lt]

theorem holds_offset (base : Nat) (i : Fin n) : Buffer.Holds ⟨base, n⟩ (base + i.val) :=
  ⟨Nat.le_add_right _ _, Nat.add_lt_add_left i.isLt base⟩

/-! ## Reads -/

theorem read_congr {first second : FlatMemory β} {base size : Nat}
    (agree : ∀ offset < size, first (base + offset) = second (base + offset)) {start : Nat}
    (inside : start + n ≤ size) :
    (first.read (base + start) : Fin n → β) = second.read (base + start) := by
  funext i
  have below := i.isLt
  simp only [FlatMemory.read, Nat.add_assoc]
  exact agree _ (by omega)

/-! ## Writes -/

theorem mem_block {base : Nat} {bytes : Fin n → β} {write : Nat × β} :
    write ∈ block base bytes ↔ ∃ i : Fin n, (base + i.val, bytes i) = write := by
  simp [block]

theorem writesWithin_nil (buffer : Buffer) : WritesWithin buffer ([] : List (Nat × β)) :=
  fun _ member => absurd member List.not_mem_nil

theorem writesWithin_block_iff {buffer : Buffer} {base : Nat} (bytes : Fin (n + 1) → β) :
    WritesWithin buffer (block base bytes) ↔
      buffer.base ≤ base ∧ base + (n + 1) ≤ buffer.base + buffer.size := by
  constructor
  · intro within
    obtain ⟨fromBase, _⟩ := within _ (mem_block.mpr ⟨0, rfl⟩)
    obtain ⟨_, below⟩ := within _ (mem_block.mpr ⟨Fin.last n, rfl⟩)
    simp only [Fin.val_last] at below
    exact ⟨fromBase, by omega⟩
  · rintro ⟨fromBase, upTo⟩ write member
    obtain ⟨i, rfl⟩ := mem_block.mp member
    have below := i.isLt
    exact ⟨by simp only; omega, by simp only; omega⟩

section Memory

variable {memory : FlatMemory β}

theorem apply_eq {writes : List (Nat × β)} {address : Nat} {value : β}
    (agree : ∀ write ∈ writes, write.1 = address → write.2 = value)
    (there : memory address = value ∨ ∃ write ∈ writes, write.1 = address) :
    memory.apply writes address = value := by
  induction writes generalizing memory with
  | nil => simpa [FlatMemory.apply] using there
  | cons write rest ih =>
      obtain ⟨first, others⟩ := List.forall_mem_cons.mp agree
      have thereNext : Function.update memory write.1 write.2 address = value ∨
          ∃ other ∈ rest, other.1 = address := by
        by_cases here : address = write.1
        · left
          rw [here, Function.update_self]
          exact first here.symm
        · rw [Function.update_of_ne here]
          refine there.imp_right ?_
          rintro ⟨other, member, same⟩
          rcases List.mem_cons.mp member with rfl | later
          · exact absurd same.symm here
          · exact ⟨other, later, same⟩
      exact ih others thereNext

theorem apply_of_not_written {writes : List (Nat × β)} {address : Nat}
    (notWritten : ∀ write ∈ writes, write.1 ≠ address) :
    memory.apply writes address = memory address :=
  apply_eq (fun write member here => absurd here (notWritten write member)) (Or.inl rfl)

theorem apply_block_inside (memory : FlatMemory β) (base : Nat) (bytes : Fin n → β) (i : Fin n) :
    memory.apply (block base bytes) (base + i.val) = bytes i := by
  refine apply_eq ?_ (Or.inr ⟨_, mem_block.mpr ⟨i, rfl⟩, rfl⟩)
  rintro write member here
  obtain ⟨j, rfl⟩ := mem_block.mp member
  rw [Fin.ext (Nat.add_left_cancel here)]

theorem apply_block_outside {base address : Nat} (bytes : Fin n → β)
    (outside : ¬ Buffer.Holds ⟨base, n⟩ address) :
    memory.apply (block base bytes) address = memory address := by
  refine apply_of_not_written fun write member here => ?_
  obtain ⟨i, rfl⟩ := mem_block.mp member
  exact outside (here ▸ holds_offset base i)

theorem read_block (memory : FlatMemory β) (base : Nat) (bytes : Fin n → β) :
    (memory.apply (block base bytes)).read base = bytes :=
  funext (apply_block_inside memory base bytes)

theorem read_block_apart {base other : Nat} (bytes : Fin n → β)
    (apart : Buffer.Apart ⟨base, n⟩ ⟨other, m⟩) :
    ((memory.apply (block base bytes)).read other : Fin m → β) = memory.read other :=
  funext fun i => apply_block_outside bytes fun inside =>
    apart _ inside (holds_offset other i)

end Memory

end BleBroadcast.Lib
