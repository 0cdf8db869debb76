import Mathlib.Logic.Basic

/-!
# Chained scrambling

A sequence is scrambled by combining each element with the scrambled element
before it, the first one with a seed.  The receiver undoes it from the
scrambled sequence and the seed alone, because combining twice with the same
mask is the identity.
-/

set_option autoImplicit false

namespace BleBroadcast.Lib

universe u

variable {α : Type u} (mix : α → α → α)

/-- Each element mixed with its scrambled predecessor, the first with the seed. -/
def scramble (seed : α) (plain : Nat → α) : Nat → α
  | 0 => mix (plain 0) seed
  | n + 1 => mix (plain (n + 1)) (scramble seed plain n)

/-- Each scrambled element mixed with the scrambled element before it. -/
def unscramble (seed : α) (scrambled : Nat → α) : Nat → α
  | 0 => mix (scrambled 0) seed
  | n + 1 => mix (scrambled (n + 1)) (scrambled n)

variable {mix}

theorem unscramble_scramble (involutive : ∀ value mask, mix (mix value mask) mask = value)
    (seed : α) (plain : Nat → α) (n : Nat) :
    unscramble mix seed (scramble mix seed plain) n = plain n := by
  cases n with
  | zero => exact involutive (plain 0) seed
  | succ n => exact involutive (plain (n + 1)) (scramble mix seed plain n)

theorem unscramble_congr {seed : α} {scrambled other : Nat → α} {bound : Nat}
    (agree : ∀ i < bound, scrambled i = other i) :
    ∀ i < bound, unscramble mix seed scrambled i = unscramble mix seed other i := by
  intro i below
  cases i with
  | zero => simp only [unscramble, agree 0 below]
  | succ i => simp only [unscramble, agree (i + 1) below, agree i (by omega)]

end BleBroadcast.Lib
