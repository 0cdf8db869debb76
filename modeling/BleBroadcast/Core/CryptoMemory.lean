import BleBroadcast.Core.BeaconPdu
import BleBroadcast.Lib.FlatMemory

/-!
# Fragments and tags in memory

The functions of `crypto.c` on fragments once more, with their pointers as addresses of one
flat memory.  The size of an output is not known to them: `mbedtls_md_hmac_finish` writes the
whole digest from `output` on.
-/

set_option autoImplicit false

namespace BleBroadcast.Core.InMemory

open BleBroadcast.Lib

abbrev CMemory := FlatMemory UInt8

def xorEncryptKeyFragment (memory : CMemory) (fragment encryptedFragment : Nat)
    (xorSeed : UInt8) : CMemory :=
  [1, 2, 3].foldl (fun memory i =>
      Function.update memory (encryptedFragment + i)
        (memory (fragment + i) ^^^ memory (encryptedFragment + (i - 1))))
    (Function.update memory encryptedFragment (memory fragment ^^^ xorSeed))

def xorDecryptKeyFragment (memory : CMemory) (encryptedFragment decryptedFragment : Nat)
    (xorSeed : UInt8) : CMemory :=
  [1, 2, 3].foldl (fun memory i =>
      Function.update memory (decryptedFragment + i)
        (memory (encryptedFragment + i) ^^^ memory (encryptedFragment + (i - 1))))
    (Function.update memory decryptedFragment (memory encryptedFragment ^^^ xorSeed))

/-- What the mbedtls calls of `calculate_hmac` return. -/
structure MdReturns where
  mdInfoFound : Bool
  setup : Int
  hmacStarts : Int
  hmacUpdate : Int
  hmacFinish : Int

/-- `calculate_hmac`: what is written to `output`.  A call that fails writes nothing. -/
def calculateHmac (mb : Mbedtls) (returns : MdReturns) (memory : CMemory)
    (key keyLen message messageLen output : Nat) : List (Nat × UInt8) :=
  if returns.mdInfoFound = false then []
  else if returns.setup ≠ 0 then []
  else if returns.hmacStarts ≠ 0 then []
  else if returns.hmacUpdate ≠ 0 then []
  else if returns.hmacFinish ≠ 0 then []
  else
    block output (mb.hmacSha256 (Memory.bytes (fun i => memory (key + i)) keyLen)
      (Memory.bytes (fun i => memory (message + i)) messageLen))

def calculateHmacOfFragment (mb : Mbedtls) (returns : MdReturns) (memory : CMemory)
    (keyFragment encryptedFragment hmacOutput : Nat) : List (Nat × UInt8) :=
  calculateHmac mb returns memory keyFragment 4 encryptedFragment 4 hmacOutput

def MdReturns.Succeed (returns : MdReturns) : Prop :=
  returns.mdInfoFound = true ∧ returns.setup = 0 ∧ returns.hmacStarts = 0 ∧
    returns.hmacUpdate = 0 ∧ returns.hmacFinish = 0

/-- The 32 bytes of which `HMAC_SIZE` are the tag of a fragment. -/
def fragmentDigest (mb : Mbedtls) (keyFragment encryptedFragment : KeyFragment) : Bytes 32 :=
  mb.hmacSha256 (List.ofFn keyFragment) (List.ofFn encryptedFragment)

/-! ## Masking -/

theorem xorEncryptKeyFragment_block (memory : CMemory) {fragment encryptedFragment : Nat}
    (apart : Buffer.Apart ⟨fragment, 4⟩ ⟨encryptedFragment, 4⟩) (xorSeed : UInt8) :
    xorEncryptKeyFragment memory fragment encryptedFragment xorSeed =
      memory.apply (block encryptedFragment
        (Core.xorEncryptKeyFragment (memory.read fragment) xorSeed)) := by
  have linear := apart_iff.mp apart
  simp (disch := omega) [xorEncryptKeyFragment, Function.update_of_ne, FlatMemory.apply, block,
    FlatMemory.read, List.finRange_succ, Core.xorEncryptKeyFragment, scramble]

theorem xorDecryptKeyFragment_block (memory : CMemory) {encryptedFragment decryptedFragment : Nat}
    (apart : Buffer.Apart ⟨encryptedFragment, 4⟩ ⟨decryptedFragment, 4⟩) (xorSeed : UInt8) :
    xorDecryptKeyFragment memory encryptedFragment decryptedFragment xorSeed =
      memory.apply (block decryptedFragment
        (Core.xorDecryptKeyFragment (memory.read encryptedFragment) xorSeed)) := by
  have linear := apart_iff.mp apart
  simp (disch := omega) [xorDecryptKeyFragment, Function.update_of_ne, FlatMemory.apply, block,
    FlatMemory.read, List.finRange_succ, Core.xorDecryptKeyFragment, unscramble]

/-! ## The tag -/

theorem calculateHmacOfFragment_tag (mb : Mbedtls) (keyFragment encryptedFragment : KeyFragment)
    {i : Fin 4} {j : Fin 32} (same : j.val = i.val) :
    Core.calculateHmacOfFragment mb keyFragment encryptedFragment i =
      fragmentDigest mb keyFragment encryptedFragment j :=
  congrArg (mb.hmacSha256 (List.ofFn keyFragment) (List.ofFn encryptedFragment))
    (Fin.ext same.symm)

theorem bytes_eq_ofFn (memory : CMemory) (base size : Nat) :
    Memory.bytes (fun i => memory (base + i)) size =
      List.ofFn (memory.read base : Bytes size) := by
  refine List.ext_getElem (by simp) fun i _ _ => ?_
  simp [Memory.bytes, FlatMemory.read]

section
variable (mb : Mbedtls) {returns : MdReturns} (memory : CMemory)
  (keyFragment encryptedFragment hmacOutput : Nat)

/-- The whole digest is written, whatever the output has room for. -/
theorem calculateHmacOfFragment_succeeds (succeed : returns.Succeed) :
    calculateHmacOfFragment mb returns memory keyFragment encryptedFragment hmacOutput =
      block hmacOutput (fragmentDigest mb (memory.read keyFragment)
        (memory.read encryptedFragment)) := by
  obtain ⟨found, setup, starts, update, finish⟩ := succeed
  simp only [calculateHmacOfFragment, calculateHmac, found, setup, starts, update, finish,
    bytes_eq_ofFn]
  rfl

theorem calculateHmacOfFragment_fails (fails : ¬ returns.Succeed) :
    calculateHmacOfFragment mb returns memory keyFragment encryptedFragment hmacOutput = [] := by
  unfold calculateHmacOfFragment calculateHmac
  split_ifs with notFound setup starts update finish
  · rfl
  · rfl
  · rfl
  · rfl
  · rfl
  · simp only [ne_eq, not_not] at setup starts update finish
    exact absurd ⟨Bool.eq_true_of_not_eq_false notFound, setup, starts, update, finish⟩ fails

theorem tagWithin_iff {buffer : Buffer} (ends : buffer.base + buffer.size < hmacOutput + 32) :
    WritesWithin buffer
        (calculateHmacOfFragment mb returns memory keyFragment encryptedFragment hmacOutput) ↔
      ¬ returns.Succeed := by
  by_cases succeed : returns.Succeed
  · rw [calculateHmacOfFragment_succeeds mb memory keyFragment encryptedFragment hmacOutput succeed,
      writesWithin_block_iff]
    exact iff_of_false (fun within => absurd within.2 (not_le.mpr ends)) (not_not.mpr succeed)
  · rw [calculateHmacOfFragment_fails mb memory keyFragment encryptedFragment hmacOutput succeed]
    exact iff_of_true (writesWithin_nil buffer) succeed

end

end BleBroadcast.Core.InMemory
