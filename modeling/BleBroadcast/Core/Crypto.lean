import Mathlib.Data.Fintype.Pi
import Mathlib.Data.Fin.VecNotation
import BleBroadcast.Lib.ChainedXor

/-!
# Keys, fragments and the primitives around them

Model of `crypto.c` and `crypto.h`.  A C array `uint8_t a[n]` is a function on
`Fin n`; a byte string whose length is only known at run time is a list.

The two mbedtls primitives are parameters (`Mbedtls`): AES in counter mode is
XOR with a key stream that the key and the nonce determine, and HMAC-SHA-256
is a fixed function of key and message with a 32-byte digest.  The code keeps
the first four bytes of a digest as the tag of a fragment.
-/

set_option autoImplicit false

namespace BleBroadcast.Core

open BleBroadcast.Lib

/-- `uint8_t a[n]`. -/
abbrev Bytes (n : Nat) := Fin n → UInt8

/-- `KEY_SIZE` bytes. -/
abbrev Key128b := Bytes 16
/-- `KEY_FRAGMENT_SIZE` bytes. -/
abbrev KeyFragment := Bytes 4
/-- `HMAC_SIZE` bytes. -/
abbrev Hmac := Bytes 4
/-- `NONCE_SIZE` bytes. -/
abbrev Nonce := Bytes 16

/-- The number of a fragment, below `NO_KEY_FRAGMENTS`: two bits on the wire. -/
abbrev FragmentNo := Fin 4

/-- A key has fragments, so `FragmentNo` has numerals. -/
instance neZeroFragments : @NeZero Nat Zero.ofOfNat0 4 := ⟨Nat.succ_ne_zero 3⟩

/-- `key_splitted`: the four fragments of a key. -/
abbrev KeySplitted := FragmentNo → KeyFragment

/-- The mbedtls functions the code calls. -/
structure Mbedtls where
  /-- Byte `i` of the AES-CTR key stream of a key and an initial counter block. -/
  keystream : Key128b → Nonce → Nat → UInt8
  /-- HMAC-SHA-256 of a message under a key. -/
  hmacSha256 : List UInt8 → List UInt8 → Bytes 32

/-! ## Splitting a key -/

def split128bKeyToFragment (key : Key128b) : KeySplitted :=
  fun i j => key ⟨i.val * 4 + j.val, by omega⟩

def get128bKeyFromFragments (splitted : KeySplitted) : Key128b :=
  fun n => splitted ⟨n.val / 4, by omega⟩ ⟨n.val % 4, by omega⟩

/-- The fragment that byte `n` of a key belongs to, and its place in it. -/
def fragmentOfByte (n : Fin 16) : FragmentNo := ⟨n.val / 4, by omega⟩

def placeOfByte (n : Fin 16) : Fin 4 := ⟨n.val % 4, by omega⟩

theorem get128bKeyFromFragments_apply (splitted : KeySplitted) (n : Fin 16) :
    get128bKeyFromFragments splitted n = splitted (fragmentOfByte n) (placeOfByte n) := rfl

def addFragmentToKeySplitted (splitted : KeySplitted) (fragment : KeyFragment)
    (fragmentIndex : FragmentNo) : KeySplitted :=
  Function.update splitted fragmentIndex fragment

theorem get128bKeyFromFragments_split (key : Key128b) :
    get128bKeyFromFragments (split128bKeyToFragment key) = key := by
  funext n
  have position : n.val / 4 * 4 + n.val % 4 = n.val := by omega
  simp only [get128bKeyFromFragments, split128bKeyToFragment]
  exact congrArg key (Fin.ext position)

theorem split_get128bKeyFromFragments (splitted : KeySplitted) :
    split128bKeyToFragment (get128bKeyFromFragments splitted) = splitted := by
  funext i j
  have row : (i.val * 4 + j.val) / 4 = i.val := by omega
  have column : (i.val * 4 + j.val) % 4 = j.val := by omega
  simp only [get128bKeyFromFragments, split128bKeyToFragment, row, column]

theorem get128bKeyFromFragments_eq {splitted : KeySplitted} {key : Key128b}
    (fragments : ∀ i, splitted i = split128bKeyToFragment key i) :
    get128bKeyFromFragments splitted = key := by
  rw [show splitted = split128bKeyToFragment key from funext fragments,
    get128bKeyFromFragments_split]

/-! ## AES in counter mode -/

/-- `aes_ctr_encrypt_payload`: the first `length` bytes of the input, each XORed
with the key stream.  mbedtls reports no error for a 128-bit key. -/
def aesCtrEncryptPayload (mb : Mbedtls) (input : List UInt8) (length : Nat)
    (key : Key128b) (nonce : Nonce) : List UInt8 :=
  (input.take length).mapIdx fun i byte => byte ^^^ mb.keystream key nonce i

def aesCtrDecryptPayload (mb : Mbedtls) (input : List UInt8) (length : Nat)
    (key : Key128b) (nonce : Nonce) : List UInt8 :=
  aesCtrEncryptPayload mb input length key nonce

@[simp] theorem length_aesCtrEncryptPayload (mb : Mbedtls) (input : List UInt8) (length : Nat)
    (key : Key128b) (nonce : Nonce) :
    (aesCtrEncryptPayload mb input length key nonce).length = min length input.length := by
  simp [aesCtrEncryptPayload]

theorem xor_xor_cancel (value mask : UInt8) : value ^^^ mask ^^^ mask = value := by
  rw [UInt8.xor_assoc, UInt8.xor_self, UInt8.xor_zero]

theorem aesCtr_round_trip (mb : Mbedtls) (plain rest : List UInt8)
    (key : Key128b) (nonce : Nonce) :
    aesCtrDecryptPayload mb (aesCtrEncryptPayload mb plain plain.length key nonce ++ rest)
      plain.length key nonce = plain := by
  have cut : (aesCtrEncryptPayload mb plain plain.length key nonce ++ rest).take plain.length =
      aesCtrEncryptPayload mb plain plain.length key nonce := by
    rw [List.take_append_of_le_length (by simp), List.take_of_length_le (by simp)]
  rw [aesCtrDecryptPayload, aesCtrEncryptPayload, cut]
  apply List.ext_getElem (by simp)
  intro i first second
  simpa only [aesCtrEncryptPayload, List.getElem_mapIdx, List.take_length]
    using xor_xor_cancel plain[i] (mb.keystream key nonce i)

/-! ## Masking a fragment -/

/-- `xor_encrypt_key_fragment`: byte 0 is masked with the seed, every later byte
with the encrypted byte before it. -/
def xorEncryptKeyFragment (fragment : KeyFragment) (xorSeed : UInt8) : KeyFragment :=
  fun i => scramble (· ^^^ ·) xorSeed (fun n => fragment (Fin.ofNat 4 n)) i.val

def xorDecryptKeyFragment (encryptedFragment : KeyFragment) (xorSeed : UInt8) : KeyFragment :=
  fun i => unscramble (· ^^^ ·) xorSeed
    (fun n => encryptedFragment (Fin.ofNat 4 n)) i.val

theorem ofNat_val_eq (i : Fin 4) : Fin.ofNat 4 i.val = i := by
  apply Fin.ext
  simp only [Fin.val_ofNat]
  omega

theorem xorDecryptKeyFragment_encrypt (fragment : KeyFragment) (xorSeed : UInt8) :
    xorDecryptKeyFragment (xorEncryptKeyFragment fragment xorSeed) xorSeed = fragment := by
  funext i
  let plain : Nat → UInt8 := fun n => fragment (Fin.ofNat 4 n)
  have agree : ∀ n < 4,
      xorEncryptKeyFragment fragment xorSeed (Fin.ofNat 4 n) =
        scramble (· ^^^ ·) xorSeed plain n := by
    intro n below
    simp only [xorEncryptKeyFragment, Fin.val_ofNat, Nat.mod_eq_of_lt below, plain]
  calc xorDecryptKeyFragment (xorEncryptKeyFragment fragment xorSeed) xorSeed i
      = unscramble (· ^^^ ·) xorSeed (scramble (· ^^^ ·) xorSeed plain) i.val :=
        unscramble_congr agree i.val i.isLt
    _ = plain i.val := unscramble_scramble xor_xor_cancel xorSeed plain i.val
    _ = fragment i := congrArg fragment (ofNat_val_eq i)

/-! ## The tag of a fragment -/

/-- `calculate_hmac_of_fragment`: the HMAC of the encrypted fragment under the
plain fragment, as far as the four-byte tag buffer keeps it. -/
def calculateHmacOfFragment (mb : Mbedtls) (keyFragment encryptedFragment : KeyFragment) : Hmac :=
  fun i => mb.hmacSha256 (List.ofFn keyFragment) (List.ofFn encryptedFragment)
    ⟨i.val, by omega⟩

/-- `crypto_secure_memcmp`: the differences of all bytes are accumulated, whatever
the first of them was. -/
def cryptoSecureMemcmp {n : Nat} (a b : Bytes n) : Nat :=
  let result := (List.finRange n).foldl (fun acc i => acc ||| (a i ^^^ b i)) (0 : UInt8)
  if result = 0 then 0 else 1

theorem foldl_or_eq_zero {n : Nat} (a b : Bytes n) (positions : List (Fin n)) (acc : UInt8) :
    positions.foldl (fun acc i => acc ||| (a i ^^^ b i)) acc = 0 ↔
      acc = 0 ∧ ∀ i ∈ positions, a i = b i := by
  induction positions generalizing acc with
  | nil => simp
  | cons i rest ih =>
      simp only [List.foldl_cons, ih, List.mem_cons, forall_eq_or_imp, UInt8.or_eq_zero_iff,
        UInt8.xor_eq_zero_iff, and_assoc]

theorem cryptoSecureMemcmp_eq_zero {n : Nat} (a b : Bytes n) :
    cryptoSecureMemcmp a b = 0 ↔ a = b := by
  have accumulated := foldl_or_eq_zero a b (List.finRange n) 0
  simp only [List.mem_finRange, forall_const, true_and] at accumulated
  simp only [cryptoSecureMemcmp]
  split
  · rename_i zero
    exact ⟨fun _ => funext (accumulated.mp zero), fun _ => rfl⟩
  · rename_i nonzero
    constructor
    · intro absurd
      contradiction
    · intro same
      exact absurd (accumulated.mpr fun i => congrFun same i) nonzero

end BleBroadcast.Core
