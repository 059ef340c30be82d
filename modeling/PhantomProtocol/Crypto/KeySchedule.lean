import Mathlib.Algebra.Order.Ring.Nat
import Mathlib.Data.List.Basic
import Mathlib.Data.List.Induction

/-!
# Key schedule

What `crypto::kdf`, `crypto::cid_chain` and `crypto::adaptive_crypto` derive from a session secret:
the rotating connection-ID chains and the per-direction AEAD keys. The two key-derivation
primitives are parameters (`Kdf`); everything built from them is as the source builds it.
-/

namespace PhantomProtocol

open List

/-- Byte strings (`Vec<u8>`, `Bytes`, `[u8; N]`). -/
abbrev Bytes := List UInt8

/-- `to_be_bytes` of a `width`-byte unsigned integer. -/
def beBytes (width n : Nat) : Bytes :=
  (range width).reverse.map fun k => UInt8.ofNat (n / 256 ^ k)

@[simp] theorem beBytes_length (width n : Nat) : (beBytes width n).length = width := by
  simp [beBytes]

/-- The number a big-endian field holds. -/
def beNat (bytes : Bytes) : Nat := bytes.foldl (fun n b => n * 256 + b.toNat) 0

theorem beBytes_succ (width n : Nat) :
    beBytes (width + 1) n = beBytes width (n / 256) ++ [UInt8.ofNat n] := by
  simp [beBytes, range_succ_eq_map, Nat.pow_succ', Nat.div_div_eq_div_mul]

theorem beNat_beBytes (width n : Nat) : beNat (beBytes width n) = n % 256 ^ width := by
  induction width generalizing n with
  | zero => simp [beNat, beBytes, Nat.mod_one]
  | succ width ih =>
    rw [beBytes_succ, beNat, foldl_append, ← beNat, ih]
    show n / 256 % 256 ^ width * 256 + (UInt8.ofNat n).toNat = n % 256 ^ (width + 1)
    rw [UInt8.toNat_ofNat', show 256 ^ (width + 1) = 256 * 256 ^ width from Nat.pow_succ',
      Nat.mod_mul, Nat.add_comm, Nat.mul_comm]

theorem beNat_lt (bytes : Bytes) : beNat bytes < 256 ^ bytes.length := by
  induction bytes using reverseRecOn with
  | nil => decide
  | append_singleton bytes b =>
    rw [beNat, foldl_append, ← beNat, length_append]
    show beNat bytes * 256 + b.toNat < 256 ^ bytes.length * 256
    have := b.toNat_lt
    omega

theorem beBytes_beNat (bytes : Bytes) : beBytes bytes.length (beNat bytes) = bytes := by
  induction bytes using reverseRecOn with
  | nil => rfl
  | append_singleton bytes b ih =>
    have hval : beNat (bytes ++ [b]) = beNat bytes * 256 + b.toNat := by
      rw [beNat, foldl_append, ← beNat]
      rfl
    have hb := b.toNat_lt
    have hdiv : (beNat bytes * 256 + b.toNat) / 256 = beNat bytes := by omega
    have hlow : UInt8.ofNat (beNat bytes * 256 + b.toNat) = b := by
      apply UInt8.toNat_inj.1
      rw [UInt8.toNat_ofNat']
      omega
    rw [hval, length_append, length_singleton, beBytes_succ, hdiv, hlow, ih]

/-- The big-endian field of `width` bytes at `pos`. -/
def beAt (buf : Bytes) (pos width : Nat) : Nat := beNat ((buf.drop pos).take width)

theorem beAt_lt (buf : Bytes) (pos width : Nat) : beAt buf pos width < 256 ^ width := by
  apply lt_of_lt_of_le (beNat_lt _)
  exact Nat.pow_le_pow_right (by decide) (length_take_le ..)

theorem beBytes_beAt {buf : Bytes} {pos width : Nat} (h : width ≤ (buf.drop pos).length) :
    beBytes width (beAt buf pos width) = (buf.drop pos).take width := by
  have hfield := beBytes_beNat ((buf.drop pos).take width)
  rwa [length_take_of_le h] at hfield

theorem beAt_append {width n pos : Nat} (pre post : Bytes) (hpos : pre.length = pos)
    (hn : n < 256 ^ width) : beAt (pre ++ (beBytes width n ++ post)) pos width = n := by
  subst hpos
  rw [beAt, drop_left, take_left' (beBytes_length width n), beNat_beBytes,
    Nat.mod_eq_of_lt hn]

/-- `to_le_bytes` of a `width`-byte unsigned integer. -/
def leBytes (width n : Nat) : Bytes := (beBytes width n).reverse

/-- The number a little-endian field holds. -/
def leNat (bytes : Bytes) : Nat := beNat bytes.reverse

@[simp] theorem leBytes_length (width n : Nat) : (leBytes width n).length = width := by
  simp [leBytes]

theorem leNat_leBytes {width n : Nat} (h : n < 256 ^ width) : leNat (leBytes width n) = n := by
  rw [leNat, leBytes, reverse_reverse, beNat_beBytes, Nat.mod_eq_of_lt h]

theorem beBytes_injective {width m n : Nat} (hm : m < 256 ^ width) (hn : n < 256 ^ width)
    (h : beBytes width m = beBytes width n) : m = n := by
  have hnat := congrArg beNat h
  rwa [beNat_beBytes, beNat_beBytes, Nat.mod_eq_of_lt hm, Nat.mod_eq_of_lt hn] at hnat

/-- The external key-derivation primitives. -/
structure Kdf where
  /-- `crypto::kdf::derive_key_32(label, ikm)`. -/
  deriveKey32 : String → Bytes → Bytes
  /-- `Hkdf::<Sha256>::from_prk(secret).expand(info, 32)`; neither call can fail on 32-byte
  secrets and outputs. -/
  hkdfExpand : Bytes → String → Bytes

/-- A derivation that returns its input, for concrete runs. -/
def Kdf.plain : Kdf := ⟨fun _ ikm => ikm, fun secret _ => secret⟩

/-! ## Connection-ID chain (`crypto/cid_chain.rs`) -/

def cidLen : Nat := 8

def cidWindowTrailing : Nat := 2
def cidWindowLeading : Nat := 16

/-- `CID_i = derive_key_32("phantom-cid-v1", secret ‖ i.to_be_bytes())[0..8]`. -/
def cidFromSecret (kdf : Kdf) (secret : Bytes) (i : Nat) : Bytes :=
  (kdf.deriveKey32 "phantom-cid-v1" (secret ++ beBytes 8 i)).take cidLen

structure CidChain where
  outboundSecret : Bytes
  inboundSecret : Bytes
deriving DecidableEq, Repr

namespace CidChain

variable (kdf : Kdf)

def derive (initialSecret : Bytes) (isServer : Bool) : CidChain :=
  let c2s := kdf.deriveKey32 "phantom-cid-c2s-v1" initialSecret
  let s2c := kdf.deriveKey32 "phantom-cid-s2c-v1" initialSecret
  if isServer then ⟨s2c, c2s⟩ else ⟨c2s, s2c⟩

def outboundCid (c : CidChain) (i : Nat) : Bytes := cidFromSecret kdf c.outboundSecret i

def inboundCid (c : CidChain) (i : Nat) : Bytes := cidFromSecret kdf c.inboundSecret i

/-- The demux window `[highest_seen − trailing, highest_seen + leading]`, each index with its
CID. -/
def inboundWindow (c : CidChain) (highestSeen trailing leading : Nat) : List (Nat × Bytes) :=
  let lo := highestSeen - trailing
  let hi := highestSeen + leading
  (range' lo (hi + 1 - lo)).map fun i => (i, c.inboundCid kdf i)

variable {kdf}

theorem derive_peer (secret : Bytes) (isServer : Bool) (i : Nat) :
    (derive kdf secret isServer).outboundCid kdf i =
      (derive kdf secret !isServer).inboundCid kdf i := by
  cases isServer <;> rfl

theorem mem_inboundWindow {c : CidChain} {h t l i : Nat} (hlo : h - t ≤ i) (hhi : i ≤ h + l) :
    (i, c.inboundCid kdf i) ∈ c.inboundWindow kdf h t l := by
  refine mem_map.2 ⟨i, ?_, rfl⟩
  simp only [mem_range'_1]
  omega

end CidChain

/-! ## AEAD state (`crypto/adaptive_crypto.rs`, `transport::session::CryptoState`) -/

inductive CipherSuite where
  | aes256Gcm
  | chaCha20Poly1305
deriving DecidableEq, Repr

def aeadMaxInvocations : Nat := 2 ^ 48

/-- `CryptoState` together with the `CryptoSession` it wraps. -/
structure CryptoState where
  suite : CipherSuite
  sendKey : Bytes
  recvKey : Bytes
  sendCounter : Nat
  recvCounter : Nat
  noncePrefix : Bytes
  sessionKey : Bytes
deriving DecidableEq, Repr

namespace CryptoState

def suiteContext : CipherSuite → String
  | .aes256Gcm => "phantom-aes-"
  | .chaCha20Poly1305 => "phantom-cc20-"

/-- `CryptoState::new`: `peer_side` swaps the two directional keys. The suite is the one
`HwCaps::detect` recommends on the host. -/
def new (kdf : Kdf) (suite : CipherSuite) (sharedSecret : Bytes) (peerSide : Bool) : CryptoState :=
  let keyA := kdf.deriveKey32 (suiteContext suite ++ "send-v1") sharedSecret
  let keyB := kdf.deriveKey32 (suiteContext suite ++ "recv-v1") sharedSecret
  { suite
    sendKey := if peerSide then keyB else keyA
    recvKey := if peerSide then keyA else keyB
    sendCounter := 0
    recvCounter := 0
    noncePrefix := (kdf.deriveKey32 "phantom-nonce-pfx-v1" sharedSecret).take 4
    sessionKey := kdf.hkdfExpand sharedSecret "phantom-transport-key" }

/-- The state with its invocation counters cleared: what it was derived as. -/
def fresh (c : CryptoState) : CryptoState := { c with sendCounter := 0, recvCounter := 0 }

theorem new_keys_agree (kdf : Kdf) (suite : CipherSuite) (secret : Bytes) (peer : Bool) :
    (new kdf suite secret peer).sendKey = (new kdf suite secret !peer).recvKey := by
  cases peer <;> rfl

end CryptoState

end PhantomProtocol
