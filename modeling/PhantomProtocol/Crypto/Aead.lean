import PhantomProtocol.Transport.Types

/-!
# AEAD

`CryptoSession::encrypt_with_nonce` and `decrypt_with_nonce`. The cipher itself is ideal: it opens a
ciphertext exactly when that ciphertext was sealed under the same key, nonce and associated data.
What has been sealed is a log.
-/

namespace PhantomProtocol

variable {log : List Sealed}

def aeadOverhead : Nat := 16

structure Sealed where
  key : Bytes
  nonce : Bytes
  aad : Bytes
  plaintext : Bytes
  ciphertext : Bytes
deriving DecidableEq, Repr

/-- `key`, `nonce` and `aad` open `ciphertext` to what was sealed. -/
def openSealed (log : List Sealed) (key nonce aad ciphertext : Bytes) : Option Bytes :=
  (log.find? fun r =>
    r.key = key ∧ r.nonce = nonce ∧ r.aad = aad ∧ r.ciphertext = ciphertext).map (·.plaintext)

theorem openSealed_some {key nonce aad ct pt : Bytes}
    (h : openSealed log key nonce aad ct = some pt) :
    ∃ r ∈ log, r.key = key ∧ r.nonce = nonce ∧ r.aad = aad ∧ r.ciphertext = ct ∧
      r.plaintext = pt := by
  obtain ⟨r, hr, hpt⟩ := Option.map_eq_some_iff.1 h
  have hp := List.find?_some hr
  obtain ⟨hkey, hnonce, haad, hct⟩ := of_decide_eq_true hp
  exact ⟨r, List.mem_of_find?_eq_some hr, hkey, hnonce, haad, hct, hpt⟩

theorem openSealed_isSome {r : Sealed} (h : r ∈ log) :
    ∃ pt, openSealed log r.key r.nonce r.aad r.ciphertext = some pt := by
  have hf : (log.find? fun q => q.key = r.key ∧ q.nonce = r.nonce ∧ q.aad = r.aad ∧
      q.ciphertext = r.ciphertext).isSome := List.find?_isSome.2 ⟨r, h, by simp⟩
  obtain ⟨q, hq⟩ := Option.isSome_iff_exists.1 hf
  exact ⟨q.plaintext, by rw [openSealed, hq]; rfl⟩

inductive CryptoError where
  | encryptionFailed
  | decryptionFailed
  | nonceExhausted
deriving DecidableEq, Repr

/-- `Display for CryptoError`, as `CryptoState` wraps it. -/
def CryptoError.toCore : CryptoError → CoreError
  | .encryptionFailed => .cryptoError "Encryption failed"
  | .decryptionFailed => .cryptoError "Decryption / authentication failed"
  | .nonceExhausted =>
    .cryptoError ("AEAD nonce exhausted: per-direction counter exceeded " ++
      toString aeadMaxInvocations ++ " invocations (rotate keys before reusing this session)")

namespace CryptoState

/-- `encrypt_with_nonce`: the invocation is counted even when the ceiling is reached. `ciphertext`
is what the cipher returns. -/
def encryptWithNonce (c : CryptoState) (nonce aad plaintext ciphertext : Bytes) :
    CryptoState × Except CoreError Sealed :=
  let c' := { c with sendCounter := (c.sendCounter + 1) % 2 ^ 64 }
  if c.sendCounter ≥ aeadMaxInvocations then (c', .error CryptoError.nonceExhausted.toCore)
  else (c', .ok ⟨c.sendKey, nonce, aad, plaintext, ciphertext⟩)

/-- `decrypt_with_nonce`: only a successful open is counted. -/
def decryptWithNonce (log : List Sealed) (c : CryptoState) (nonce aad ciphertext : Bytes) :
    CryptoState × Except CoreError Bytes :=
  if c.recvCounter ≥ aeadMaxInvocations then (c, .error CryptoError.nonceExhausted.toCore)
  else
    match openSealed log c.recvKey nonce aad ciphertext with
    | none => (c, .error CryptoError.decryptionFailed.toCore)
    | some plaintext => ({ c with recvCounter := (c.recvCounter + 1) % 2 ^ 64 }, .ok plaintext)

variable {log : List Sealed} {c : CryptoState} {nonce aad pt ct : Bytes}

@[simp] theorem encryptWithNonce_fresh :
    (c.encryptWithNonce nonce aad pt ct).1.fresh = c.fresh := by
  unfold encryptWithNonce
  split <;> rfl

@[simp] theorem decryptWithNonce_fresh :
    (decryptWithNonce log c nonce aad ct).1.fresh = c.fresh := by
  unfold decryptWithNonce
  split
  · rfl
  · split <;> rfl

theorem decryptWithNonce_ok (h : (decryptWithNonce log c nonce aad ct).2 = .ok pt) :
    ∃ r ∈ log, r.key = c.recvKey ∧ r.nonce = nonce ∧ r.aad = aad ∧ r.ciphertext = ct ∧
      r.plaintext = pt := by
  unfold decryptWithNonce at h
  split at h
  · cases h
  · split at h
    · cases h
    · rename_i hopen
      cases h
      exact openSealed_some hopen

theorem decryptWithNonce_error {e : CoreError}
    (h : (decryptWithNonce log c nonce aad ct).2 = .error e) :
    (decryptWithNonce log c nonce aad ct).1 = c := by
  unfold decryptWithNonce at h ⊢
  split
  · rfl
  · rename_i hcount
    rw [if_neg hcount] at h
    split
    · rfl
    · rename_i hopen
      simp only [hopen] at h
      cases h

end CryptoState

end PhantomProtocol
