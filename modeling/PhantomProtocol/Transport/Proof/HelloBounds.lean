import PhantomProtocol.Transport.HelloBounds

/-!
# The pre-check of a hello agrees with its decoder

Each helper of the walk follows the decoder of its kind of field (`follows_skip`, `follows_vecLe`,
`follows_opt`), and the walk follows the decoder of the hello by the rule for one field after another.
-/

namespace PhantomProtocol.Handshake

open Borsh

variable {bytes : Bytes} {α : Type}

/-- The variable-length fields of a hello are within their bounds. -/
structure HelloMessage.WithinBounds {classicalPkBytes : Nat} (hello : HelloMessage classicalPkBytes) :
    Prop where
  mlKemPk : hello.clientKeyPackage.mlKemPk.length ≤ mlKemPkMax
  mlDsaPk : hello.clientVerifyKey.mlDsaPk.length ≤ mlDsaPkMax
  protocolVariant : hello.protocolVariant.length ≤ protocolVariantMax
  earlyData : ∀ blob, hello.earlyData = some blob → blob.length ≤ earlyDataSealedMaxLen

/-! ## The helpers -/

theorem skip_eq_some {n pos pos' : Nat} :
    skip bytes n pos = some ((), pos') ↔ pos + n ≤ bytes.length ∧ pos' = pos + n := by
  unfold skip
  split
  · rename_i h
    simp [h, eq_comm]
  · rename_i h
    simp [h]

theorem skip_of_lt {n pos : Nat} (h : bytes.length < pos + n) : skip bytes n pos = none := by
  rw [skip, if_neg (by omega)]

/-- Two fields may be skipped at once. -/
theorem skip_add (m n : Nat) : skip bytes (m + n) = (skip bytes m >>= fun _ => skip bytes n) := by
  funext pos
  by_cases hm : pos + m ≤ bytes.length
  · have hbind : (skip bytes m >>= fun _ => skip bytes n) pos = skip bytes n (pos + m) := by
      show (skip bytes m pos).bind _ = _
      rw [skip_eq_some.2 ⟨hm, rfl⟩]
      rfl
    rw [hbind, skip, skip, Nat.add_assoc]
  · have hbind : (skip bytes m >>= fun _ => skip bytes n) pos = none := by
      show (skip bytes m pos).bind _ = _
      rw [skip_of_lt (by omega)]
      rfl
    rw [hbind, skip_of_lt (by omega)]

theorem follows_skip_of {n : Nat} (k : { b : Bytes // b.length = n } → α) :
    Follows bytes True (skip bytes n) (fixed n >>= fun b => pure (k b)) (fun _ => True)
      fun _ => () := by
  apply Follows.of_fixed
  · intro pos hlt
    exact skip_of_lt hlt
  · intro pos b pos' x hx hle
    rw [skip_eq_some]
    simp [hle]

theorem follows_skip (n : Nat) :
    Follows bytes True (skip bytes n) (fixed n) (fun _ => True) fun _ => () := by
  have h : Follows bytes True (skip bytes n) (fixed n >>= pure) (fun _ => True) fun _ => () :=
    follows_skip_of id
  simpa using h

theorem follows_readLen : Follows bytes True (readLen bytes) u32 (fun _ => True) UInt32.toNat := by
  apply Follows.of_fixed
  · intro pos hlt
    rw [readLen, if_pos hlt]
  · intro pos b pos' x hx hle
    have hlt := fromLeBytes_lt x.1
    rw [x.2] at hlt
    have hval : (UInt32.ofNat (fromLeBytes x.1)).toNat = fromLeBytes x.1 :=
      UInt32.toNat_ofNat_of_lt' hlt
    rw [readLen, if_neg (by omega), ← hx, hval]
    simp [eq_comm]

theorem follows_readOpt :
    Follows bytes True (readOpt bytes) u8 (fun tag => tag = 0 ∨ tag = 1) fun tag => tag = 1 := by
  apply Follows.of_fixed
  · intro pos hlt
    rw [readOpt, List.getElem?_eq_none (by omega)]
  · intro pos b pos' x hx hle
    have hpos : pos < bytes.length := by omega
    have htake : (bytes.drop pos).take 1 = [bytes[pos]] := by
      rw [List.drop_eq_getElem_cons hpos]
      rfl
    have htag : UInt8.ofNat (fromLeBytes x.1) = bytes[pos] := by
      rw [hx, htake]
      simp [fromLeBytes]
    rw [htag, readOpt, List.getElem?_eq_getElem hpos]
    generalize bytes[pos] = tag
    show (if tag = 0 then _ else _) = _ ↔ _
    by_cases h0 : tag = 0
    · simp [h0, eq_comm]
    · simp_all [eq_comm]

theorem follows_vecLe (max : Nat) :
    Follows bytes True (vecLe bytes max) vec (fun b => b.length ≤ max) fun _ => () := by
  apply Follows.bind follows_readLen
  intro len
  by_cases hle : len.toNat ≤ max
  · rw [if_pos hle]
    apply Follows.last (follows_skip len.toNat)
    intro b
    simp [b.2, hle]
  · rw [if_neg hle]
    apply Follows.never (follows_skip_of Subtype.val).rest
    · intro _ pos
      rfl
    · intro input b rest hread hlen
      obtain ⟨x, mid, hx, hpure⟩ := Follows.bind_eq_some.1 hread
      cases hpure
      exact hle (x.2 ▸ hlen)

theorem follows_opt {w : Cursor Unit} {d : Decoder α} {P : α → Prop}
    (h : Follows bytes True w d P fun _ => ()) :
    Follows bytes True (do if ← readOpt bytes then w else pure ()) (option d)
      (fun o => ∀ a, o = some a → P a) fun _ => () := by
  apply Follows.bind follows_readOpt
  intro tag
  by_cases h0 : tag = 0
  · rw [if_pos h0, if_neg (by simp [h0])]
    apply Follows.pure
    simp [h0]
  · rw [if_neg h0]
    by_cases h1 : tag = 1
    · rw [if_pos h1, if_pos (by simp [h1])]
      apply Follows.last h
      intro a
      simp [h1]
    · rw [if_neg h1]
      apply Follows.never
      · intro pos a rest hread
        cases hread
      · intro hc
        simp [h0, h1] at hc
      · intro input a rest hread
        cases hread

/-! ## The hello -/

theorem follows_powSolution :
    Follows bytes True (skip bytes 40) PoWSolution.deserialize (fun _ => True) fun _ => () := by
  have hskip : skip bytes 40 = (skip bytes 32 >>= fun _ => skip bytes 8) := skip_add 32 8
  rw [hskip]
  apply Follows.bind (follows_skip 32)
  intro nonce
  apply Follows.last (follows_skip_of fun b => UInt64.ofNat (fromLeBytes b.1))
  intro solution
  simp

/-- The walk follows the decoder. -/
theorem follows_walkHello (classicalPkBytes : Nat) :
    Follows bytes True (walkHello classicalPkBytes bytes) (HelloMessage.deserialize classicalPkBytes)
      HelloMessage.WithinBounds fun _ => () := by
  unfold walkHello HelloMessage.deserialize HybridKeyPackage.deserialize
    HybridVerifyingKey.deserialize
  simp only [bind_assoc, pure_bind, skip_add]
  refine .bind (follows_skip _) fun classicalPk => ?_
  refine .bind (follows_vecLe _) fun mlKemPk => ?_
  refine .bind (follows_skip _) fun ed25519Pk => ?_
  refine .bind (follows_vecLe _) fun mlDsaPk => ?_
  -- the nonce and the version are skipped at once
  refine .bind (follows_skip _) fun nonce => ?_
  refine .bind (follows_skip_of _) fun version => ?_
  refine .bind (follows_opt (follows_skip _)) fun cookie => ?_
  refine .bind (follows_opt follows_powSolution) fun powSolution => ?_
  refine .bind (follows_opt (follows_skip _)) fun resumeSessionId => ?_
  refine .bind (follows_opt (follows_skip _)) fun resumptionBinder => ?_
  refine .bind (follows_vecLe _) fun protocolVariant => ?_
  apply Follows.last (follows_opt (follows_vecLe _))
  intro earlyData
  simp only [true_and, and_true, implies_true]
  constructor
  · intro h
    exact ⟨⟨⟨h.mlKemPk, h.mlDsaPk⟩, h.protocolVariant⟩, h.earlyData⟩
  · intro h
    obtain ⟨⟨⟨hkem, hdsa⟩, hvariant⟩, hearly⟩ := h
    exact ⟨hkem, hdsa, hvariant, hearly⟩

/-- **The pre-check agrees with the decoder**: it accepts the byte strings that decode to a hello within
the bounds. -/
theorem clientHelloLengthsWithinBounds_iff (classicalPkBytes : Nat) (bytes : Bytes) :
    clientHelloLengthsWithinBounds classicalPkBytes bytes = true ↔
      ∃ hello, fromSlice (HelloMessage.deserialize classicalPkBytes) bytes = some hello ∧
        hello.WithinBounds := by
  have hwalk : clientHelloLengthsWithinBounds classicalPkBytes bytes = true ↔
      walkHello classicalPkBytes bytes 0 = some ((), bytes.length) := by
    unfold clientHelloLengthsWithinBounds
    split
    · rename_i pos heq
      simp [heq]
    · rename_i heq
      simp [heq]
  have hiff : (True ∧ walkHello classicalPkBytes bytes 0 = some ((), bytes.length)) ↔
      bytes.length ≤ bytes.length ∧ ∃ hello : HelloMessage classicalPkBytes, hello.WithinBounds ∧
        () = () ∧ HelloMessage.deserialize classicalPkBytes (bytes.drop 0) =
          some (hello, bytes.drop bytes.length) :=
    (follows_walkHello classicalPkBytes).iff (Nat.zero_le _)
  rw [hwalk]
  simp only [fromSlice_eq_some]
  rw [List.drop_zero, List.drop_length] at hiff
  constructor
  · simp_all
  · simp_all

end PhantomProtocol.Handshake
