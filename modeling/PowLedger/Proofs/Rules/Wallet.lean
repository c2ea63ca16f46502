import Mathlib.Data.List.Nodup
import Mathlib.Tactic.Common
import Mathlib.Tactic.Lemma
import PowLedger.Proofs.Transaction.Commitment

/-!
# What a wallet signs, the judge accepts

A wallet builds a transaction from outpoints and outputs, signs the digest of the unsigned form,
puts signature and key into every input, and computes the id last. The judge starts from the other
end: it computes the id of the whole, and the signing digest of what it was given. The two meet
because signing makes the same transfer (`Transaction.sign_sameTransfer`) and the id is not signed.

All that is taken on trust is the signer: with an accepted key document it signs every message, and
the signature verifies under the public key of the document (`Signer.Serves`).
-/

namespace PowLedger

/-- With the key document the signer signs every message, so that it verifies under the public key
of the document. -/
structure Signer.Serves (signer : Signer) (p : Primitives) (key publicKey : Bytes) : Prop where
  accepts : signer.publicKey key = .ok publicKey
  signs : ∀ message, ∃ signature, signer.sign key message = .ok signature
  verifies : ∀ message signature, signer.sign key message = .ok signature →
    p.verify publicKey signature message = true

namespace Transaction

variable {signer : Signer} {digest : Hasher} {key publicKey signature : Bytes}
  {tx signed : Transaction}

/-! ### Signing -/

/-- A transaction is signed if the key document is accepted and the signing digest can be signed. -/
lemma sign_eq_ok_iff : tx.sign signer digest key = .ok signed ↔
    ∃ publicKey signature, signer.publicKey key = .ok publicKey ∧
      signer.sign key (tx.signingDigest digest) = .ok signature ∧
      signed = (tx.withProof publicKey signature).identified digest := by
  unfold sign
  constructor
  · intro h
    cases hkey : signer.publicKey key with
    | error f => simp [hkey] at h
    | ok publicKey =>
      cases hsign : signer.sign key (tx.signingDigest digest) with
      | error f => simp [hkey, hsign] at h
      | ok signature =>
        simp only [hkey, hsign, Except.ok.injEq] at h
        exact ⟨publicKey, signature, rfl, rfl, h.symm⟩
  · rintro ⟨publicKey, signature, hkey, hsign, rfl⟩
    simp only [hkey, hsign]

/-- A proof in every input leaves the transfer as it is, and so does the id. -/
lemma sameTransfer_withProof (tx : Transaction) (publicKey signature : Bytes) (digest : Hasher) :
    ((tx.withProof publicKey signature).identified digest).SameTransfer tx :=
  sameTransfer_resigned tx _ fun _ => rfl

/-- Signing makes the same transfer, under the computed id. -/
lemma sign_sameTransfer (h : tx.sign signer digest key = .ok signed) :
    signed.SameTransfer tx ∧ signed.id = signed.computedId digest := by
  obtain ⟨publicKey, signature, -, -, rfl⟩ := sign_eq_ok_iff.mp h
  exact ⟨sameTransfer_withProof tx publicKey signature digest, rfl⟩

/-- The same transfer has the same signing digest. -/
lemma SameTransfer.signingDigest_eq {t u : Transaction} (h : t.SameTransfer u) (digest : Hasher) :
    t.signingDigest digest = u.signingDigest digest :=
  congrArg digest h.signingBytes_eq

/-- An unsigned transaction consumes its outpoints. -/
lemma sources_unsigned (sources : List Outpoint) (outputs : List TxOutput) :
    (unsigned sources outputs).sources = sources := by
  simp only [unsigned, Transaction.sources, List.map_map]
  exact List.map_id sources

/-- Each input of a transaction with one proof in all of them has that proof. -/
lemma mem_inputs_withProof {i : TxInput}
    (hi : i ∈ ((tx.withProof publicKey signature).identified digest).inputs) :
    i.source ∈ tx.sources ∧ i.publicKey = publicKey ∧ i.signature = signature := by
  obtain ⟨k, hk, rfl⟩ := List.mem_map.mp hi
  have hsource : k.source ∈ tx.sources := List.mem_map_of_mem hk
  exact ⟨hsource, rfl, rfl⟩

end Transaction

namespace Judge

variable {j : Judge} {s : UtxoSet} {signer : Signer} {key publicKey signature : Bytes}
  {sources : List Outpoint} {outputs : List TxOutput}

open Transaction in
/-- A payment from outputs of one key is valid once it is signed with that key: the inputs are
distinct and live, and they are worth no less than the outputs. -/
lemma validSpend_of_signed (hsources : sources ≠ []) (hdistinct : sources.Nodup)
    (howned : ∀ o ∈ sources, ∃ out, s.get? o = some out ∧ out.lock = lockingHash publicKey)
    (hfit : (sources.map s.valueAt).sum < 2 ^ 64) (houtputs : outputs ≠ [])
    (hbalanced : (outputs.map fun out => out.value.toNat).sum ≤ (sources.map s.valueAt).sum)
    (hverify : j.primitives.verify publicKey signature
      ((unsigned sources outputs).signingDigest j.digest) = true) :
    j.ValidSpend s
      (((unsigned sources outputs).withProof publicKey signature).identified j.digest) where
  outputs := houtputs
  inputs := by
    obtain ⟨o, rest, rfl⟩ := List.exists_cons_of_ne_nil hsources
    exact List.cons_ne_nil _ _
  sourcesOnce := by
    rwa [(sameTransfer_withProof _ _ _ _).sources, sources_unsigned]
  id := rfl
  unlocked := by
    intro i hi
    obtain ⟨hmem, hkey, hsignature⟩ := mem_inputs_withProof hi
    rw [sources_unsigned] at hmem
    obtain ⟨out, hget, hlock⟩ := howned i.source hmem
    rw [(sameTransfer_withProof _ _ _ _).signingDigest_eq]
    exact ⟨⟨out, hget, hkey ▸ hlock.symm⟩, by rwa [hkey, hsignature]⟩
  inputsFit := by
    rw [inputTotal, (sameTransfer_withProof _ _ _ _).sources, sources_unsigned]
    exact hfit
  balanced := by
    rw [inputTotal, (sameTransfer_withProof _ _ _ _).sources, sources_unsigned, outputTotal,
      Amount.total_eq_sum, (sameTransfer_withProof _ _ _ _).outputs, List.map_map]
    exact hbalanced

/-- A payment that a wallet builds always passes. Take any unspent outputs, a key document that the
signer serves, distinct live outpoints that are all locked to its key and whose exact value is an
amount, and outputs that are worth no more. Then signing the payment succeeds, and the judge accepts
the result with the difference as the fee. Whatever is signed, signing changes neither outpoints nor
outputs nor data nor the signing digest, and the id is the computed one afterwards. -/
theorem wallet_spend_accepted (hserves : signer.Serves j.primitives key publicKey)
    (hsources : sources ≠ []) (hdistinct : sources.Nodup)
    (howned : ∀ o ∈ sources, ∃ out, s.get? o = some out ∧ out.lock = lockingHash publicKey)
    (hfit : (sources.map s.valueAt).sum < 2 ^ 64) (houtputs : outputs ≠ [])
    (hbalanced : (outputs.map fun out => out.value.toNat).sum ≤ (sources.map s.valueAt).sum) :
    (∃ signed fee, (Transaction.unsigned sources outputs).sign signer j.digest key = .ok signed ∧
      j.checkTransaction signed s = .ok fee ∧
      fee.toNat = (sources.map s.valueAt).sum - (outputs.map fun out => out.value.toNat).sum ∧
      signed.sources = sources ∧ signed.outputs = outputs) ∧
    ∀ (digest : Hasher) (tx signed : Transaction), tx.sign signer digest key = .ok signed →
      signed.sources = tx.sources ∧ signed.outputs = tx.outputs ∧
        signed.coinbaseData = tx.coinbaseData ∧
        signed.signingDigest digest = tx.signingDigest digest ∧
        signed.id = signed.computedId digest := by
  constructor
  · obtain ⟨signature, hsign⟩ :=
      hserves.signs ((Transaction.unsigned sources outputs).signingDigest j.digest)
    have hvalid := validSpend_of_signed hsources hdistinct howned hfit houtputs hbalanced
      (hserves.verifies _ _ hsign)
    have hsame := Transaction.sameTransfer_withProof (Transaction.unsigned sources outputs)
      publicKey signature j.digest
    generalize hsigned : ((Transaction.unsigned sources outputs).withProof publicKey
      signature).identified j.digest = signed at hvalid hsame
    have hsurplus : signed.surplus s =
        (sources.map s.valueAt).sum - (outputs.map fun out => out.value.toNat).sum := by
      rw [Transaction.surplus, Transaction.inputTotal, Transaction.outputTotal,
        Amount.total_eq_sum, hsame.sources, hsame.outputs, Transaction.sources_unsigned,
        List.map_map]
      rfl
    have hfee : (UInt64.ofNat (signed.surplus s)).toNat = signed.surplus s :=
      UInt64.toNat_ofNat_of_lt' (Nat.lt_of_le_of_lt (hsurplus ▸ Nat.sub_le _ _) hfit)
    refine ⟨signed, UInt64.ofNat (signed.surplus s), ?_,
      checkTransaction_eq_ok_iff.mpr ⟨hvalid, hfee⟩, hfee.trans hsurplus,
      hsame.sources.trans (Transaction.sources_unsigned _ _), hsame.outputs⟩
    exact Transaction.sign_eq_ok_iff.mpr
      ⟨publicKey, signature, hserves.accepts, hsign, hsigned.symm⟩
  · intro digest tx signed hsign
    obtain ⟨hsame, hid⟩ := Transaction.sign_sameTransfer hsign
    exact ⟨hsame.sources, hsame.outputs, hsame.coinbaseData, hsame.signingDigest_eq digest, hid⟩

end Judge

/-! ### A withdrawal -/

namespace Sample

/-- A private key on the curve, and its point. -/
def walletKey : PrivateKey where
  secret := 66052
  point :=
    ⟨37355750443210765125134498280875527360708408213562202653133122729057481285966,
      68298411823597036497666907366570097812587782389405940527700844619364974214137⟩

/-- Two outputs under one lock that are together worth the greatest amount. -/
def savings (lock : Bytes) : UtxoSet :=
  UtxoSet.empty.withCreated
    [(⟨[1], 0⟩, ⟨0x8000000000000000, lock⟩), (⟨[2], 7⟩, ⟨0x7fffffffffffffff, lock⟩)]

/-- Takes out all but five units. -/
def withdrawal : Transaction :=
  Transaction.unsigned [⟨[1], 0⟩, ⟨[2], 7⟩] [⟨0xfffffffffffffff9, lock⟩, ⟨1, lock⟩]

lemma value_savings (lock : Bytes) :
    (withdrawal.sources.map (savings lock).valueAt).sum = 2 ^ 64 - 1 := by
  have hfirst : (savings lock).valueAt ⟨[1], 0⟩ = 0x8000000000000000 := rfl
  have hsecond : (savings lock).valueAt ⟨[2], 7⟩ = 0x7fffffffffffffff := rfl
  simp [withdrawal, Transaction.sources_unsigned, hfirst, hsecond]

lemma get?_savings (lock : Bytes) :
    ∀ o ∈ withdrawal.sources, ∃ out, (savings lock).get? o = some out ∧ out.lock = lock := by
  intro o ho
  simp only [withdrawal, Transaction.sources_unsigned, List.mem_cons, List.not_mem_nil,
    or_false] at ho
  rcases ho with rfl | rfl
  · exact ⟨⟨0x8000000000000000, lock⟩, rfl, rfl⟩
  · exact ⟨⟨0x7fffffffffffffff, lock⟩, rfl, rfl⟩

/-- What is signed of the withdrawal. -/
def order : Bytes := withdrawal.signingDigest digest

/-- A wallet that signs one message with ECDSA, and by arithmetic whatever else it is given. -/
def wallet (order : Bytes) : Signer where
  publicKey := Signer.standard.publicKey
  sign key message :=
    if message = order then Signer.standard.sign key message
    else .ok (signature walletKey.publicKey message)

/-- A judge who checks these signatures. -/
def teller (order : Bytes) : Judge where
  primitives :=
    { digest := digest
      verify := fun publicKey sig message =>
        if message = order then Ecdsa.verify publicKey sig message
        else primitives.verify publicKey sig message }
  target := 0
  rewards := RewardSchedule.standard

/-- The wallet serves its key if the one ECDSA signature verifies. -/
lemma wallet_serves {order sig : Bytes}
    (haccepts : Signer.standard.publicKey walletKey.toBytes = .ok walletKey.publicKey)
    (hsign : Signer.standard.sign walletKey.toBytes order = .ok sig)
    (hverify : Ecdsa.verify walletKey.publicKey sig order = true) :
    (wallet order).Serves (teller order).primitives walletKey.toBytes walletKey.publicKey where
  accepts := by
    dsimp only [wallet]
    exact haccepts
  signs message := by
    by_cases horder : message = order
    · exact ⟨sig, (if_pos horder).trans (horder ▸ hsign)⟩
    · exact ⟨_, if_neg horder⟩
  verifies message found hfound := by
    by_cases horder : message = order
    · subst horder
      have hsame : Except.ok sig = Except.ok found :=
        hsign.symm.trans ((if_pos rfl).symm.trans hfound)
      cases hsame
      exact (if_pos rfl).trans hverify
    · have hsame : Except.ok (signature walletKey.publicKey message) = Except.ok found :=
        (if_neg horder).symm.trans hfound
      cases hsame
      refine (if_neg horder).trans (decide_eq_true ⟨?_, rfl⟩)
      simp [PrivateKey.publicKey, P256.Affine.toBytes]

/-- A result that passes a check is there. -/
lemma exists_of_any_toOption {r : Except Fault Bytes} {check : Bytes → Bool}
    (h : r.toOption.any check = true) : ∃ found, r = .ok found ∧ check found = true := by
  cases r with
  | error f => cases h
  | ok found => exact ⟨found, rfl, h⟩

/-- The key document is accepted, and the ECDSA signature of the withdrawal verifies. -/
lemma signed_order : Signer.standard.publicKey walletKey.toBytes = .ok walletKey.publicKey ∧
    ∃ signature, Signer.standard.sign walletKey.toBytes order = .ok signature ∧
      Ecdsa.verify walletKey.publicKey signature order = true := by
  refine ⟨by decide +kernel, ?_⟩
  have hverify : ((Signer.standard.sign walletKey.toBytes order).toOption.any
      fun signature => Ecdsa.verify walletKey.publicKey signature order) = true := by
    decide +kernel
  exact exists_of_any_toOption hverify

end Sample

namespace Judge

open Sample in
/-- The withdrawal is signed and accepted with a fee of five, although the outputs it takes from are
worth the greatest amount. -/
theorem wallet_spend_accepted_of_withdrawal :
    let s := savings (lockingHash walletKey.publicKey)
    (wallet order).Serves (teller order).primitives walletKey.toBytes walletKey.publicKey ∧
      (withdrawal.sources.map s.valueAt).sum = 2 ^ 64 - 1 ∧
      ∃ signed,
        withdrawal.sign (wallet order) (teller order).digest walletKey.toBytes = .ok signed ∧
        (teller order).checkTransaction signed s = .ok 5 := by
  intro s
  have hsum : (withdrawal.sources.map s.valueAt).sum = 2 ^ 64 - 1 := value_savings _
  obtain ⟨haccepts, sig, hsigned, hverify⟩ := signed_order
  have hserves := wallet_serves haccepts hsigned hverify
  have houtputs : withdrawal.outputs ≠ [] := by decide
  obtain ⟨⟨signed, fee, hsign, hok, hfee, -⟩, -⟩ := wallet_spend_accepted (j := teller order)
    hserves (by decide) (by decide) (get?_savings _) (by rw [hsum]; decide) houtputs
    (by rw [hsum]; decide)
  have hfive : fee = 5 := by
    rw [← UInt64.toNat_inj, hfee, hsum]
    decide
  exact ⟨hserves, hsum, signed, hsign, hfive ▸ hok⟩

end Judge

end PowLedger
