import Mathlib.Data.List.Basic
import Mathlib.Tactic.Common
import Mathlib.Tactic.Lemma
import PowLedger.Proofs.Node.Integrity

/-!
# What ids and signatures commit to

Two byte strings are hashed of a transaction. The one behind the id leaves out the id, the one
behind the signing digest leaves out the id, the signatures and the keys; nothing else is left out,
and nothing of what is left out has any influence: `Transaction.commitments_exact`. As stored forms
are self-delimiting, no boundary of a field can be shifted. So a signature of one transaction is
none of a transaction that spends other outputs or makes other ones, or the same in another order.
-/

namespace PowLedger

/-- Under the key, the signature is one of no more than one of the messages. -/
def Primitives.SignsOnce (p : Primitives) (publicKey signature : Bytes) (messages : List Bytes) :
    Prop :=
  ∀ x ∈ messages, ∀ y ∈ messages,
    p.verify publicKey signature x = true → p.verify publicKey signature y = true → x = y

instance (p : Primitives) (publicKey signature : Bytes) (messages : List Bytes) :
    Decidable (p.SignsOnce publicKey signature messages) :=
  inferInstanceAs (Decidable (∀ x ∈ messages, ∀ y ∈ messages,
    p.verify publicKey signature x = true → p.verify publicKey signature y = true → x = y))

namespace Transaction

/-- The transactions spend the same outputs in the same order, make the same outputs in the same
order, and carry the same data. -/
structure SameTransfer (t u : Transaction) : Prop where
  sources : t.sources = u.sources
  outputs : t.outputs = u.outputs
  coinbaseData : t.coinbaseData = u.coinbaseData

variable {t u : Transaction}

/-! ### What is left out -/

/-- Without their ids, transactions are equal if all else is. -/
lemma withoutId_eq_iff : t.withoutId = u.withoutId ↔
    t.inputs = u.inputs ∧ t.outputs = u.outputs ∧ t.coinbaseData = u.coinbaseData := by
  simp [withoutId]

lemma unsigned_injective : Function.Injective TxInput.unsigned := by
  intro o p h
  exact congrArg TxInput.source h

/-- Without ids, signatures and keys, transactions are equal if they make the same transfer. -/
lemma stripped_eq_iff : t.stripped = u.stripped ↔ t.SameTransfer u := by
  have hinputs : ∀ tx : Transaction,
      (tx.inputs.map fun i => TxInput.unsigned i.source) = tx.sources.map TxInput.unsigned := by
    intro tx
    rw [sources, List.map_map]
    rfl
  simp only [stripped, hinputs, mk.injEq, true_and, unsigned_injective.list_map.eq_iff]
  exact ⟨fun h => ⟨h.1, h.2.1, h.2.2⟩, fun h => ⟨h.sources, h.outputs, h.coinbaseData⟩⟩

/-- A transaction still fits without its id, signatures and keys. -/
lemma Fits.stripped (h : t.Fits) : t.stripped.Fits where
  id := by simp [Counted, Transaction.stripped, UInt64.size]
  inputs := by simpa [Counted, Transaction.stripped] using h.inputs
  outputs := h.outputs
  coinbaseData := h.coinbaseData
  eachInput := by
    intro i hi
    obtain ⟨k, hk, rfl⟩ := List.mem_map.mp hi
    have hblank : Counted ([] : Bytes) := by decide
    exact ⟨(h.eachInput k hk).txid, hblank, hblank⟩
  eachLock := h.eachLock

/-! ### What is hashed -/

/-- The bytes behind the ids are equal just when all but the ids is. -/
lemma idBytes_eq_iff (ht : t.Fits) (hu : u.Fits) : t.idBytes = u.idBytes ↔
    t.inputs = u.inputs ∧ t.outputs = u.outputs ∧ t.coinbaseData = u.coinbaseData := by
  rw [← withoutId_eq_iff]
  exact ⟨withoutId_eq_of_idBytes_eq ht hu, congrArg Codec.encodeTransaction⟩

/-- The bytes behind the signing digest of transactions that make the same transfer are equal. -/
lemma SameTransfer.signingBytes_eq (h : t.SameTransfer u) : t.signingBytes = u.signingBytes :=
  congrArg Codec.encodeTransaction (stripped_eq_iff.mpr h)

/-- The bytes behind the signing digests are equal just when the same transfer is made. -/
lemma signingBytes_eq_iff (ht : t.Fits) (hu : u.Fits) :
    t.signingBytes = u.signingBytes ↔ t.SameTransfer u := by
  refine ⟨fun h => ?_, SameTransfer.signingBytes_eq⟩
  exact stripped_eq_iff.mp (Codec.encodeTransaction_inj ht.stripped hu.stripped h)

/-- Whatever stands for the id, the signatures and the keys, the same transfer is made. -/
lemma sameTransfer_resigned (t : Transaction) (id : Bytes) {resign : TxInput → TxInput}
    (h : ∀ i, (resign i).source = i.source) :
    SameTransfer { t with id := id, inputs := t.inputs.map resign } t where
  sources := by simp [Transaction.sources, h]
  outputs := rfl
  coinbaseData := rfl

/-- A signature that is one of both transactions signs the same transfer. -/
lemma sameTransfer_of_signed {p : Primitives} {publicKey signature : Bytes} (ht : t.Fits)
    (hu : u.Fits) (hfree : CollisionFree p.digest [t.signingBytes, u.signingBytes])
    (honce : p.SignsOnce publicKey signature [t.signingDigest p.digest, u.signingDigest p.digest])
    (hsigned : p.verify publicKey signature (t.signingDigest p.digest) = true)
    (hsigned' : p.verify publicKey signature (u.signingDigest p.digest) = true) :
    t.SameTransfer u := by
  have hdigests : t.signingDigest p.digest = u.signingDigest p.digest :=
    honce _ (by simp) _ (by simp) hsigned hsigned'
  have hbytes : t.signingBytes = u.signingBytes := hfree _ (by simp) _ (by simp) hdigests
  exact (signingBytes_eq_iff ht hu).mp hbytes

/-- The bytes behind the ids of two transactions are equal just when their inputs, outputs and data
are, and those behind the signing digests just when the same outpoints are spent in the same order,
the same outputs are made in the same order, and the data are equal. No other id, signature or key
changes the signing digest. So a signature of the first transaction that the judge accepts in the
second one shows that they make the same transfer, if the two messages do not collide and it is not
one of two digests. -/
theorem commitments_exact (ht : t.Fits) (hu : u.Fits) :
    (t.idBytes = u.idBytes ↔
      t.inputs = u.inputs ∧ t.outputs = u.outputs ∧ t.coinbaseData = u.coinbaseData) ∧
    (t.signingBytes = u.signingBytes ↔ t.SameTransfer u) ∧
    (∀ (digest : Hasher) (id : Bytes) (resign : TxInput → TxInput),
      (∀ i, (resign i).source = i.source) →
      signingDigest digest { t with id := id, inputs := t.inputs.map resign } =
        t.signingDigest digest) ∧
    ∀ (j : Judge) (s : UtxoSet) (fee : Amount), ∀ i ∈ u.inputs,
      CollisionFree j.digest [t.signingBytes, u.signingBytes] →
      j.primitives.SignsOnce i.publicKey i.signature
        [t.signingDigest j.digest, u.signingDigest j.digest] →
      j.primitives.verify i.publicKey i.signature (t.signingDigest j.digest) = true →
      j.checkTransaction u s = .ok fee → t.SameTransfer u := by
  refine ⟨idBytes_eq_iff ht hu, signingBytes_eq_iff ht hu, fun digest id resign hresign => ?_, ?_⟩
  · exact congrArg digest (sameTransfer_resigned t id hresign).signingBytes_eq
  · intro j s fee i hi hfree honce hsigned hok
    have hspend := (Judge.checkTransaction_eq_ok_iff.mp hok).1
    exact sameTransfer_of_signed ht hu hfree honce hsigned (hspend.unlocked i hi).signed

end Transaction

namespace Sample

/-- The payment before it is signed. -/
def draft : Transaction :=
  Transaction.unsigned [(coinbase 0 50).outpoint 0] [⟨30, lock⟩, ⟨15, lock⟩]

/-- The payment with its outputs in the other order. -/
def reordered : Transaction :=
  { payment with outputs := payment.outputs.reverse }

end Sample

namespace Transaction

open Sample in
/-- The signature of the payment is the one made for its draft, and the ids tell the two apart. With
the outputs in the other order something else would be signed. -/
theorem commitments_exact_of_payment :
    draft.Fits ∧ payment.Fits ∧ reordered.Fits ∧ draft.idBytes ≠ payment.idBytes ∧
      draft.SameTransfer payment ∧ payment.signingBytes ≠ reordered.signingBytes := by
  obtain ⟨hdraft, hpayment, hreordered, hinputs, hmember, houtputs⟩ :
      draft.Fits ∧ payment.Fits ∧ reordered.Fits ∧ draft.inputs ≠ payment.inputs ∧
        (∃ i ∈ payment.inputs, i.publicKey = key ∧
          i.signature = signature key (draft.signingDigest Sample.digest)) ∧
        payment.outputs ≠ reordered.outputs := by decide +kernel
  obtain ⟨i, hi, hkey, hsignature⟩ := hmember
  obtain ⟨hid, -, -, hcarried⟩ := commitments_exact hdraft hpayment
  obtain ⟨-, hsigning, -, -⟩ := commitments_exact hpayment hreordered
  refine ⟨hdraft, hpayment, hreordered, fun h => hinputs (hid.mp h).1, ?_,
    fun h => houtputs (hsigning.mp h).outputs⟩
  refine hcarried node.judge (Ledger.utxos [first]) 5 i hi ?_ ?_ ?_ ?_
  · decide +kernel
  · rw [hkey, hsignature]
    decide +kernel
  · rw [hkey, hsignature]
    decide +kernel
  · decide +kernel

end Transaction

end PowLedger
