import Mathlib.Data.List.Nodup
import Mathlib.Tactic.Common
import Mathlib.Tactic.Lemma
import PowLedger.Proofs.Codec.RoundTrip
import PowLedger.Proofs.Collision

/-!
# What the id of a transaction commits to

The bytes that an id is the digest of determine everything but the id itself. So two transactions
that carry their computed ids, and whose bytes do not collide, are equal as soon as their ids are. A
transaction with a signature of 64 bytes under a key of 65 has more bytes than two digests side by
side; this keeps it apart from the inner nodes of a Merkle tree.
-/

namespace PowLedger

namespace Transaction

/-- A transaction still fits without its id. -/
lemma Fits.withoutId {tx : Transaction} (h : tx.Fits) : tx.withoutId.Fits where
  id := by simp [Counted, Transaction.withoutId, UInt64.size]
  inputs := h.inputs
  outputs := h.outputs
  coinbaseData := h.coinbaseData
  eachInput := h.eachInput
  eachLock := h.eachLock

/-- The bytes behind an id determine everything but the id. -/
lemma withoutId_eq_of_idBytes_eq {t u : Transaction} (ht : t.Fits) (hu : u.Fits)
    (h : t.idBytes = u.idBytes) : t.withoutId = u.withoutId :=
  Codec.encodeTransaction_inj ht.withoutId hu.withoutId h

/-- Transactions that agree in the bytes behind their ids agree in their inputs and their data. -/
lemma inputs_eq_of_idBytes_eq {t u : Transaction} (ht : t.Fits) (hu : u.Fits)
    (h : t.idBytes = u.idBytes) : t.inputs = u.inputs ∧ t.coinbaseData = u.coinbaseData := by
  have heq := withoutId_eq_of_idBytes_eq ht hu h
  have hinputs : t.withoutId.inputs = u.withoutId.inputs := by rw [heq]
  have hdata : t.withoutId.coinbaseData = u.withoutId.coinbaseData := by rw [heq]
  exact ⟨hinputs, hdata⟩

/-- Transactions with computed ids are equal if the bytes behind the ids are. -/
lemma eq_of_idBytes_eq {digest : Hasher} {t u : Transaction} (ht : t.Fits) (hu : u.Fits)
    (htid : t.computedId digest = t.id) (huid : u.computedId digest = u.id)
    (h : t.idBytes = u.idBytes) : t = u := by
  have heq := withoutId_eq_of_idBytes_eq ht hu h
  have hid : t.id = u.id := by rw [← htid, ← huid, computedId, computedId, h]
  calc
    t = { t.withoutId with id := t.id } := rfl
    _ = { u.withoutId with id := u.id } := by rw [heq, hid]
    _ = u := rfl

/-- A signature of 64 bytes and a key of 65 make the bytes behind an id longer than two digests. -/
lemma length_idBytes_gt {tx : Transaction} {i : TxInput} (hi : i ∈ tx.inputs)
    (hsignature : i.signature.length = 64) (hkey : i.publicKey.length = 65) :
    64 < tx.idBytes.length := by
  have hinput : 129 ≤ (Codec.encodeInput i).length := by
    simp only [Codec.encodeInput, Codec.encodeBytes, List.length_append]
    omega
  have hmember : (Codec.encodeInput i).length ≤ (tx.inputs.flatMap Codec.encodeInput).length := by
    obtain ⟨before, after, hsplit⟩ := List.append_of_mem hi
    rw [hsplit, List.flatMap_append, List.flatMap_cons, List.length_append, List.length_append]
    omega
  simp only [idBytes, Codec.encodeTransaction, withoutId, Codec.encodeList, List.length_append]
  omega

end Transaction

end PowLedger
