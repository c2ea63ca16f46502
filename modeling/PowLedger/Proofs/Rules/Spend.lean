import Mathlib.Data.List.Nodup
import Mathlib.Tactic.Common
import Mathlib.Tactic.Lemma
import PowLedger.Proofs.Utxo.Application
import PowLedger.Rules.Judge

/-!
# What the judge accepts as a transaction

`Judge.ValidSpend` lists what a spending transaction must satisfy over a set of unspent outputs. It
speaks of exact sums of natural numbers only. The judge accepts a transaction if and only if it
satisfies the list, and the fee is what the inputs leave over the outputs
(`Judge.checkTransaction_eq_ok_iff`).
-/

namespace PowLedger

/-- A computation in two steps gives a result if both steps do. -/
lemma bind_eq_ok_iff {ε α β : Type} {x : Except ε α} {f : α → Except ε β} {b : β} :
    x >>= f = .ok b ↔ ∃ a, x = .ok a ∧ f a = .ok b := by
  cases x with
  | error e =>
    constructor
    · intro h
      cases h
    · rintro ⟨a, ha, -⟩
      cases ha
  | ok a =>
    constructor
    · intro h
      exact ⟨a, rfl, h⟩
    · rintro ⟨a', ha, hb⟩
      cases ha
      exact hb

/-- Nothing follows a fault. -/
lemma error_bind {ε α β : Type} (e : ε) (f : α → Except ε β) :
    (Except.error e >>= f) = .error e := rfl

/-- A choice between a fault and going on goes on just when the fault is not due. -/
lemma ite_error_eq_ok_iff {ε α : Type} {p : Prop} [Decidable p] {e : ε} {x : Except ε α} {a : α} :
    (if p then .error e else x) = .ok a ↔ ¬p ∧ x = .ok a := by
  by_cases hp : p <;> simp [hp]

/-- A check goes through just when its condition holds. -/
lemma ite_ok_eq_ok_iff {ε : Type} {p : Prop} [Decidable p] {e : ε} :
    (if p then Except.ok () else .error e) = .ok () ↔ p := by
  by_cases hp : p <;> simp [hp]

/-! ### Repeated outpoints -/

/-- No outpoint is found repeated just when all are distinct and none has been seen before. -/
lemma firstRepeated_eq_none_iff {seen os : List Outpoint} :
    firstRepeated seen os = none ↔ os.Nodup ∧ ∀ o ∈ os, o ∉ seen := by
  induction os generalizing seen with
  | nil => simp [firstRepeated]
  | cons o os ih =>
    rw [firstRepeated]
    by_cases ho : o ∈ seen
    · simp [ho]
    · simp only [ho, if_false, ih, List.mem_cons, not_or, List.nodup_cons, forall_eq_or_imp,
        not_false_eq_true, true_and]
      constructor
      · rintro ⟨hnodup, hnew⟩
        exact ⟨⟨fun hmem => (hnew o hmem).1 rfl, hnodup⟩, fun p hp => (hnew p hp).2⟩
      · rintro ⟨⟨hfresh, hnodup⟩, hnew⟩
        exact ⟨hnodup, fun p hp => ⟨fun heq => hfresh (heq ▸ hp), hnew p hp⟩⟩

/-! ### Exact sums -/

namespace Transaction

/-- The exact sum of the outputs. -/
def outputTotal (tx : Transaction) : Nat :=
  Amount.total (tx.outputs.map TxOutput.value)

/-- The exact sum of the outputs that the inputs consume. -/
def inputTotal (s : UtxoSet) (tx : Transaction) : Nat :=
  (tx.sources.map s.valueAt).sum

/-- What the inputs leave over the outputs. -/
def surplus (s : UtxoSet) (tx : Transaction) : Nat :=
  tx.inputTotal s - tx.outputTotal

/-- The sum of the outputs is found if it is an amount. -/
lemma outputValue_eq_ok_iff {tx : Transaction} {v : Amount} :
    tx.outputValue = .ok v ↔ v.toNat = tx.outputTotal := by
  rw [outputTotal, ← Amount.sum?_eq_some_iff, outputValue, outputValue?]
  cases Amount.sum? (tx.outputs.map TxOutput.value) <;> simp

end Transaction

namespace UtxoSet

/-- The balance of outpoints on top of another amount is found if all are live and the sum is an
amount. -/
lemma balanceFrom_eq_ok_iff {s : UtxoSet} {acc v : Amount} {os : List Outpoint} :
    s.balanceFrom acc os = .ok v ↔
      (∀ o ∈ os, s.isLive o = true) ∧ v.toNat = acc.toNat + (os.map s.valueAt).sum := by
  induction os generalizing acc with
  | nil =>
    simp only [balanceFrom, Except.ok.injEq, List.not_mem_nil, false_implies, implies_true,
      true_and, List.map_nil, List.sum_nil, Nat.add_zero]
    exact ⟨fun h => h ▸ rfl, fun h => UInt64.toNat_inj.mp h.symm⟩
  | cons o os ih =>
    have hv : v.toNat < UInt64.size := v.toNat_lt
    rw [balanceFrom]
    cases hget : s.get? o with
    | none =>
      have hdead : s.isLive o = false := by
        show (s.get? o).isSome = false
        rw [hget]
        rfl
      simp [hdead]
    | some out =>
      have hlive : s.isLive o = true := Table.contains_iff.mpr ⟨out, hget⟩
      simp only [Amount.add?, List.mem_cons, forall_eq_or_imp, hlive, true_and, List.map_cons,
        List.sum_cons, valueAt_of_get? hget]
      by_cases hfit : acc.toNat + out.value.toNat < UInt64.size
      · simp only [hfit, if_true, ih, Amount.toNat_add_of_lt hfit, Nat.add_assoc]
      · simp only [hfit, if_false, reduceCtorEq, false_iff, not_and]
        omega

/-- The balance of outpoints is found if all are live and the sum is an amount. -/
lemma balance_eq_ok_iff {s : UtxoSet} {v : Amount} {os : List Outpoint} :
    s.balance os = .ok v ↔
      (∀ o ∈ os, s.isLive o = true) ∧ v.toNat = (os.map s.valueAt).sum := by
  rw [balance, balanceFrom_eq_ok_iff]
  simp

end UtxoSet

/-! ### The verdict on a transaction -/

namespace Judge

/-- The input spends a live output, with the key it is locked to and a signature of `message`. -/
structure Unlocks (j : Judge) (s : UtxoSet) (message : Bytes) (i : TxInput) : Prop where
  owner : ∃ out, s.get? i.source = some out ∧ lockingHash i.publicKey = out.lock
  signed : j.primitives.verify i.publicKey i.signature message = true

/-- What a spending transaction must satisfy over a set of unspent outputs. -/
structure ValidSpend (j : Judge) (s : UtxoSet) (tx : Transaction) : Prop where
  outputs : tx.outputs ≠ []
  inputs : tx.inputs ≠ []
  sourcesOnce : tx.sources.Nodup
  id : tx.computedId j.digest = tx.id
  unlocked : ∀ i ∈ tx.inputs, j.Unlocks s (tx.signingDigest j.digest) i
  inputsFit : tx.inputTotal s < UInt64.size
  balanced : tx.outputTotal ≤ tx.inputTotal s

variable {j : Judge} {s : UtxoSet} {tx : Transaction}

/-- The shape of a transaction passes if it has an output and no repeated input. -/
lemma checkShape_eq_ok_iff : checkShape tx = .ok () ↔ tx.outputs ≠ [] ∧ tx.sources.Nodup := by
  have hnone : firstRepeated [] tx.sources = none ↔ tx.sources.Nodup := by
    simp [firstRepeated_eq_none_iff]
  rw [checkShape, Transaction.checkShape]
  by_cases hout : tx.outputs = []
  · simp [hout]
  · cases hrep : firstRepeated [] tx.sources with
    | none => simp [hout, hnone.mp hrep]
    | some o =>
      have hdup : ¬tx.sources.Nodup := fun h => by simp [hnone.mpr h] at hrep
      simp [hout, hdup]

/-- The id passes if it is the computed one. -/
lemma checkId_eq_ok_iff : j.checkId tx = .ok () ↔ tx.computedId j.digest = tx.id :=
  ite_ok_eq_ok_iff

/-- An input passes if it unlocks a live output. -/
lemma checkInput_eq_ok_iff {message : Bytes} {i : TxInput} :
    j.checkInput s message i = .ok () ↔ j.Unlocks s message i := by
  rw [checkInput]
  cases hget : s.get? i.source with
  | none =>
    constructor
    · intro h
      cases h
    · rintro ⟨⟨out, hout, -⟩, -⟩
      rw [hget] at hout
      cases hout
  | some out =>
    simp only [ite_error_eq_ok_iff, ite_ok_eq_ok_iff, ne_eq, not_not]
    constructor
    · rintro ⟨hlock, hverify⟩
      exact ⟨⟨out, hget, hlock⟩, hverify⟩
    · rintro ⟨⟨out', hout, hlock⟩, hverify⟩
      cases hget.symm.trans hout
      exact ⟨hlock, hverify⟩

/-- Inputs pass if each of them unlocks a live output. -/
lemma checkInputs_eq_ok_iff {message : Bytes} {is : List TxInput} :
    j.checkInputs s message is = .ok () ↔ ∀ i ∈ is, j.Unlocks s message i := by
  induction is with
  | nil => simp [checkInputs]
  | cons i is ih =>
    rw [checkInputs, List.forall_mem_cons, ← checkInput_eq_ok_iff, ← ih]
    cases hi : j.checkInput s message i <;> simp

/-- The fee is found if the inputs are live, their sum is an amount and covers the outputs; it is
what they leave over. -/
lemma fee_eq_ok_iff {f : Amount} :
    fee s tx = .ok f ↔ (∀ o ∈ tx.sources, s.isLive o = true) ∧ tx.inputTotal s < UInt64.size ∧
      tx.outputTotal ≤ tx.inputTotal s ∧ f.toNat = tx.surplus s := by
  simp only [fee, bind_eq_ok_iff, UtxoSet.balance_eq_ok_iff, Transaction.outputValue_eq_ok_iff,
    ite_error_eq_ok_iff, Except.ok.injEq]
  constructor
  · rintro ⟨input, ⟨hlive, hin⟩, output, hout, hle, rfl⟩
    have hsum : input.toNat = tx.inputTotal s := hin
    have hfit : input.toNat < UInt64.size := input.toNat_lt
    rw [UInt64.not_lt] at hle
    have hle' : output.toNat ≤ input.toNat := hle
    refine ⟨hlive, hsum ▸ hfit, hsum ▸ hout ▸ hle', ?_⟩
    rw [UInt64.toNat_sub_of_le _ _ hle, hout, hsum, Transaction.surplus]
  · rintro ⟨hlive, hfit, hle, hf⟩
    have hin : (UInt64.ofNat (tx.inputTotal s)).toNat = tx.inputTotal s :=
      UInt64.toNat_ofNat_of_lt' hfit
    have hout : (UInt64.ofNat tx.outputTotal).toNat = tx.outputTotal :=
      UInt64.toNat_ofNat_of_lt' (Nat.lt_of_le_of_lt hle hfit)
    have hle' : UInt64.ofNat tx.outputTotal ≤ UInt64.ofNat (tx.inputTotal s) := by
      rw [UInt64.le_iff_toNat_le, hin, hout]
      exact hle
    refine ⟨_, ⟨hlive, hin⟩, _, hout, UInt64.not_lt.mpr hle', UInt64.toNat_inj.mp ?_⟩
    rw [UInt64.toNat_sub_of_le _ _ hle', hin, hout, hf, Transaction.surplus]

/-- An input that unlocks an output consumes a live one. -/
lemma Unlocks.live {message : Bytes} {i : TxInput} (h : j.Unlocks s message i) :
    s.isLive i.source = true := by
  obtain ⟨out, hout, -⟩ := h.owner
  exact Table.contains_iff.mpr ⟨out, hout⟩

/-- A valid transaction consumes live outputs only. -/
lemma ValidSpend.live (h : j.ValidSpend s tx) : ∀ o ∈ tx.sources, s.isLive o = true := by
  intro o ho
  obtain ⟨i, hi, rfl⟩ := List.mem_map.mp ho
  exact (h.unlocked i hi).live

/-- The judge accepts exactly the valid transactions; the fee is their surplus. -/
theorem checkTransaction_eq_ok_iff {f : Amount} :
    j.checkTransaction tx s = .ok f ↔ j.ValidSpend s tx ∧ f.toNat = tx.surplus s := by
  have hbase : tx.isCoinbase = true ↔ tx.inputs = [] := List.isEmpty_iff
  simp only [checkTransaction, bind_eq_ok_iff, error_bind, ite_error_eq_ok_iff, hbase,
    fee_eq_ok_iff]
  constructor
  · rintro ⟨⟨⟩, hshape, hin, ⟨⟩, hid, ⟨⟩, hinputs, hlive, hfit, hle, hf⟩
    obtain ⟨hout, hnodup⟩ := checkShape_eq_ok_iff.mp hshape
    exact ⟨⟨hout, hin, hnodup, checkId_eq_ok_iff.mp hid, checkInputs_eq_ok_iff.mp hinputs, hfit,
      hle⟩, hf⟩
  · rintro ⟨h, hf⟩
    exact ⟨(), checkShape_eq_ok_iff.mpr ⟨h.outputs, h.sourcesOnce⟩, h.inputs, (),
      checkId_eq_ok_iff.mpr h.id, (), checkInputs_eq_ok_iff.mpr h.unlocked, h.live, h.inputsFit,
      h.balanced, hf⟩

/-! ### What the verdict depends on -/

/-- The balance of outpoints is that of any set with the same outputs there. -/
lemma balanceFrom_congr {s s' : UtxoSet} {os : List Outpoint}
    (h : ∀ o ∈ os, s'.get? o = s.get? o) (acc : Amount) :
    s'.balanceFrom acc os = s.balanceFrom acc os := by
  induction os generalizing acc with
  | nil => rfl
  | cons o os ih =>
    have hrest := ih fun p hp => h p (List.mem_cons_of_mem _ hp)
    simp only [UtxoSet.balanceFrom, h o List.mem_cons_self, hrest]

/-- The verdict on inputs is that over any set with the same outputs at their sources. -/
lemma checkInputs_congr {s s' : UtxoSet} {message : Bytes} {is : List TxInput}
    (h : ∀ i ∈ is, s'.get? i.source = s.get? i.source) :
    j.checkInputs s' message is = j.checkInputs s message is := by
  induction is with
  | nil => rfl
  | cons i is ih =>
    have hrest := ih fun k hk => h k (List.mem_cons_of_mem _ hk)
    simp only [checkInputs, checkInput, h i List.mem_cons_self, hrest]

/-- The verdict on a transaction depends on the outputs that it spends and on no others. -/
theorem checkTransaction_congr {s s' : UtxoSet} {tx : Transaction}
    (h : ∀ o ∈ tx.sources, s'.get? o = s.get? o) :
    j.checkTransaction tx s' = j.checkTransaction tx s := by
  have hinputs : j.checkInputs s' (tx.signingDigest j.digest) tx.inputs =
      j.checkInputs s (tx.signingDigest j.digest) tx.inputs :=
    checkInputs_congr fun i hi => h i.source (List.mem_map_of_mem hi)
  have hbalance : s'.balance tx.sources = s.balance tx.sources := balanceFrom_congr h 0
  simp only [checkTransaction, fee, hinputs, hbalance]

end Judge

end PowLedger
