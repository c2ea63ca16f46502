import Mathlib.Data.List.Nodup
import Mathlib.Tactic.Common
import PowLedger.Proofs.Table
import PowLedger.Utxo

/-!
# Applying a block

When the set of unspent outputs takes a block, and what it then is. A block is taken exactly if it
spends live outputs only, none twice, creates none twice, and creates an output in the place of a
live one only once that one is spent (`UtxoSet.apply_eq_ok_iff`). The set afterwards, seen through
the look-up, is the old one without what the block spends and with what it creates
(`UtxoSet.get?_apply`), and its value has changed by the value created and the value spent
(`UtxoSet.totalValue_apply`).
-/

namespace PowLedger

/-- The outpoints that the inputs of a block consume, in order. -/
def Block.spent (b : Block) : List Outpoint :=
  b.transactions.flatMap Transaction.sources

/-- The outputs that a block makes, with their outpoints, in order. -/
def Block.created (b : Block) : List (Outpoint × TxOutput) :=
  b.transactions.flatMap Transaction.created

/-- The exact sum of amounts is the sum of their numbers. -/
theorem Amount.total_eq_sum (l : List Amount) : Amount.total l = (l.map UInt64.toNat).sum := by
  induction l with
  | nil => rfl
  | cons a l ih => rw [Amount.total, ih, List.map_cons, List.sum_cons]

namespace UtxoSet

/-! ### The first pass -/

/-- None of the outpoints is marked before its turn. -/
def Unmarked (marked : List Outpoint) : List Outpoint → Prop
  | [] => True
  | o :: os => o ∉ marked ∧ Unmarked (o :: marked) os

/-- Outpoints are marked one list after the other. -/
theorem unmarked_append {marked os ps : List Outpoint} :
    Unmarked marked (os ++ ps) ↔ Unmarked marked os ∧ Unmarked (os.reverse ++ marked) ps := by
  induction os generalizing marked with
  | nil => simp [Unmarked]
  | cons o os ih =>
    rw [List.cons_append, Unmarked, Unmarked, ih, and_assoc, List.reverse_cons, List.append_assoc,
      List.singleton_append]

/-- Outpoints can be marked if they are distinct and not marked yet. -/
theorem unmarked_iff {marked os : List Outpoint} :
    Unmarked marked os ↔ os.Nodup ∧ ∀ o ∈ os, o ∉ marked := by
  induction os generalizing marked with
  | nil => simp [Unmarked]
  | cons o os ih =>
    rw [Unmarked, ih]
    simp only [List.mem_cons, forall_eq_or_imp, List.nodup_cons, not_or]
    constructor
    · rintro ⟨hfirst, hnodup, hrest⟩
      exact ⟨⟨fun hmem => (hrest o hmem).1 rfl, hnodup⟩, hfirst, fun p hp => (hrest p hp).2⟩
    · rintro ⟨⟨hfresh, hnodup⟩, hfirst, hrest⟩
      exact ⟨hfirst, hnodup, fun p hp => ⟨fun heq => hfresh (heq ▸ hp), hrest p hp⟩⟩

/-- Outpoints can be marked as spent if they are live and none is marked before its turn. -/
theorem spendAll_eq_ok_iff {s : UtxoSet} {e e' : Effects} {os : List Outpoint} :
    s.spendAll e os = .ok e' ↔ (∀ o ∈ os, s.isLive o = true) ∧ Unmarked e.spent os ∧
      e' = ⟨os.reverse ++ e.spent, e.created⟩ := by
  induction os generalizing e with
  | nil =>
    constructor
    · intro h
      cases h
      exact ⟨List.forall_mem_nil _, trivial, rfl⟩
    · rintro ⟨-, -, rfl⟩
      rfl
  | cons o os ih =>
    rw [spendAll]
    split
    · next h =>
      rw [ih]
      simp [Unmarked, h]
    · next h =>
      refine ⟨fun hbad => (by cases hbad), fun hgood => absurd ?_ h⟩
      exact ⟨hgood.1 o List.mem_cons_self, hgood.2.1.1⟩

/-- Outpoints can be marked as created if the live ones among them are spent and none is marked
before its turn. -/
theorem createAll_eq_ok_iff {s : UtxoSet} {e e' : Effects} {os : List Outpoint} :
    s.createAll e os = .ok e' ↔ (∀ o ∈ os, s.isLive o = true → o ∈ e.spent) ∧
      Unmarked e.created os ∧ e' = ⟨e.spent, os.reverse ++ e.created⟩ := by
  induction os generalizing e with
  | nil =>
    constructor
    · intro h
      cases h
      exact ⟨List.forall_mem_nil _, trivial, rfl⟩
    · rintro ⟨-, -, rfl⟩
      rfl
  | cons o os ih =>
    rw [createAll]
    split
    · next h =>
      refine ⟨fun hbad => (by cases hbad), fun hgood => absurd h ?_⟩
      rintro (⟨hlive, hunspent⟩ | hcreated)
      · exact hunspent (hgood.1 o List.mem_cons_self hlive)
      · exact hgood.2.1.1 hcreated
    · next h =>
      rw [not_or, not_and, not_not] at h
      rw [ih, List.forall_mem_cons, Unmarked, List.reverse_cons, List.append_assoc,
        List.singleton_append]
      constructor
      · rintro ⟨hcov, hcreated, rfl⟩
        exact ⟨⟨h.1, hcov⟩, ⟨h.2, hcreated⟩, rfl⟩
      · rintro ⟨⟨-, hcov⟩, ⟨-, hcreated⟩, rfl⟩
        exact ⟨hcov, hcreated, rfl⟩

/-- A transaction that creates an output in the place of a live one spends that one itself, or it
is among the outpoints spent before it. -/
def Covers (s : UtxoSet) (spent : List Outpoint) : List Transaction → Prop
  | [] => True
  | tx :: rest =>
    (∀ o ∈ tx.created.map Prod.fst, s.isLive o = true → o ∈ tx.sources.reverse ++ spent) ∧
      s.Covers (tx.sources.reverse ++ spent) rest

/-- The effects of a transaction and those behind it. -/
theorem effectsFrom_cons_eq_ok_iff {s : UtxoSet} {e e' : Effects} {tx : Transaction}
    {txs : List Transaction} : s.effectsFrom e (tx :: txs) = .ok e' ↔
      ∃ e₁, s.spendAll e tx.sources = .ok e₁ ∧ ∃ e₂,
        s.createAll e₁ (tx.created.map Prod.fst) = .ok e₂ ∧ s.effectsFrom e₂ txs = .ok e' := by
  rw [effectsFrom]
  cases hs : s.spendAll e tx.sources with
  | error c => simp
  | ok e₁ => cases hc : s.createAll e₁ (tx.created.map Prod.fst) <;> simp [hc]

/-- The effects of transactions on top of others: when there are any, and what they are. -/
theorem effectsFrom_eq_ok_iff {s : UtxoSet} {e e' : Effects} {txs : List Transaction} :
    s.effectsFrom e txs = .ok e' ↔
      (∀ o ∈ txs.flatMap Transaction.sources, s.isLive o = true) ∧
      Unmarked e.spent (txs.flatMap Transaction.sources) ∧
      Unmarked e.created ((txs.flatMap Transaction.created).map Prod.fst) ∧
      s.Covers e.spent txs ∧
      e' = ⟨(txs.flatMap Transaction.sources).reverse ++ e.spent,
        ((txs.flatMap Transaction.created).map Prod.fst).reverse ++ e.created⟩ := by
  induction txs generalizing e with
  | nil =>
    constructor
    · intro h
      cases h
      exact ⟨List.forall_mem_nil _, trivial, trivial, trivial, rfl⟩
    · rintro ⟨-, -, -, -, rfl⟩
      rfl
  | cons tx txs ih =>
    simp only [effectsFrom_cons_eq_ok_iff, spendAll_eq_ok_iff, createAll_eq_ok_iff, ih,
      List.flatMap_cons, List.map_append, List.reverse_append, List.append_assoc, Covers,
      List.forall_mem_append, unmarked_append]
    constructor
    · rintro ⟨e₁, ⟨hlive, hspent, rfl⟩, e₂, ⟨hcov, hcreated, rfl⟩, hlive', hspent', hcreated',
        hcov', rfl⟩
      exact ⟨⟨hlive, hlive'⟩, ⟨hspent, hspent'⟩, ⟨hcreated, hcreated'⟩, ⟨hcov, hcov'⟩, rfl⟩
    · rintro ⟨⟨hlive, hlive'⟩, ⟨hspent, hspent'⟩, ⟨hcreated, hcreated'⟩, ⟨hcov, hcov'⟩, rfl⟩
      exact ⟨_, ⟨hlive, hspent, rfl⟩, _, ⟨hcov, hcreated, rfl⟩, hlive', hspent', hcreated', hcov',
        rfl⟩

/-! ### When a block is taken -/

/-- What the set asks of a block. -/
structure Takes (s : UtxoSet) (b : Block) : Prop where
  /-- Every consumed output is there. -/
  live : ∀ o ∈ b.spent, s.isLive o = true
  /-- No output is consumed twice. -/
  spentOnce : b.spent.Nodup
  /-- No output is made twice. -/
  createdOnce : (b.created.map Prod.fst).Nodup
  /-- An output takes the place of a live one only once that one is consumed. -/
  covers : s.Covers [] b.transactions

/-- A block is applied exactly if the set takes it; the set loses what is spent and gets what is
created. -/
theorem apply_eq_ok_iff {s s' : UtxoSet} {b : Block} :
    s.apply b = .ok s' ↔
      s.Takes b ∧ s' = (s.without b.spent.reverse).withCreated b.created := by
  unfold apply
  constructor
  · intro h
    cases heff : s.effectsFrom ⟨[], []⟩ b.transactions with
    | error c => simp [heff] at h
    | ok e =>
      obtain ⟨hlive, hspent, hcreated, hcov, rfl⟩ := effectsFrom_eq_ok_iff.mp heff
      simp only [heff, Except.ok.injEq, List.append_nil] at h
      exact ⟨⟨hlive, (unmarked_iff.mp hspent).1, (unmarked_iff.mp hcreated).1, hcov⟩, h.symm⟩
  · rintro ⟨h, rfl⟩
    have heff : s.effectsFrom ⟨[], []⟩ b.transactions =
        .ok ⟨b.spent.reverse, (b.created.map Prod.fst).reverse⟩ :=
      effectsFrom_eq_ok_iff.mpr ⟨h.live,
        unmarked_iff.mpr ⟨h.spentOnce, fun _ _ => List.not_mem_nil⟩,
        unmarked_iff.mpr ⟨h.createdOnce, fun _ _ => List.not_mem_nil⟩, h.covers,
        by simp [Block.spent, Block.created]⟩
    rw [heff]
    rfl

/-- Transactions that create nothing in the place of a live output need not cover anything. -/
theorem covers_of_fresh {s : UtxoSet} {spent : List Outpoint} {txs : List Transaction}
    (h : ∀ o ∈ (txs.flatMap Transaction.created).map Prod.fst, s.isLive o = false) :
    s.Covers spent txs := by
  induction txs generalizing spent with
  | nil => trivial
  | cons tx txs ih =>
    simp only [List.flatMap_cons, List.map_append, List.mem_append] at h
    refine ⟨fun o ho hlive => ?_, ih fun o ho => h o (Or.inr ho)⟩
    rw [h o (Or.inl ho)] at hlive
    exact absurd hlive (by decide)

/-- A created output whose place is taken is spent by the block. -/
theorem Covers.mem_spent {s : UtxoSet} {spent : List Outpoint} {txs : List Transaction}
    (h : s.Covers spent txs) {o : Outpoint}
    (ho : o ∈ (txs.flatMap Transaction.created).map Prod.fst) (hlive : s.isLive o = true) :
    o ∈ txs.flatMap Transaction.sources ∨ o ∈ spent := by
  induction txs generalizing spent with
  | nil => simp at ho
  | cons tx txs ih =>
    simp only [List.flatMap_cons, List.map_append, List.mem_append] at ho ⊢
    rcases ho with ho | ho
    · rcases List.mem_append.mp (h.1 o ho hlive) with hmem | hmem
      · exact Or.inl (Or.inl (List.mem_reverse.mp hmem))
      · exact Or.inr hmem
    · rcases ih h.2 ho with hmem | hmem
      · exact Or.inl (Or.inr hmem)
      · rcases List.mem_append.mp hmem with hmem | hmem
        · exact Or.inl (Or.inl (List.mem_reverse.mp hmem))
        · exact Or.inr hmem

/-- A created output has a free place once the spent ones are taken out. -/
theorem Takes.get?_without {s : UtxoSet} {b : Block} (h : s.Takes b) {o : Outpoint}
    (ho : o ∈ b.created.map Prod.fst) : (s.without b.spent.reverse).get? o = none := by
  show (b.spent.reverse.foldl Table.erase s.table).get? o = none
  rw [Table.get?_foldl_erase]
  split
  · rfl
  · next hunspent =>
    by_contra hsome
    have hlive : s.isLive o = true := Option.isSome_iff_ne_none.mpr hsome
    rcases h.covers.mem_spent ho hlive with hmem | hmem
    · exact hunspent (List.mem_reverse.mpr hmem)
    · exact List.not_mem_nil hmem

/-! ### The set afterwards -/

/-- After a block the set holds what the block created, and what it held before unless the block
spent it. -/
theorem get?_apply {s s' : UtxoSet} {b : Block} (h : s.apply b = .ok s') {o : Outpoint}
    {out : TxOutput} :
    s'.get? o = some out ↔ (o, out) ∈ b.created ∨ s.get? o = some out ∧ o ∉ b.spent := by
  obtain ⟨htakes, rfl⟩ := apply_eq_ok_iff.mp h
  show (b.created.foldl (fun t e => t.insert e.1 e.2)
    (s.without b.spent.reverse).table).get? o = some out ↔ _
  rw [Table.get?_foldl_insert_eq_some_iff htakes.createdOnce]
  have hwithout : (s.without b.spent.reverse).table.get? o =
      if o ∈ b.spent.reverse then none else s.get? o := Table.get?_foldl_erase _ _ _
  refine or_congr_right ⟨?_, ?_⟩
  · rintro ⟨-, hget⟩
    rw [hwithout] at hget
    split at hget
    · cases hget
    · next hunspent => exact ⟨hget, fun hmem => hunspent (List.mem_reverse.mpr hmem)⟩
  · rintro ⟨hget, hunspent⟩
    have hrev : o ∉ b.spent.reverse := fun hmem => hunspent (List.mem_reverse.mp hmem)
    have hkept : (s.without b.spent.reverse).table.get? o = some out := by
      rw [hwithout, if_neg hrev, hget]
    refine ⟨fun hmem => ?_, hkept⟩
    have hfree : (s.without b.spent.reverse).table.get? o = none := htakes.get?_without hmem
    rw [hkept] at hfree
    cases hfree

/-! ### Value -/

/-- The value at an outpoint, zero if there is no output. -/
def valueAt (s : UtxoSet) (o : Outpoint) : Nat :=
  ((s.get? o).map fun out => out.value.toNat).getD 0

/-- The value of a live outpoint is that of its output. -/
theorem valueAt_of_get? {s : UtxoSet} {o : Outpoint} {out : TxOutput} (h : s.get? o = some out) :
    s.valueAt o = out.value.toNat := by
  simp [valueAt, h]

/-- The value of a set is the weight of its outputs. -/
theorem totalValue_eq_weight (s : UtxoSet) :
    s.totalValue = s.table.weight fun out => out.value.toNat := by
  rw [totalValue, Amount.total_eq_sum, Table.weight, List.map_map]
  rfl

/-- Taking out distinct live outputs takes their value out. -/
theorem totalValue_without {s : UtxoSet} {os : List Outpoint} (hnodup : os.Nodup)
    (hlive : ∀ o ∈ os, s.isLive o = true) :
    (s.without os).totalValue + (os.map s.valueAt).sum = s.totalValue := by
  induction os generalizing s with
  | nil => rfl
  | cons o os ih =>
    rw [List.nodup_cons] at hnodup
    obtain ⟨out, hout⟩ := Table.contains_iff.mp (hlive o List.mem_cons_self)
    have hget : s.get? o = some out := hout
    let rest : UtxoSet := ⟨s.table.erase o⟩
    have hkeep : ∀ p ∈ os, rest.get? p = s.get? p := by
      intro p hp
      have hne : o ≠ p := fun heq => hnodup.1 (heq ▸ hp)
      exact (Table.get?_erase s.table o p).trans (if_neg hne)
    have hrest := ih (s := rest) hnodup.2 fun p hp => by
      show (rest.get? p).isSome = true
      rw [hkeep p hp]
      exact hlive p (List.mem_cons_of_mem _ hp)
    have hvalues : os.map rest.valueAt = os.map s.valueAt :=
      List.map_congr_left fun p hp => by rw [valueAt, hkeep p hp, valueAt]
    have herase : rest.totalValue + out.value.toNat = s.totalValue := by
      rw [totalValue_eq_weight, totalValue_eq_weight]
      exact Table.weight_erase (fun out : TxOutput => out.value.toNat) hout
    have hstep : s.without (o :: os) = rest.without os := rfl
    rw [hstep, List.map_cons, List.sum_cons, valueAt_of_get? hget]
    rw [hvalues] at hrest
    omega

/-- Putting outputs at distinct free places brings their value. -/
theorem totalValue_withCreated {s : UtxoSet} {created : List (Outpoint × TxOutput)}
    (hnodup : (created.map Prod.fst).Nodup)
    (hfree : ∀ o ∈ created.map Prod.fst, s.get? o = none) :
    (s.withCreated created).totalValue =
      s.totalValue + (created.map fun e => e.2.value.toNat).sum := by
  induction created generalizing s with
  | nil => rfl
  | cons e created ih =>
    simp only [List.map_cons, List.nodup_cons] at hnodup
    let next : UtxoSet := ⟨s.table.insert e.1 e.2⟩
    have hfree' : ∀ o ∈ created.map Prod.fst, next.get? o = none := by
      intro o ho
      have hne : e.1 ≠ o := fun heq => hnodup.1 (heq ▸ ho)
      show (s.table.insert e.1 e.2).get? o = none
      rw [Table.get?_insert, if_neg hne]
      exact hfree o (List.mem_cons_of_mem _ ho)
    have hinsert : next.totalValue = s.totalValue + e.2.value.toNat := by
      rw [totalValue_eq_weight, totalValue_eq_weight]
      exact Table.weight_insert _ _ (hfree e.1 List.mem_cons_self)
    have hstep : s.withCreated (e :: created) = next.withCreated created := rfl
    rw [hstep, ih hnodup.2 hfree', hinsert, List.map_cons, List.sum_cons]
    omega

/-- Applying a block moves the value of the set by what the block spends and creates. -/
theorem totalValue_apply {s s' : UtxoSet} {b : Block} (h : s.apply b = .ok s') :
    s'.totalValue + (b.spent.map s.valueAt).sum =
      s.totalValue + (b.created.map fun e => e.2.value.toNat).sum := by
  obtain ⟨htakes, rfl⟩ := apply_eq_ok_iff.mp h
  have hout := totalValue_without (s := s) (List.nodup_reverse.mpr htakes.spentOnce)
    fun o ho => htakes.live o (List.mem_reverse.mp ho)
  have hin := totalValue_withCreated (s := s.without b.spent.reverse) htakes.createdOnce
    fun o ho => htakes.get?_without ho
  rw [List.map_reverse, List.sum_reverse] at hout
  omega

end UtxoSet

end PowLedger
