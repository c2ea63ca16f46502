import Mathlib.Data.List.Basic
import Mathlib.Data.List.Perm.Basic
import Mathlib.Tactic.Common
import Mathlib.Tactic.Lemma
import PowLedger.Proofs.Pool.Index

/-!
# The ranks of a pool

A pool puts every new entry behind all that pay at least as much. What comes of it is a line sorted
by falling fee in which equal fees keep the order of the line. This is carried along as `Ranked`:
the fees fall, and the entries of each fee stand as in the line. Both survive a new entry at the end
of the line (`Ranked.rank`) and the loss of entries (`Ranked.filter`), and they leave no choice
(`Ranked.unique`), so the outcome is the sorted line (`Ranked.eq_mergeSort`).
-/

namespace PowLedger

namespace PoolEntry

/-- The transaction and its fee, without the number of the arrival. -/
def offer (e : PoolEntry) : Transaction × Amount :=
  (e.transaction, e.fee)

/-- The entry pays more, or as much and came first. -/
def Outranks (e f : PoolEntry) : Prop :=
  f.fee < e.fee ∨ e.fee = f.fee ∧ e.arrival < f.arrival

instance (e f : PoolEntry) : Decidable (e.Outranks f) :=
  inferInstanceAs (Decidable (f.fee < e.fee ∨ e.fee = f.fee ∧ e.arrival < f.arrival))

end PoolEntry

namespace Pool

/-- A new entry is put where the fees keep falling. -/
lemma rank_falling {es : List PoolEntry} (h : es.Pairwise fun a b => b.fee ≤ a.fee)
    (e : PoolEntry) : (rank e es).Pairwise fun a b => b.fee ≤ a.fee := by
  induction es with
  | nil => exact List.pairwise_singleton _ _
  | cons x es ih =>
    obtain ⟨hx, hes⟩ := List.pairwise_cons.mp h
    rw [rank]
    split
    · next hlt =>
      refine List.pairwise_cons.mpr ⟨fun y hy => ?_, h⟩
      rcases List.mem_cons.mp hy with rfl | hy
      · exact UInt64.le_of_lt hlt
      · exact UInt64.le_trans (hx y hy) (UInt64.le_of_lt hlt)
    · next hge =>
      refine List.pairwise_cons.mpr ⟨fun y hy => ?_, ih hes⟩
      rcases List.mem_cons.mp ((rank_perm e es).mem_iff.mp hy) with rfl | hy
      · exact UInt64.not_lt.mp hge
      · exact hx y hy

/-- Among the entries of one fee a new entry stands last. -/
lemma filter_rank {es : List PoolEntry} (h : es.Pairwise fun a b => b.fee ≤ a.fee)
    (e : PoolEntry) (fee : Amount) : (rank e es).filter (·.fee = fee) =
      es.filter (·.fee = fee) ++ [e].filter (·.fee = fee) := by
  induction es with
  | nil => rfl
  | cons x es ih =>
    obtain ⟨hx, hes⟩ := List.pairwise_cons.mp h
    rw [rank]
    split
    · next hlt =>
      by_cases hfee : e.fee = fee
      · -- All that stand behind pay less.
        have hnone : (x :: es).filter (·.fee = fee) = [] := by
          refine List.filter_eq_nil_iff.mpr fun y hy heq => ?_
          have hle : y.fee ≤ x.fee := by
            rcases List.mem_cons.mp hy with rfl | hy
            · exact UInt64.le_refl _
            · exact hx y hy
          rw [of_decide_eq_true heq, ← hfee] at hle
          exact UInt64.lt_irrefl _ (UInt64.lt_of_le_of_lt hle hlt)
        rw [List.filter_cons_of_pos (by simpa using hfee), hnone]
        simp [hfee]
      · simp [hfee]
    · rw [List.filter_cons, List.filter_cons, ih hes]
      split <;> rfl

end Pool

/-- The entries are those of a line by falling fee, and those of one fee stand as in the line. -/
structure Ranked (line es : List PoolEntry) : Prop where
  falling : es.Pairwise fun a b => b.fee ≤ a.fee
  stable : ∀ fee, es.filter (·.fee = fee) = line.filter (·.fee = fee)

namespace Ranked

variable {line es es' : List PoolEntry}

/-- Ranking brings and loses no entry. -/
lemma mem_iff (h : Ranked line es) {e : PoolEntry} : e ∈ es ↔ e ∈ line := by
  have hsame : e ∈ es.filter (·.fee = e.fee) ↔ e ∈ line.filter (·.fee = e.fee) := by
    rw [h.stable]
  simpa using hsame

/-- A part of the line is ranked like that part of the entries. -/
lemma filter (h : Ranked line es) (keep : PoolEntry → Bool) :
    Ranked (line.filter keep) (es.filter keep) where
  falling := h.falling.sublist List.filter_sublist
  stable fee := by
    rw [List.filter_comm, h.stable, List.filter_comm]

/-- An entry ranked behind all that pay as much stands behind them in the line. -/
lemma rank (h : Ranked line es) (e : PoolEntry) : Ranked (line ++ [e]) (Pool.rank e es) where
  falling := Pool.rank_falling h.falling e
  stable fee := by rw [Pool.filter_rank h.falling, h.stable, List.filter_append]

/-- There is one ranking of a line. -/
lemma unique (h : Ranked line es) (h' : Ranked line es') : es = es' := by
  have hsame : ∀ fee, es.filter (·.fee = fee) = es'.filter (·.fee = fee) := fun fee =>
    (h.stable fee).trans (h'.stable fee).symm
  have hfalling := h.falling
  have hfalling' := h'.falling
  clear h h'
  induction es generalizing es' with
  | nil =>
    cases es' with
    | nil => rfl
    | cons f es' => simpa using hsame f.fee
  | cons e es ih =>
    cases es' with
    | nil => simpa using hsame e.fee
    | cons f es' =>
      obtain ⟨he, hes⟩ := List.pairwise_cons.mp hfalling
      obtain ⟨hf, hes'⟩ := List.pairwise_cons.mp hfalling'
      -- Each head is among the entries of the other list, so both pay the same.
      have hfee : e.fee = f.fee := by
        refine UInt64.le_antisymm ?_ ?_
        · have hmem : e ∈ (f :: es').filter (·.fee = e.fee) := by
            rw [← hsame]
            simp
          rcases List.mem_cons.mp (List.mem_of_mem_filter hmem) with heq | hmem
          · rw [heq]
            exact UInt64.le_refl _
          · exact hf e hmem
        · have hmem : f ∈ (e :: es).filter (·.fee = f.fee) := by
            rw [hsame]
            simp
          rcases List.mem_cons.mp (List.mem_of_mem_filter hmem) with heq | hmem
          · rw [heq]
            exact UInt64.le_refl _
          · exact he f hmem
      have hheads : e = f := by
        have hclass := hsame e.fee
        rw [List.filter_cons_of_pos (by simp), List.filter_cons_of_pos (by simpa using hfee.symm)]
          at hclass
        exact List.head_eq_of_cons_eq hclass
      subst hheads
      refine congrArg (e :: ·) (ih (fun fee => ?_) hes hes')
      have hclass := hsame fee
      rw [List.filter_cons, List.filter_cons] at hclass
      split at hclass
      · exact List.tail_eq_of_cons_eq hclass
      · exact hclass

/-- Sorting ranks. -/
lemma mergeSort (line : List PoolEntry) :
    Ranked line (line.mergeSort fun a b => b.fee ≤ a.fee) := by
  have htrans : ∀ a b c : PoolEntry, decide (b.fee ≤ a.fee) = true →
      decide (c.fee ≤ b.fee) = true → decide (c.fee ≤ a.fee) = true := by
    simp only [decide_eq_true_eq]
    exact fun a b c hab hbc => UInt64.le_trans hbc hab
  have htotal : ∀ a b : PoolEntry,
      (decide (b.fee ≤ a.fee) || decide (a.fee ≤ b.fee)) = true := by
    simp only [Bool.or_eq_true, decide_eq_true_eq]
    exact fun a b => UInt64.le_total b.fee a.fee
  refine ⟨?_, fun fee => ?_⟩
  · exact (List.pairwise_mergeSort htrans htotal line).imp of_decide_eq_true
  · -- The entries of one fee are sorted in the line already, so sorting keeps them as they are.
    have hclass : (line.filter (·.fee = fee)).Pairwise
        fun a b => decide (b.fee ≤ a.fee) = true := by
      refine List.pairwise_of_forall_mem_list fun a ha b hb => ?_
      have hfee : a.fee = fee := of_decide_eq_true (List.mem_filter.mp ha).2
      have hfee' : b.fee = fee := of_decide_eq_true (List.mem_filter.mp hb).2
      simp [hfee, hfee']
    have hsub := (List.sublist_mergeSort htrans htotal hclass List.filter_sublist).filter
      (·.fee = fee)
    rw [List.filter_filter] at hsub
    simp only [Bool.and_self] at hsub
    refine (hsub.eq_of_length ?_).symm
    exact ((List.mergeSort_perm line _).filter _).length_eq.symm

/-- What is ranked is sorted. -/
lemma eq_mergeSort (h : Ranked line es) : es = line.mergeSort fun a b => b.fee ≤ a.fee :=
  h.unique (.mergeSort line)

/-- The ranks of a line of successive arrivals fall strictly. -/
lemma outranks (h : Ranked line es) (hline : line.Pairwise (·.arrival < ·.arrival)) :
    es.Pairwise PoolEntry.Outranks := by
  rw [List.pairwise_iff_forall_sublist]
  intro a b hsub
  have hle : b.fee ≤ a.fee := List.pairwise_iff_forall_sublist.mp h.falling hsub
  by_cases hfee : a.fee = b.fee
  · have hclass := hsub.filter (·.fee = b.fee)
    rw [h.stable, List.filter_cons_of_pos (by simpa using hfee),
      List.filter_cons_of_pos (by simp), List.filter_nil] at hclass
    have hearlier := List.pairwise_iff_forall_sublist.mp hline (hclass.trans List.filter_sublist)
    exact Or.inr ⟨hfee, hearlier⟩
  · exact Or.inl (UInt64.lt_of_le_of_ne hle (Ne.symm hfee))

/-- Different fees rank offers in one order, in whichever order they stand in line. -/
lemma offers_eq {line' : List PoolEntry} (h : Ranked line es) (h' : Ranked line' es')
    (hperm : (line.map PoolEntry.offer).Perm (line'.map PoolEntry.offer))
    (hfees : (line'.map PoolEntry.fee).Nodup) :
    es.map PoolEntry.offer = es'.map PoolEntry.offer := by
  have hperms : (es.map PoolEntry.offer).Perm (es'.map PoolEntry.offer) := by
    rw [h.eq_mergeSort, h'.eq_mergeSort]
    exact ((List.mergeSort_perm line _).map _).trans
      (hperm.trans ((List.mergeSort_perm line' _).map _).symm)
  have hoffers : ((line'.map PoolEntry.offer).map Prod.snd).Nodup := by
    rwa [List.map_map]
  have hfalling : (es.map PoolEntry.offer).Pairwise fun a b => b.2 ≤ a.2 :=
    List.pairwise_map.mpr h.falling
  have hfalling' : (es'.map PoolEntry.offer).Pairwise fun a b => b.2 ≤ a.2 :=
    List.pairwise_map.mpr h'.falling
  refine List.Perm.eq_of_pairwise ?_ hfalling hfalling' hperms
  intro a b ha hb hba hab
  have hline : ∀ c, c ∈ es'.map PoolEntry.offer → c ∈ line'.map PoolEntry.offer := by
    intro c hc
    obtain ⟨e, he, rfl⟩ := List.mem_map.mp hc
    exact List.mem_map_of_mem (h'.mem_iff.mp he)
  exact List.inj_on_of_nodup_map hoffers (hline a (hperms.mem_iff.mp ha)) (hline b hb)
    (UInt64.le_antisymm hab hba)

end Ranked

end PowLedger
