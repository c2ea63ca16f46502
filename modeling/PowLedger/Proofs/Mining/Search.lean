import Mathlib.Tactic.Common
import Mathlib.Tactic.Lemma
import PowLedger.Mining.Attempt
import PowLedger.Proofs.Mining.Sweep

/-!
# What the search finds

A search is one sweep after the other, each with a later time. A sweep that is solved names a nonce
with which the header has work. So a search that ends with a solved header has changed its time and
its nonce only, and that header has work (`Mining.search_eq_solved`).
-/

namespace PowLedger

/-- A header with a nonce that solved a sweep over it has work. -/
lemma hasWork_of_sweep {digest : Hasher} {h : Header} {maxNonce : UInt64}
    {calledOff : Nat → Bool} {w : UInt64} {found : Bytes}
    (hsweep : sweep digest h maxNonce calledOff = .ok (.solved w found)) :
    Header.hasWork digest { h with nonce := w } = true ∧ ∃ k, calledOff k = false := by
  have ht : h.target.toNat ≤ 256 := by
    by_contra hnot
    rw [sweep, threshold_of_lt (Nat.not_le.mp hnot)] at hsweep
    cases hsweep
  obtain ⟨-, hwork, -, hoff, -⟩ := (sweep_eq_ok_iff ht).mp hsweep
  exact ⟨hwork, 0, hoff 0 (Nat.zero_le _)⟩

namespace Mining

/-- A header that the search has solved is the candidate's with another time and another nonce, and
it has work. The search was not called off when it looked last. -/
theorem search_eq_solved {digest : Hasher} {maxNonce : UInt64} {calledOff : Nat → Nat → Bool}
    {clock : Nat → Int64} {number sweeps : Nat} {h solved : Header}
    (hsearch : search digest maxNonce calledOff clock number sweeps h = .ok (.solved solved)) :
    (∃ time nonce, solved = { h with timestamp := time, nonce := nonce }) ∧
      solved.hasWork digest = true ∧ ∃ i k, calledOff i k = false := by
  induction sweeps generalizing number h with
  | zero => cases hsearch
  | succ sweeps ih =>
    rw [search] at hsearch
    cases hsweep : sweep digest h maxNonce (calledOff number) with
    | error f => simp [hsweep] at hsearch
    | ok outcome =>
      cases outcome with
      | solved w found =>
        simp only [hsweep, Except.ok.injEq, Search.solved.injEq] at hsearch
        obtain ⟨hwork, k, hoff⟩ := hasWork_of_sweep hsweep
        subst hsearch
        exact ⟨⟨h.timestamp, w, rfl⟩, hwork, number, k, hoff⟩
      | cancelled => simp [hsweep] at hsearch
      | exhausted =>
        simp only [hsweep] at hsearch
        obtain ⟨⟨time, nonce, rfl⟩, hrest⟩ := ih hsearch
        exact ⟨⟨time, nonce, rfl⟩, hrest⟩

end Mining

end PowLedger
