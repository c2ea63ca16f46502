import Mathlib.Algebra.GroupWithZero.Nat
import Mathlib.Data.Nat.Find
import Mathlib.Tactic.Common
import Mathlib.Tactic.Lemma
import PowLedger.Work

/-!
# What a sweep over the nonces tells

A sweep ends in one of three ways, and which one it is depends on what comes first: a nonce with
work, a look at which the sweep is seen to be called off, or the limit. `SweepOutcome.Tells` says of
each end what is then known of the nonces. Exactly one outcome tells the truth, and it is that of
the sweep (`sweep_eq_ok_iff`).

The loop itself runs over words. `SweepLoop` states it turn by turn: the limit is looked for before
the nonce is raised, and a turn that would raise it past the last word comes to nothing. The sweep
is what this loop comes to (`sweepLoop_iff`), so the loop ends whatever the limit is.
-/

namespace PowLedger

/-- The header with another nonce. -/
def Header.withNonce (h : Header) (nonce : UInt64) : Header :=
  { h with nonce := nonce }

section

variable (digest : Hasher) (h : Header) (maxNonce : UInt64) (calledOff : Nat → Bool)

/-- What the outcome of a sweep says of the nonces of the header up to the limit. -/
def SweepOutcome.Tells : SweepOutcome → Prop
  | .solved nonce hash =>
    nonce ≤ maxNonce ∧ (h.withNonce nonce).hasWork digest = true ∧
      (∀ k < nonce, (h.withNonce k).hasWork digest = false) ∧
      (∀ turn ≤ nonce.toNat, calledOff turn = false) ∧ hash = digest (h.withNonce nonce).assemble
  | .exhausted =>
    (∀ k ≤ maxNonce, (h.withNonce k).hasWork digest = false) ∧
      ∀ turn ≤ maxNonce.toNat, calledOff turn = false
  | .cancelled =>
    ∃ turn ≤ maxNonce.toNat, calledOff turn = true ∧
      ∀ k : UInt64, k.toNat < turn → (h.withNonce k).hasWork digest = false

/-- What the loop comes to from one of its turns on, with the nonce that it is at. Each turn looks
whether the loop has been called off, tries the nonce, stops at the limit, and raises the nonce,
which must not be the last word then. -/
inductive SweepLoop (bound : Nat) : (turn : Nat) → (nonce : UInt64) → SweepOutcome → Prop
  | cancelled {turn : Nat} {nonce : UInt64} : calledOff turn = true →
    SweepLoop bound turn nonce .cancelled
  | solved {turn : Nat} {nonce : UInt64} : calledOff turn = false →
    meets (digest (h.assembleWith nonce)) bound = true →
    SweepLoop bound turn nonce (.solved nonce (digest (h.assembleWith nonce)))
  | exhausted {turn : Nat} {nonce : UInt64} : calledOff turn = false →
    meets (digest (h.assembleWith nonce)) bound = false → nonce = maxNonce →
    SweepLoop bound turn nonce .exhausted
  | next {turn : Nat} {nonce : UInt64} {outcome : SweepOutcome} : calledOff turn = false →
    meets (digest (h.assembleWith nonce)) bound = false → nonce ≠ maxNonce →
    nonce.toNat + 1 < 2 ^ 64 → SweepLoop bound (turn + 1) (nonce + 1) outcome →
    SweepLoop bound turn nonce outcome

end

variable {digest : Hasher} {h : Header} {maxNonce : UInt64} {calledOff : Nat → Bool}

/-! ### Thresholds -/

/-- A target of at most 256 bits has a threshold. -/
lemma threshold_of_le {target : UInt32} (ht : target.toNat ≤ 256) :
    threshold target = .ok (2 ^ (256 - target.toNat)) := by
  unfold threshold maxTargetBits
  rw [if_neg (Nat.not_lt.mpr ht), Nat.one_shiftLeft]

/-- A target of more bits has none. -/
lemma threshold_of_lt {target : UInt32} (ht : 256 < target.toNat) :
    threshold target = .error (.mining (.targetTooHigh target.toNat 256)) :=
  if_pos ht

/-- A header with another nonce is assembled by putting the nonce behind what stays. -/
lemma assemble_withNonce (h : Header) (nonce : UInt64) :
    (h.withNonce nonce).assemble = h.assembleFront ++ bigEndian 8 nonce.toNat := rfl

/-- Whether a header has work with another nonce is seen on the assembled bytes. -/
lemma hasWork_withNonce (ht : h.target.toNat ≤ 256) (nonce : UInt64) :
    (h.withNonce nonce).hasWork digest =
      meets (digest (h.assembleFront ++ bigEndian 8 nonce.toNat)) (2 ^ (256 - h.target.toNat)) := by
  have hbound : threshold (h.withNonce nonce).target = .ok (2 ^ (256 - h.target.toNat)) :=
    threshold_of_le ht
  rw [Header.hasWork, hbound, assemble_withNonce]

/-! ### One outcome tells the truth -/

/-- A sweep passes by nonces without work at which it is not called off. -/
lemma sweepFrom_add (front : Bytes) {bound nonce : Nat} (passed tries : Nat)
    (hoff : ∀ k < nonce + passed, nonce ≤ k → calledOff k = false)
    (hmeets : ∀ k < nonce + passed, nonce ≤ k →
      meets (digest (front ++ bigEndian 8 k)) bound = false) :
    sweepFrom digest front bound calledOff nonce (passed + tries) =
      sweepFrom digest front bound calledOff (nonce + passed) tries := by
  induction passed generalizing nonce with
  | zero => rw [Nat.zero_add, Nat.add_zero]
  | succ passed ih =>
    have hrest := @ih (nonce + 1) (fun k hk hle => hoff k (by omega) (by omega))
      fun k hk hle => hmeets k (by omega) (by omega)
    rw [Nat.succ_add, sweepFrom, hoff nonce (by omega) (Nat.le_refl _)]
    simp only [Bool.false_eq_true, if_false, hmeets nonce (by omega) (Nat.le_refl _), hrest]
    rw [Nat.add_right_comm, Nat.add_assoc]

/-- The sweep over a header is the one from nonce 0 on. -/
lemma sweep_of_le (ht : h.target.toNat ≤ 256) : sweep digest h maxNonce calledOff =
    .ok (sweepFrom digest h.assembleFront (2 ^ (256 - h.target.toNat)) calledOff 0
      (maxNonce.toNat + 1)) := by
  rw [sweep, threshold_of_le ht]

/-- Up to the limit a sweep passes by turns at which it is not called off and nonces without
work. -/
lemma sweep_eq_sweepFrom (ht : h.target.toNat ≤ 256) {turn : Nat}
    (hturn : turn ≤ maxNonce.toNat + 1)
    (hoff : ∀ k < turn, calledOff k = false)
    (hwork : ∀ k : UInt64, k.toNat < turn → (h.withNonce k).hasWork digest = false) :
    sweep digest h maxNonce calledOff =
      .ok (sweepFrom digest h.assembleFront (2 ^ (256 - h.target.toNat)) calledOff turn
        (maxNonce.toNat + 1 - turn)) := by
  have hmax : maxNonce.toNat < UInt64.size := maxNonce.toNat_lt
  have hmeets : ∀ k < 0 + turn, 0 ≤ k →
      meets (digest (h.assembleFront ++ bigEndian 8 k)) (2 ^ (256 - h.target.toNat)) = false := by
    intro k hk _
    have hword : (UInt64.ofNat k).toNat = k := UInt64.toNat_ofNat_of_lt' (by omega)
    have hnone := hwork (UInt64.ofNat k) (by omega)
    rwa [hasWork_withNonce ht, hword] at hnone
  have hpass := sweepFrom_add h.assembleFront turn (maxNonce.toNat + 1 - turn)
    (fun k hk _ => hoff k (by omega)) hmeets
  rw [Nat.add_sub_cancel' hturn, Nat.zero_add] at hpass
  rw [sweep_of_le ht, hpass]

/-- An outcome that tells the truth is that of the sweep. -/
lemma sweep_eq_of_tells (ht : h.target.toNat ≤ 256) {outcome : SweepOutcome}
    (htells : outcome.Tells digest h maxNonce calledOff) :
    sweep digest h maxNonce calledOff = .ok outcome := by
  cases outcome with
  | solved nonce hash =>
    obtain ⟨hle, hwork, hleast, hoff, rfl⟩ := htells
    have hle' : nonce.toNat ≤ maxNonce.toNat := UInt64.le_iff_toNat_le.mp hle
    have hmeets := hwork
    rw [hasWork_withNonce ht] at hmeets
    rw [sweep_eq_sweepFrom ht (Nat.le_succ_of_le hle') (fun k hk => hoff k (Nat.le_of_lt hk))
      fun k hk => hleast k (UInt64.lt_iff_toNat_lt.mpr hk), Nat.succ_sub hle', sweepFrom,
      hoff nonce.toNat (Nat.le_refl _)]
    simp [hmeets, assemble_withNonce]
  | exhausted =>
    obtain ⟨hwork, hoff⟩ := htells
    rw [sweep_eq_sweepFrom ht (Nat.le_refl _) (fun k hk => hoff k (Nat.le_of_lt_succ hk))
      fun k hk => hwork k (UInt64.le_iff_toNat_le.mpr (Nat.le_of_lt_succ hk)), Nat.sub_self,
      sweepFrom]
  | cancelled =>
    obtain ⟨turn, hle, hturn, hwork⟩ := htells
    -- The sweep is seen to be called off at the first such turn.
    have hexists : ∃ k, calledOff k = true := ⟨turn, hturn⟩
    have hfirst : Nat.find hexists ≤ turn := Nat.find_min' hexists hturn
    have hbefore : ∀ k < Nat.find hexists, calledOff k = false :=
      fun k hk => Bool.not_eq_true _ ▸ Nat.find_min hexists hk
    rw [sweep_eq_sweepFrom ht (by omega) hbefore fun k hk => hwork k (by omega),
      Nat.succ_sub (Nat.le_trans hfirst hle), sweepFrom, Nat.find_spec hexists]
    rfl

/-- Some outcome tells the truth. -/
lemma exists_tells (digest : Hasher) (h : Header) (maxNonce : UInt64) (calledOff : Nat → Bool) :
    ∃ outcome : SweepOutcome, outcome.Tells digest h maxNonce calledOff := by
  have hmax : maxNonce.toNat < UInt64.size := maxNonce.toNat_lt
  by_cases hloud : ∃ k, k ≤ maxNonce.toNat ∧
      (calledOff k = true ∨ (h.withNonce (UInt64.ofNat k)).hasWork digest = true)
  · classical
    obtain ⟨hle, hstop⟩ := Nat.find_spec hloud
    have hquiet : ∀ k < Nat.find hloud, calledOff k = false ∧
        (h.withNonce (UInt64.ofNat k)).hasWork digest = false := by
      intro k hk
      have hnot := Nat.find_min hloud hk
      simpa [Nat.le_trans (Nat.le_of_lt hk) hle, not_or] using hnot
    have hbefore : ∀ k : UInt64, k.toNat < Nat.find hloud →
        (h.withNonce k).hasWork digest = false := by
      intro k hk
      have hnone := (hquiet k.toNat hk).2
      rwa [UInt64.ofNat_toNat] at hnone
    generalize Nat.find hloud = first at *
    have hword : (UInt64.ofNat first).toNat = first := UInt64.toNat_ofNat_of_lt' (by omega)
    cases hoff : calledOff first with
    | true => exact ⟨.cancelled, first, hle, hoff, hbefore⟩
    | false =>
      have hwork := hstop.resolve_left (by simp [hoff])
      refine ⟨.solved (UInt64.ofNat first) _, ?_, hwork, ?_, ?_, rfl⟩
      · rwa [UInt64.le_iff_toNat_le, hword]
      · intro k hk
        rw [UInt64.lt_iff_toNat_lt, hword] at hk
        exact hbefore k hk
      · intro turn hturn
        rw [hword] at hturn
        rcases Nat.lt_or_eq_of_le hturn with hlt | rfl
        · exact (hquiet turn hlt).1
        · exact hoff
  · refine ⟨.exhausted, fun k hk => ?_, fun turn hturn => ?_⟩
    · by_contra hwork
      refine hloud ⟨k.toNat, UInt64.le_iff_toNat_le.mp hk, Or.inr ?_⟩
      rw [UInt64.ofNat_toNat]
      exact Bool.not_eq_false _ ▸ hwork
    · by_contra hoff
      exact hloud ⟨turn, hturn, Or.inl (Bool.not_eq_false _ ▸ hoff)⟩

/-- The outcome of a sweep is the one that tells the truth. -/
lemma sweep_eq_ok_iff (ht : h.target.toNat ≤ 256) {outcome : SweepOutcome} :
    sweep digest h maxNonce calledOff = .ok outcome ↔
      outcome.Tells digest h maxNonce calledOff := by
  refine ⟨fun hsweep => ?_, sweep_eq_of_tells ht⟩
  obtain ⟨truth, htells⟩ := exists_tells digest h maxNonce calledOff
  have hsame := (sweep_eq_of_tells ht htells).symm.trans hsweep
  cases hsame
  exact htells

/-! ### The loop over words -/

/-- From any turn on, the loop comes to one outcome at most. -/
lemma SweepLoop.unique {bound turn : Nat} {nonce : UInt64} {outcome other : SweepOutcome}
    (hloop : SweepLoop digest h maxNonce calledOff bound turn nonce outcome)
    (hother : SweepLoop digest h maxNonce calledOff bound turn nonce other) : outcome = other := by
  induction hloop with
  | cancelled hoff => cases hother <;> simp_all
  | solved hoff hmeets => cases hother <;> simp_all
  | exhausted hoff hmeets hlimit => cases hother <;> simp_all
  | next hoff hmeets hlimit hword _ ih =>
    cases hother with
    | cancelled hoff' => simp [hoff] at hoff'
    | solved hoff' hmeets' => simp [hmeets] at hmeets'
    | exhausted hoff' hmeets' hlimit' => exact absurd hlimit' hlimit
    | next hoff' hmeets' hlimit' hword' hrest => exact ih hrest

/-- A turn of the loop, given what it comes to from the next turn on, if there is one. -/
lemma SweepLoop.turn {bound turn : Nat} {nonce : UInt64} {rest : SweepOutcome}
    (hrest : nonce ≠ maxNonce → nonce.toNat + 1 < 2 ^ 64 ∧
      SweepLoop digest h maxNonce calledOff bound (turn + 1) (nonce + 1) rest) :
    SweepLoop digest h maxNonce calledOff bound turn nonce
      (if calledOff turn then .cancelled
      else if meets (digest (h.assembleWith nonce)) bound then
        .solved nonce (digest (h.assembleWith nonce))
      else if nonce = maxNonce then .exhausted
      else rest) := by
  cases hoff : calledOff turn with
  | true => exact .cancelled hoff
  | false =>
    cases hmeets : meets (digest (h.assembleWith nonce)) bound with
    | true => exact .solved hoff hmeets
    | false =>
      by_cases hlimit : nonce = maxNonce
      · simp only [Bool.false_eq_true, if_false, if_pos hlimit]
        exact .exhausted hoff hmeets hlimit
      · simp only [Bool.false_eq_true, if_false, if_neg hlimit]
        exact .next hoff hmeets hlimit (hrest hlimit).1 (hrest hlimit).2

/-- The loop comes to what the sweep comes to, from any nonce up to the limit. -/
lemma sweepLoop_sweepFrom {bound tries : Nat} (nonce : UInt64)
    (hlimit : nonce.toNat + tries = maxNonce.toNat) :
    SweepLoop digest h maxNonce calledOff bound nonce.toNat nonce
      (sweepFrom digest h.assembleFront bound calledOff nonce.toNat (tries + 1)) := by
  have hmax : maxNonce.toNat < 2 ^ 64 := maxNonce.toNat_lt
  induction tries generalizing nonce with
  | zero =>
    have hlast : nonce = maxNonce := UInt64.toNat_inj.mp hlimit
    rw [sweepFrom, UInt64.ofNat_toNat, sweepFrom]
    have hnone : nonce ≠ maxNonce → nonce.toNat + 1 < 2 ^ 64 ∧
        SweepLoop digest h maxNonce calledOff bound (nonce.toNat + 1) (nonce + 1) .exhausted :=
      fun hne => absurd hlast hne
    have hturn := SweepLoop.turn hnone
    rw [if_pos hlast] at hturn
    exact hturn
  | succ tries ih =>
    have hbelow : nonce ≠ maxNonce := fun heq => by
      rw [heq] at hlimit
      omega
    have hnext : nonce.toNat + 1 < 2 ^ 64 := by omega
    have hword : (nonce + 1).toNat = nonce.toNat + 1 := by
      rw [UInt64.toNat_add]
      exact Nat.mod_eq_of_lt hnext
    have hrest := ih (nonce + 1) (by omega)
    rw [hword] at hrest
    have hturn := SweepLoop.turn fun _ => ⟨hnext, hrest⟩
    rw [if_neg hbelow] at hturn
    rw [sweepFrom, UInt64.ofNat_toNat]
    exact hturn

/-- The loop over words from the first nonce on comes to the outcome of the sweep and to nothing
else. -/
lemma sweepLoop_iff (ht : h.target.toNat ≤ 256) {outcome : SweepOutcome} :
    SweepLoop digest h maxNonce calledOff (2 ^ (256 - h.target.toNat)) 0 0 outcome ↔
      sweep digest h maxNonce calledOff = .ok outcome := by
  have hloop : SweepLoop digest h maxNonce calledOff (2 ^ (256 - h.target.toNat)) 0 0
      (sweepFrom digest h.assembleFront (2 ^ (256 - h.target.toNat)) calledOff 0
        (maxNonce.toNat + 1)) :=
    sweepLoop_sweepFrom 0 (Nat.zero_add _)
  rw [sweep_of_le ht, Except.ok.injEq]
  exact ⟨fun hother => hloop.unique hother, fun hsame => hsame ▸ hloop⟩

/-! ### All together -/

/-- The search for a nonce, exactly. Below a target of at most 256 bits the loop over words ends
whatever the limit is, and what it ends with is the outcome of the sweep. A nonce is found just when
it is the least one up to the limit with which the header has work and the sweep has not been seen
to be called off by then; the hash is the digest of that header. The sweep is exhausted just when no
nonce up to the limit does it and the sweep is never called off; and it is cancelled just when it is
seen to be called off at a turn before which no nonce did it. With a target of more bits the sweep
fails and no nonce does it. -/
theorem sweep_exact (digest : Hasher) (h : Header) (maxNonce : UInt64) (calledOff : Nat → Bool) :
    (h.target.toNat ≤ 256 →
      (∃ outcome, sweep digest h maxNonce calledOff = .ok outcome) ∧
      (∀ outcome, sweep digest h maxNonce calledOff = .ok outcome ↔
        SweepLoop digest h maxNonce calledOff (2 ^ (256 - h.target.toNat)) 0 0 outcome) ∧
      (∀ nonce hash, sweep digest h maxNonce calledOff = .ok (.solved nonce hash) ↔
        nonce ≤ maxNonce ∧ (h.withNonce nonce).hasWork digest = true ∧
          (∀ k < nonce, (h.withNonce k).hasWork digest = false) ∧
          (∀ turn ≤ nonce.toNat, calledOff turn = false) ∧
          hash = digest (h.withNonce nonce).assemble) ∧
      (sweep digest h maxNonce calledOff = .ok .exhausted ↔
        (∀ k ≤ maxNonce, (h.withNonce k).hasWork digest = false) ∧
          ∀ turn ≤ maxNonce.toNat, calledOff turn = false) ∧
      (sweep digest h maxNonce calledOff = .ok .cancelled ↔
        ∃ turn ≤ maxNonce.toNat, calledOff turn = true ∧
          ∀ k : UInt64, k.toNat < turn → (h.withNonce k).hasWork digest = false)) ∧
    (256 < h.target.toNat →
      sweep digest h maxNonce calledOff =
        .error (.mining (.targetTooHigh h.target.toNat 256)) ∧
      ∀ nonce, (h.withNonce nonce).hasWork digest = false) := by
  constructor
  · intro ht
    exact ⟨⟨_, sweep_of_le ht⟩, fun outcome => (sweepLoop_iff ht).symm,
      fun nonce hash => sweep_eq_ok_iff ht, sweep_eq_ok_iff ht, sweep_eq_ok_iff ht⟩
  · intro ht
    have hnone := threshold_of_lt ht
    refine ⟨by rw [sweep, hnone], fun nonce => ?_⟩
    have hsame : threshold (h.withNonce nonce).target =
        .error (.mining (.targetTooHigh h.target.toNat 256)) := hnone
    rw [Header.hasWork, hsame]

namespace Sample

/-- A header that has work with the nonce 1 and not with 0. -/
def sought : Header := ⟨1, "00ff", List.replicate 32 1, 3, 1700000000004, 4, 0⟩

lemma hasWork_sought : (sought.withNonce 0).hasWork sha256 = false ∧
    (sought.withNonce 1).hasWork sha256 = true := by
  decide +kernel

end Sample

open Sample in
/-- With SHA-256 the nonce 1 is found although the sweep is called off right after it. A sweep that
stops at 0 is exhausted, and one that is called off before it gets to 1 is cancelled. With a target
of 257 bits there is nothing to find. -/
theorem sweep_exact_of_sought :
    sought.target.toNat ≤ 256 ∧
      sweep sha256 sought 20 (fun turn => 2 ≤ turn) =
        .ok (.solved 1 (sha256 (sought.withNonce 1).assemble)) ∧
      sweep sha256 sought 0 (fun _ => false) = .ok .exhausted ∧
      sweep sha256 sought 20 (fun turn => 1 ≤ turn) = .ok .cancelled ∧
      256 < { sought with target := 257 }.target.toNat ∧
      sweep sha256 { sought with target := 257 } 20 (fun _ => false) =
        .error (.mining (.targetTooHigh 257 256)) := by
  have hbits : sought.target.toNat ≤ 256 := by decide
  have hhigh : 256 < { sought with target := 257 }.target.toNat := by decide
  obtain ⟨hzero, hone⟩ := hasWork_sought
  have hbelow : ∀ k : UInt64, k.toNat < 1 → (sought.withNonce k).hasWork sha256 = false := by
    intro k hk
    obtain rfl : k = 0 := UInt64.toNat_inj.mp (Nat.lt_one_iff.mp hk)
    exact hzero
  obtain ⟨-, -, hsolved, -, -⟩ := (sweep_exact sha256 sought 20 fun turn => 2 ≤ turn).1 hbits
  obtain ⟨-, -, -, hexhausted, -⟩ := (sweep_exact sha256 sought 0 fun _ => false).1 hbits
  obtain ⟨-, -, -, -, hcancelled⟩ := (sweep_exact sha256 sought 20 fun turn => 1 ≤ turn).1 hbits
  refine ⟨hbits, (hsolved 1 _).mpr ⟨by decide, hone, fun k hk => ?_, fun turn hturn => ?_, rfl⟩,
    hexhausted.mpr ⟨fun k hk => ?_, fun _ _ => rfl⟩,
    hcancelled.mpr ⟨1, by decide, rfl, hbelow⟩, hhigh,
    ((sweep_exact sha256 { sought with target := 257 } 20 fun _ => false).2 hhigh).1⟩
  · exact hbelow k (UInt64.lt_iff_toNat_lt.mp hk)
  · have hle : turn ≤ 1 := hturn
    exact decide_eq_false (by omega)
  · exact hbelow k (Nat.lt_succ_of_le (UInt64.le_iff_toNat_le.mp hk))

end PowLedger
