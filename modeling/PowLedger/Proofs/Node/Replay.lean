import Mathlib.Data.List.Forall2
import Mathlib.Tactic.Common
import Mathlib.Tactic.Lemma
import PowLedger.Node.Reconstruction
import PowLedger.Proofs.Node.Run
import PowLedger.Proofs.Rules.Spend

/-!
# From headers to a chain

Once a rebuild has walked back over the headers, it checks that they stand at their places and
replays their bodies. Headers pass the check if their heights count up from zero
(`Node.checkPlaces_eq_ok_iff`). What a replay makes of them is said by the bodies that the store has
for them: these are applied one after the other, and a replay ends well exactly where a body is
missing or no header is left (`Node.replay_eq_ok_iff`). The node takes what is gathered like this,
`Node.gathered`.
-/

namespace PowLedger

namespace Node

variable {σ : Type} [Storage σ] {store : σ}

/-! ### Places -/

omit [Storage σ] in
/-- Headers stand at their places exactly if their heights count up from the first place. -/
lemma checkPlaces_eq_ok_iff {position : Nat} {chain : List (String × Header)} :
    checkPlaces position chain = .ok () ↔
      chain.map (fun e => e.2.height.toNat) = List.range' position chain.length := by
  induction chain generalizing position with
  | nil => simp [checkPlaces]
  | cons e chain ih =>
    obtain ⟨hash, h⟩ := e
    rw [checkPlaces, List.map_cons, List.length_cons, List.range'_succ]
    by_cases hplace : h.height.toNat = position
    · rw [if_pos hplace, ih, hplace, List.cons.injEq, and_iff_right rfl]
    · rw [if_neg hplace]
      simp [hplace]

omit [Storage σ] in
/-- A header that does not stand at its place is noticed. -/
lemma checkPlaces_of_misplaced {front back : List (String × Header)} {e : String × Header}
    (h : e.2.height.toNat ≠ front.length) : ∃ f, checkPlaces 0 (front ++ e :: back) = .error f := by
  cases hplaces : checkPlaces 0 (front ++ e :: back) with
  | error f => exact ⟨f, rfl⟩
  | ok _ =>
    have hheights := congrArg (·[front.length]?) (checkPlaces_eq_ok_iff.mp hplaces)
    simp at hheights
    exact absurd hheights h

/-! ### Replay -/

/-- The bodies of these headers are in the store. -/
def Bodies (store : σ) : List (String × Header) → List Block → Prop :=
  List.Forall₂ fun e b => Storage.block store e.1 = .ok b

/-- A replay goes through headers with bodies that can be applied. -/
lemma replay_append {s utxos : UtxoSet} {chain : List (String × Header)} {bodies : List Block}
    (hbodies : Bodies store chain bodies) (happlied : bodies.foldlM UtxoSet.apply s = .ok utxos)
    (rest : List (String × Header)) : replay store s (chain ++ rest) =
      ((replay store utxos rest).1, (replay store utxos rest).2.map (chain ++ ·)) := by
  induction hbodies generalizing s with
  | nil =>
    cases happlied
    rw [List.nil_append]
    rcases replay store utxos rest with ⟨v, f | more⟩ <;> rfl
  | @cons e b _ _ hbody _ ih =>
    obtain ⟨next, happly, hrest⟩ := bind_eq_ok_iff.mp happlied
    rw [List.cons_append, replay]
    simp only [hbody, happly, ih hrest]
    rcases replay store utxos rest with ⟨v, f | more⟩ <;> rfl

/-- A replay stops with the fault of the first body that cannot be applied. -/
lemma replay_of_unappliable {s : UtxoSet} {chain : List (String × Header)} {bodies : List Block}
    {f : Fault} (hbodies : Bodies store chain bodies)
    (hfails : bodies.foldlM UtxoSet.apply s = .error f) (rest : List (String × Header)) :
    ∃ utxos, replay store s (chain ++ rest) = (utxos, .error f) := by
  induction hbodies generalizing s with
  | nil => cases hfails
  | @cons e b _ _ hbody _ ih =>
    rw [List.cons_append, replay]
    rw [List.foldlM_cons] at hfails
    cases happly : s.apply b with
    | error g =>
      rw [happly] at hfails
      cases hfails
      exact ⟨s, by simp only [hbody, happly]⟩
    | ok next =>
      rw [happly] at hfails
      obtain ⟨utxos, hrest⟩ := ih hfails
      exact ⟨utxos, by simp only [hbody, happly, hrest]⟩

/-- A replay that succeeds has applied the bodies of the first headers, one after the other, and the
next header, if there is one, has no body. -/
theorem replay_eq_ok_iff {s utxos : UtxoSet} {walked chain : List (String × Header)} :
    replay store s walked = (utxos, .ok chain) ↔ ∃ rest bodies, walked = chain ++ rest ∧
      Bodies store chain bodies ∧ (∀ e ∈ rest.head?, NotFound (Storage.block store e.1)) ∧
      bodies.foldlM UtxoSet.apply s = .ok utxos := by
  constructor
  · intro h
    induction walked generalizing s chain with
    | nil =>
      cases h
      exact ⟨[], [], rfl, .nil, by simp, rfl⟩
    | cons e walked ih =>
      obtain ⟨hash, x⟩ := e
      rw [replay] at h
      cases hbody : Storage.block store hash with
      | error f =>
        simp only [hbody] at h
        split at h
        · next hmissing =>
          cases h
          exact ⟨_, [], rfl, .nil, by simpa using ⟨f, hbody, hmissing⟩, rfl⟩
        · cases h
      | ok b =>
        simp only [hbody] at h
        cases happly : s.apply b with
        | error f => simp [happly] at h
        | ok next =>
          simp only [happly] at h
          rcases hreplay : replay store next walked with ⟨v, f | more⟩
          · simp [hreplay] at h
          · simp only [hreplay] at h
            cases h
            obtain ⟨rest, bodies, rfl, hbodies, hcut, hrest⟩ := ih hreplay
            refine ⟨rest, b :: bodies, rfl, .cons hbody hbodies, hcut, ?_⟩
            rw [List.foldlM_cons, happly]
            exact hrest
  · rintro ⟨rest, bodies, rfl, hbodies, hcut, happlied⟩
    rw [replay_append hbodies happlied]
    cases rest with
    | nil => simp [replay, Except.map]
    | cons e rest =>
      obtain ⟨f, hf, hmissing⟩ := hcut e rfl
      rw [replay]
      simp [hf, hmissing, Except.map]

/-- Headers that all have bodies have a list of them. -/
lemma exists_bodies {chain : List (String × Header)}
    (h : ∀ e ∈ chain, ∃ b, Storage.block store e.1 = .ok b) :
    ∃ bodies, Bodies store chain bodies := by
  induction chain with
  | nil => exact ⟨[], .nil⟩
  | cons e chain ih =>
    obtain ⟨b, hbody⟩ := h e List.mem_cons_self
    obtain ⟨bodies, hbodies⟩ := ih fun e he => h e (List.mem_cons_of_mem _ he)
    exact ⟨b :: bodies, .cons hbody hbodies⟩

/-- A replay with no body missing goes through all headers, or it fails. -/
lemma replay_of_bodies {chain : List (String × Header)} (s : UtxoSet)
    (h : ∀ e ∈ chain, ∃ b, Storage.block store e.1 = .ok b) :
    ∃ utxos, replay store s chain = (utxos, .ok chain) ∨
      ∃ f, replay store s chain = (utxos, .error f) := by
  obtain ⟨bodies, hbodies⟩ := exists_bodies h
  cases happlied : bodies.foldlM UtxoSet.apply s with
  | ok utxos =>
    exact ⟨utxos, Or.inl (replay_eq_ok_iff.mpr
      ⟨[], bodies, (List.append_nil chain).symm, hbodies, nofun, happlied⟩)⟩
  | error f =>
    obtain ⟨utxos, hfails⟩ := replay_of_unappliable hbodies happlied []
    rw [List.append_nil] at hfails
    exact ⟨utxos, Or.inr ⟨f, hfails⟩⟩

/-! ### What is gathered -/

variable {ω : Type} {n : Node σ ω}

omit [Storage σ] in
/-- The node that has gathered unspent outputs and headers, or met a fault, and the result of the
rebuild. -/
def gathered (n : Node σ ω) :
    UtxoSet × Except Fault (List (String × Header)) → Node σ ω × Except Fault Unit
  | (utxos, .ok chain) => ({ n.withChain chain with utxos := utxos }, .ok ())
  | (utxos, .error f) => ({ n with utxos := utxos }, .error f)

/-- Where the store knows of no last block there is nothing to gather. -/
lemma rebuild?_of_notFound (h : NotFound (Storage.lastBlockHash n.store)) :
    n.rebuild? = some (n.gathered (UtxoSet.empty, .ok [])) := by
  obtain ⟨f, hlast, hmissing⟩ := h
  simp only [rebuild?, hlast, hmissing, if_true]
  rfl

/-- Where the walk back finds headers that stand at their places, their replay is gathered. -/
lemma rebuild?_of_collect {last : String} {found : List (String × Header)}
    (hlast : Storage.lastBlockHash n.store = .ok last)
    (hwalk : Walk.collect? n.store last = some (.ok found))
    (hplaces : checkPlaces 0 found.reverse = .ok ()) :
    n.rebuild? = some (n.gathered (replay n.store UtxoSet.empty found.reverse)) := by
  simp only [rebuild?, hlast, hwalk, hplaces]
  rcases replay n.store UtxoSet.empty found.reverse with ⟨utxos, f | chain⟩ <;> rfl

end Node

end PowLedger
