import Mathlib.Tactic.Common
import Mathlib.Tactic.Lemma
import PowLedger.Proofs.Node.Integrity
import PowLedger.Proofs.Sync.Meeting

/-!
# Sync is safe against any peer

Whatever the peers reply and in whatever order things happen, a session changes the chain through
admission only, `Meeting.Sound.step_session`. Each of its steps is either quiet, which is to say
that it touches nothing but the status, the count of sessions and the gate, or one block is admitted
by it: one that the judge accepts at the tip of the moment, for a header that the peer has listed.
With what is true of meetings all along this gives `Meeting.sync_safe`.
-/

namespace PowLedger

namespace Meeting

variable {σ ω : Type} {n : Node σ ω} {capacity i : Nat} {w : Meeting σ ω} {p q : Party}
  {next : Node σ ω × Stage} {taken : Option Block}

/-- Of the node nothing but the status, the sessions and the gate is changed, and no block is put
on record. -/
structure Quiet (w w' : Meeting σ ω) : Prop where
  bare : w'.node.bare = w.node.bare
  blocks : w'.blocks = w.blocks
  admitted : w'.parties.map Party.admitted = w.parties.map Party.admitted

/-- The gate is no part of what a session must leave alone. -/
lemma goOn_bare : (w.goOn i next q taken).node.bare = next.1.bare := by
  rw [Meeting.goOn]
  split <;> rfl

/-- A session that goes on is at its new stage. -/
lemma getElem?_goOn_self (hp : w.parties[i]? = some p) :
    (w.goOn i next q taken).parties[i]? =
      some { q with stage := next.2, admitted := q.admitted ++ taken.toList } :=
  (getElem?_goOn hp i).trans (if_pos rfl)

/-- A session that goes on aside and has taken nothing is quiet. -/
lemma quiet_goOn (h : w.node.Aside next.1) (hp : w.parties[i]? = some p)
    (hq : q.admitted = p.admitted) : w.Quiet (w.goOn i next q none) where
  bare := goOn_bare.trans h.bare
  blocks := List.append_nil _
  admitted := by
    refine List.ext_getElem? fun j => ?_
    rw [List.getElem?_map, List.getElem?_map, getElem?_goOn hp]
    split
    · next hij =>
      rw [← hij, hp, Option.toList_none, List.append_nil]
      exact congrArg some hq
    · rfl

variable [Storage σ] [Observer ω]

/-- The session at a place has one block admitted: the judge accepts it at the tip of the moment,
its header is one that the peer has listed, and its hash is that of this header. Status, sessions
and gate apart, nothing but the admission is done to the node, and it is on record for this session
only. -/
structure Admits (w : Meeting σ ω) (i : Nat) (b : Block) (w' : Meeting σ ω) : Prop where
  accepted : ∃ fees, w.node.judge.checkBlock b w.node.tip w.node.utxos = .ok fees
  taken : (w.node.addBlock b).2 = .ok ()
  bare : w'.node.bare = (w.node.addBlock b).1.bare
  blocks : w'.blocks = w.blocks ++ [b]
  listed : ∃ p p', w.parties[i]? = some p ∧ w'.parties[i]? = some p' ∧
    p'.admitted = p.admitted ++ [b] ∧ b.header ∈ p'.listed
  others : ∀ j ≠ i, w'.parties[j]? = w.parties[j]?
  hash : b.hash = b.header.hash w.node.digest

/-- A step of a session is quiet, or one block is admitted by it. -/
theorem Sound.step_session (h : Sound n capacity w) {e : Happening ω} (he : e.session? = some i) :
    w.Quiet (w.step e) ∨ ∃ b, w.Admits i b (w.step e) := by
  have hcomes := w.step_comes e
  generalize w.step e = w' at hcomes
  cases hcomes with
  | comeUp peer | other _ => cases he
  | nothing e | ask _ _ _ => exact Or.inl ⟨rfl, rfl, rfl⟩
  | letIn hp _ _ => exact Or.inl (quiet_goOn w.node.enter_aside hp rfl)
  | turnAway f hp _ => exact Or.inl (quiet_goOn ⟨rfl, rfl⟩ hp rfl)
  | drop f hp _ => exact Or.inl (quiet_goOn w.node.leaveSync_aside hp rfl)
  | @reply _ p calledOff reply hp hphase =>
    cases he
    rcases h.onReply_cases hp hphase calledOff reply with
      ⟨htakes, hleads⟩ | ⟨b, htakes, hok, hb, hhash, hleads⟩
    · rw [htakes]
      exact Or.inl (quiet_goOn hleads.aside hp rfl)
    · refine Or.inr ⟨b, ?_⟩
      rw [htakes]
      exact
        { accepted := by
            rcases w.node.addBlock_cases b with ⟨f, hadd⟩ | ⟨fees, store, -, hvalid, -, -⟩
            · rw [hadd] at hok
              cases hok
            · exact ⟨fees, hvalid⟩
          taken := hok
          bare := goOn_bare.trans hleads.aside.bare
          blocks := rfl
          listed := ⟨p, _, hp, getElem?_goOn_self hp, rfl, hb⟩
          others := fun j hj => (getElem?_goOn hp j).trans (if_neg hj.symm)
          hash := hhash }

/-- A session that is over stays as it ended. -/
lemma step_finished (hp : w.parties[i]? = some p) (hover : p.stage.phase = .finished)
    (e : Happening ω) : (w.step e).parties[i]? = some p :=
  ((w.step_comes e).party hp).resolve_right fun hgoes => hgoes.1 hover

/-- Sync is safe against any peer. At a node with any chain and no session yet, let any sessions
come up, any peers reply anything, and anything else happen in between. The node grows by the blocks
on record and by no others. A step of a session is quiet or has one block admitted. The blocks that
a session has admitted stay; each is for a header that its peer has listed, and if the session ends
well, it says their number. A session that is over stays so, the gate knows it no more, every permit
is free or held, and just the sessions that are under way are counted. -/
theorem sync_safe (hwired : n.Wired) (hsessions : n.sessions = 0)
    (hgate : n.gate = Gate.ofCapacity capacity) (es : List (Happening ω)) :
    let w := run n es
    n.Grows w.blocks w.node ∧
    (∀ e i, e.session? = some i → w.Quiet (w.step e) ∨ ∃ b, w.Admits i b (w.step e)) ∧
    (∀ p ∈ w.parties, p.admitted.Sublist w.blocks ∧
      (∀ b ∈ p.admitted, b.header ∈ p.listed ∧ b.hash = b.header.hash n.digest) ∧
      ∀ k, p.stage = .ended (.ok k) → p.admitted.length = k) ∧
    (∀ i p r, w.parties[i]? = some p → p.stage = .ended r →
      ¬w.node.gate.Knows i ∧ ∀ e, (w.step e).parties[i]? = some p) ∧
    w.node.gate.free + w.node.gate.held.length = capacity ∧
    (∀ i ∈ w.node.gate.held, i < w.parties.length) ∧
    w.node.sessions = w.parties.countP fun p => p.stage.phase = .underWay := by
  intro w
  have hsound : Sound n capacity w := sound_run hwired hsessions hgate es
  refine ⟨hsound.grows, fun e i he => hsound.step_session he, ?_, ?_,
    hsound.balanced.orderly.permits, fun i hi => ?_, hsound.balanced.sessions⟩
  · intro p hp
    have hkept := hsound.kept p hp
    refine ⟨hsound.chained p hp, hkept.listed, fun k hk => hkept.tally k ?_⟩
    rw [hk]
    rfl
  · intro i p r hp hended
    have hover : p.stage.phase = .finished := by rw [hended]; rfl
    refine ⟨fun hknows => ?_, step_finished hp hover⟩
    obtain ⟨q, hq, hphase⟩ := hsound.balanced.tickets i hknows
    rw [hp] at hq
    cases hq
    exact hphase hover
  · obtain ⟨p, hp, -⟩ := hsound.balanced.tickets i (Or.inl hi)
    exact (List.getElem?_eq_some_iff.mp hp).1

end Meeting

namespace Sample

/-- Two sessions have begun, and the first one has heard of its peer's last header. -/
def prelude : List (Happening Watcher) :=
  [.comeUp "a", .comeUp "b", .ask 0, .letIn 0, .ask 1, .letIn 1,
    .reply 0 false (.lastHeader (.ok second.header))]

/-- While the first session waits for the body of the second block, this block comes from elsewhere,
and the session fails on it. The other session finds nothing to fetch. -/
def overtaken : List (Happening Watcher) :=
  prelude ++ .reply 0 false (.headers (.ok [second.header, first.header])) ::
    [.reply 0 false (.block (.ok first)), .other (.block second),
      .reply 0 false (.block (.ok second)), .reply 1 false (.lastHeader (.ok first.header))]

lemma fetchOrder_headers : Session.fetchOrder 0 [second.header, first.header] =
    [first.header, second.header] := by
  have hle : ¬second.header.height ≤ first.header.height := by decide +kernel
  simp [Session.fetchOrder, List.mergeSort, List.MergeSort.Internal.splitInTwo, hle]

lemma parties_prelude :
    (Meeting.run durableNode prelude).parties[0]? = some ⟨"a", .askingHeaders 0, [], []⟩ :=
  rfl

-- The kernel cannot evaluate sorting, so the headers are put in order by the lemma above.
lemma run_overtaken :
    (Meeting.run durableNode overtaken).blocks = [first, second] ∧
      (Meeting.run durableNode overtaken).parties.map Party.admitted = [[first], []] ∧
      (Meeting.run durableNode overtaken).parties.map (fun p => p.stage.tally) = [none, some 0] ∧
      (Meeting.run durableNode overtaken).parties.map (fun p => p.stage.phase) =
        [.finished, .finished] := by
  have hlisted : (Meeting.run durableNode prelude).step
      (.reply 0 false (.headers (.ok [second.header, first.header]))) =
      (Meeting.run durableNode prelude).goOn 0
        (Session.next "a" false (Meeting.run durableNode prelude).node 0
          [first.header, second.header])
        ⟨"a", .askingHeaders 0, [second.header, first.header], []⟩ none := by
    rw [Meeting.step, Meeting.atPlace, parties_prelude, ← fetchOrder_headers]
    rfl
  have hsplit : Meeting.run durableNode overtaken = _ := List.foldl_append ..
  rw [hsplit, List.foldl_cons, ← Meeting.run, hlisted]
  decide +kernel

end Sample

namespace Meeting

open Sample in
/-- After both sessions are over, the block of the first one has stayed, every permit is free and no
session is counted. -/
theorem sync_safe_of_overtaken :
    durableNode.Grows [first, second] (run durableNode overtaken).node ∧
      (∃ p, (run durableNode overtaken).parties[0]? = some p ∧ p.admitted = [first] ∧
        first.header ∈ p.listed) ∧
      (run durableNode overtaken).node.gate.free = 4 ∧
      (run durableNode overtaken).node.sessions = 0 := by
  have hwired : durableNode.Wired := Node.wired_of_open? open?_durableNode
  have hgate : durableNode.gate = Gate.ofCapacity 4 := rfl
  obtain ⟨hgrows, -, hkept, hover, hpermits, hheld, hsessions⟩ :=
    sync_safe hwired rfl hgate overtaken
  obtain ⟨hblocks, hadmitted, -, hphases⟩ := run_overtaken
  obtain ⟨p, q, hparties⟩ : ∃ p q, (run durableNode overtaken).parties = [p, q] :=
    List.length_eq_two.mp (by simpa using congrArg List.length hadmitted)
  rw [hparties] at hadmitted hphases hkept hover hheld hsessions
  simp only [List.map_cons, List.map_nil, List.cons.injEq, and_true] at hadmitted hphases
  have hended : ∀ r ∈ [p, q], r.stage.phase = .finished := by simp [hphases]
  have hnone : (run durableNode overtaken).node.gate.held = [] := by
    refine List.eq_nil_iff_forall_not_mem.mpr fun i hi => ?_
    have hlt : i < [p, q].length := hheld i hi
    obtain ⟨r, hr⟩ := Stage.exists_ended_of_finished (hended _ (List.getElem_mem hlt))
    exact (hover i _ r (List.getElem?_eq_getElem hlt) hr).1 (Or.inl hi)
  refine ⟨hblocks ▸ hgrows, ⟨p, by rw [hparties]; rfl, hadmitted.1, ?_⟩, ?_, ?_⟩
  · refine ((hkept p List.mem_cons_self).2.1 first ?_).1
    rw [hadmitted.1]
    exact List.mem_singleton_self first
  · simpa [hnone] using hpermits
  · rw [hsessions]
    simp [hphases]

end Meeting

end PowLedger
