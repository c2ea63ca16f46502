import Mathlib.Data.List.Induction
import Mathlib.Data.List.TakeWhile
import Mathlib.Tactic.Common
import Mathlib.Tactic.Lemma
import PowLedger.Proofs.Node.Archive
import PowLedger.Proofs.Node.Frame

/-!
# Nodes that are restarted

A node runs over a store that may refuse to write: headers or bodies, for a while, as it happens.
Between its acts the node is closed and another one is opened over the same store, or it reads its
store again. A `History` remembers from outside what became of this: the blocks of the live chain,
each with the unspent outputs right after it, and all blocks that were ever taken.

After a restart the store may still hold headers that lie above the new tip, and its last header may
be one of them. The invariant `History.Sound` says that the headers below that last one are those of
the live chain, and then perhaps of a block without body and blocks above it. As long as no body is
refused, the store has the bodies of the live chain all along, `History.Whole`.
-/

namespace PowLedger

/-- Something that happens to a node or to its store. -/
inductive Turn (ω : Type) where
  | act (a : Act ω)
  /-- From now on headers are refused, or written again. -/
  | failHeaders (fault : Option Fault)
  /-- From now on bodies are refused, or written again. -/
  | failBodies (fault : Option Fault)
  /-- The node is closed, and a new one is opened over its store. -/
  | reopen (limits : SyncSettings)
  /-- The node reads its store again. -/
  | reconstruct

/-- The turn does not make the store refuse bodies. -/
def Turn.SparesBodies {ω : Type} : Turn ω → Prop
  | .failBodies (some _) => False
  | _ => True

/-- A node, and what is remembered of its past. -/
structure History (σ ω : Type) where
  node : Node (Faulty σ) ω
  /-- The blocks of the live chain, oldest first, each with the unspent outputs right after it. -/
  live : List (Block × UtxoSet)
  /-- All blocks that were ever taken, in order. -/
  known : List Block

/-- Each of the sets is what the blocks up to its own come to. -/
def Ledger.Recorded (chain : List (Block × UtxoSet)) : Prop :=
  ∀ front e back, chain = front ++ e :: back →
    e.2 = Ledger.utxos ((front ++ [e]).map Prod.fst)

namespace History

variable {σ ω : Type}

/-- The blocks of the live chain. -/
def blocks (t : History σ ω) : List Block :=
  t.live.map Prod.fst

/-- Another node stands over the store now; the live chain is cut to its height. -/
def restart (t : History σ ω) (node : Node (Faulty σ) ω) : History σ ω :=
  { t with node := node, live := t.live.take node.height }

/-- The store refuses an operation, or no longer does so. -/
def setFault (t : History σ ω) (call : StoreCall) (fault : Option Fault) : History σ ω :=
  { t with node := { t.node with store := t.node.store.setFault call fault } }

variable [Storage σ] [Observer ω]

/-- The history after an act. -/
def act (t : History σ ω) (a : Act ω) : History σ ω :=
  match t.node.takes a with
  | none => { t with node := t.node.act a }
  | some b => ⟨t.node.act a, t.live ++ [(b, (t.node.act a).utxos)], t.known ++ [b]⟩

/-- The history after a turn. -/
def turn (t : History σ ω) : Turn ω → History σ ω
  | .act a => t.act a
  | .failHeaders fault => t.setFault .persistHeader fault
  | .failBodies fault => t.setFault .persistBlock fault
  | .reopen limits =>
    match Node.open? t.node.primitives t.node.params limits t.node.store with
    | some (.ok node) => t.restart node
    | _ => t
  | .reconstruct =>
    match t.node.reconstruct? with
    | some (node, _) => t.restart node
    | none => t

end History

/-- What becomes of a node by turns. -/
def Node.history {σ ω : Type} [Storage σ] [Observer ω] (n : Node (Faulty σ) ω)
    (turns : List (Turn ω)) : History σ ω :=
  turns.foldl History.turn ⟨n, [], []⟩

/-! ### Records -/

namespace Ledger.Recorded

variable {front back chain : List (Block × UtxoSet)} {e : Block × UtxoSet}

/-- The record of a longer chain is one of its first blocks. -/
lemma of_append (h : Recorded (front ++ back)) : Recorded front := by
  rintro l e r rfl
  exact h l e (r ++ back) (by simp)

/-- A record goes on with a block and the set after it. -/
lemma snoc (h : Recorded chain) (he : e.2 = Ledger.utxos ((chain ++ [e]).map Prod.fst)) :
    Recorded (chain ++ [e]) := by
  intro l d r hsplit
  rcases List.eq_nil_or_concat' r with rfl | ⟨r, c, rfl⟩
  · obtain ⟨rfl, hlast⟩ := List.append_inj' hsplit rfl
    cases hlast
    exact he
  · have hsame : chain ++ [e] = (l ++ d :: r) ++ [c] := by simpa using hsplit
    exact h l d r (List.append_inj' hsame rfl).1

end Ledger.Recorded

/-! ### Cuts -/

/-- A list is cut before the first item without the property, if there is one. -/
lemma takeWhile_cut {α : Type} (p : α → Bool) (l : List α) :
    l = l.takeWhile p ∨ ∃ a back, l = l.takeWhile p ++ a :: back ∧ p a = false := by
  induction l with
  | nil => exact Or.inl rfl
  | cons a l ih =>
    by_cases ha : p a = true
    · rw [List.takeWhile_cons, if_pos ha]
      rcases ih with hall | ⟨c, back, hcut, hc⟩
      · exact Or.inl (congrArg (a :: ·) hall)
      · exact Or.inr ⟨c, back, congrArg (a :: ·) hcut, hc⟩
    · rw [List.takeWhile_cons, if_neg ha]
      exact Or.inr ⟨a, l, rfl, by simpa using ha⟩

/-- What comes behind an item without the property makes no difference to the cut. -/
lemma takeWhile_append_cons {α : Type} {p : α → Bool} {a : α} (ha : p a = false)
    (front back : List α) : (front ++ a :: back).takeWhile p = front.takeWhile p := by
  induction front with
  | nil => simp [ha]
  | cons c front ih =>
    rw [List.cons_append, List.takeWhile_cons, List.takeWhile_cons, ih]

/-! ### The invariant -/

namespace History

variable {σ ω : Type} [Storage σ]

/-- The live chain up to the first block whose body the store does not hold. -/
def kept (t : History σ ω) : List (Block × UtxoSet) :=
  t.live.takeWhile fun e => Storage.holdsBody t.node.store e.1

/-- Down from the last header of the store lies this chain. It is the live one, or goes on above it
with a block whose body was lost. -/
structure RestsOn (t : History σ ω) (j : Judge) (chain : List Block) : Prop where
  known : chain ⊆ t.known
  accepted : Ledger.Accepted j chain
  start : chain = [] → NotFound (Storage.lastBlockHash t.node.store.store)
  last : chain ≠ [] → Storage.lastBlockHash t.node.store.store = .ok (Ledger.tip chain).hash
  cut : chain = t.blocks ∨ ∃ lost back, chain = t.blocks ++ lost :: back ∧
    Storage.holdsBody t.node.store.store lost = false

/-- What holds of a history at all times. -/
structure Sound (t : History σ ω) (j : Judge) : Prop where
  judge : t.node.judge = j
  holds : t.node.Holds t.blocks
  recorded : Ledger.Recorded t.live
  readable : t.node.store.Readable
  archives : Storage.Archives t.node.store.store j t.known
  rests : ∃ chain, t.RestsOn j chain

variable {t : History σ ω} {j : Judge}

/-- The kept blocks are those of the live chain up to the first without body. -/
lemma map_kept (t : History σ ω) :
    t.kept.map Prod.fst = t.blocks.takeWhile (Storage.holdsBody t.node.store) := by
  rw [blocks, List.takeWhile_map]
  rfl

/-- The kept blocks are the first ones of the live chain. -/
lemma take_kept (t : History σ ω) : t.live.take t.kept.length = t.kept :=
  (List.prefix_iff_eq_take.mp (List.takeWhile_prefix _)).symm

/-- What a history rests on is a matter of what its store keeps and what is remembered. -/
lemma RestsOn.of_eq {t' : History σ ω} {chain : List Block} (h : t.RestsOn j chain)
    (hstore : t'.node.store.store = t.node.store.store) (hlive : t'.live = t.live)
    (hknown : t'.known = t.known) : t'.RestsOn j chain where
  known := hknown ▸ h.known
  accepted := h.accepted
  start := hstore ▸ h.start
  last := hstore ▸ h.last
  cut := by
    rw [blocks, hlive, hstore]
    exact h.cut

/-- The chain below the last header has the live chain as its first blocks. -/
lemma RestsOn.eq_append {chain : List Block} (h : t.RestsOn j chain) :
    ∃ back, chain = t.blocks ++ back := by
  rcases h.cut with hall | ⟨lost, back, hcut, -⟩
  · exact ⟨[], by simpa using hall⟩
  · exact ⟨lost :: back, hcut⟩

/-- The chain below the last header is cut where the live one is. -/
lemma RestsOn.takeWhile_eq {chain : List Block} (h : t.RestsOn j chain)
    (hreadable : t.node.store.Readable) :
    chain.takeWhile (Storage.holdsBody t.node.store) = t.kept.map Prod.fst := by
  rw [map_kept]
  rcases h.cut with hall | ⟨lost, back, hcut, hlost⟩
  · rw [hall]
  · rw [← hreadable.holdsBody_eq] at hlost
    rw [hcut, takeWhile_append_cons hlost]

/-- No turn makes anything forgotten. -/
lemma known_subset_turn [Observer ω] (t : History σ ω) (x : Turn ω) :
    t.known ⊆ (t.turn x).known := by
  cases x with
  | act a =>
    show t.known ⊆ (t.act a).known
    rw [act]
    split
    · exact List.Subset.refl _
    · exact List.subset_append_left _ _
  | failHeaders fault => exact List.Subset.refl _
  | failBodies fault => exact List.Subset.refl _
  | reopen limits =>
    rw [turn]
    split <;> exact List.Subset.refl _
  | reconstruct =>
    rw [turn]
    split <;> exact List.Subset.refl _

namespace Sound

/-- The blocks of the live chain were taken. -/
lemma blocks_subset_known (h : t.Sound j) : t.blocks ⊆ t.known := by
  obtain ⟨chain, hchain⟩ := h.rests
  obtain ⟨back, rfl⟩ := hchain.eq_append
  exact fun b hb => hchain.known (List.mem_append_left back hb)

/-! ### Turns that write nothing -/

/-- Before the first turn nothing is known. -/
lemma opened {primitives : Primitives} {params : ChainParams} {limits : SyncSettings} {store : σ}
    {n : Node (Faulty σ) ω} (hempty : Storage.IsEmpty store)
    (hopen : Node.open? primitives params limits (Faulty.sound store) = some (.ok n)) :
    Sound ⟨n, [], []⟩ ⟨primitives, params.targetBits, params.rewards⟩ := by
  have hfresh : Storage.IsFresh (Faulty.sound store) := by
    obtain ⟨f, hf, hfound⟩ := hempty.fresh
    exact ⟨f, ((Faulty.readable_sound store).lastBlockHash_eq).trans hf, hfound⟩
  obtain ⟨hholds, hjudge⟩ := Node.holds_of_open? hfresh hopen
  rw [Node.open?_fresh hfresh] at hopen
  cases hopen
  exact
    { judge := hjudge
      holds := hholds
      recorded := fun front e back hsplit => by simp at hsplit
      readable := Faulty.readable_sound store
      archives := .of_isEmpty hempty
      rests := ⟨[],
        { known := fun _ hb => nomatch hb
          accepted := .nil
          start := fun _ => hempty.fresh
          last := fun hne => absurd rfl hne
          cut := Or.inl rfl }⟩ }

/-- A change of what is refused to be written changes nothing else. -/
lemma setFault (h : t.Sound j) {call : StoreCall} (fault : Option Fault)
    (hcall : call = .persistHeader ∨ call = .persistBlock) : (t.setFault call fault).Sound j where
  judge := h.judge
  holds := ⟨h.holds.wired, h.holds.accepted, h.holds.tip, h.holds.headers, h.holds.utxos⟩
  recorded := h.recorded
  readable := h.readable.setFault fault hcall
  archives := h.archives
  rests := by
    obtain ⟨chain, hchain⟩ := h.rests
    exact ⟨chain, hchain.of_eq rfl rfl rfl⟩

/-- After a restart over the kept blocks these are the live chain. -/
lemma restart (h : t.Sound j) {m : Node (Faulty σ) ω} (hstore : m.store = t.node.store)
    (hwired : m.Wired) (hjudge : m.judge = j) :
    (t.restart (m.restarted (t.kept.map Prod.fst))).Sound j := by
  have hlive : t.live.take (t.kept.map Prod.fst).length = t.kept := by
    rw [List.length_map, take_kept]
  have hblocks : (t.restart (m.restarted (t.kept.map Prod.fst))).blocks = t.kept.map Prod.fst :=
    congrArg (List.map Prod.fst) hlive
  have hsplit : t.kept ++ t.live.drop t.kept.length = t.live := by
    have hall := List.take_append_drop t.kept.length t.live
    rwa [take_kept] at hall
  have hrecorded : Ledger.Recorded t.kept := (hsplit ▸ h.recorded).of_append
  have haccepted : Ledger.Accepted j (t.kept.map Prod.fst) := by
    have hall : Ledger.Accepted j t.blocks := h.judge ▸ h.holds.accepted
    rw [blocks, ← hsplit, List.map_append] at hall
    exact hall.front
  obtain ⟨chain, hchain⟩ := h.rests
  exact
    { judge := hjudge
      holds := by
        rw [hblocks]
        exact Node.restarted_holds hwired (hjudge ▸ haccepted)
      recorded := by
        show Ledger.Recorded (t.live.take (t.kept.map Prod.fst).length)
        rw [hlive]
        exact hrecorded
      readable := hstore ▸ h.readable
      archives := hstore ▸ h.archives
      rests := ⟨chain,
        { known := hchain.known
          accepted := hchain.accepted
          start := hstore ▸ hchain.start
          last := hstore ▸ hchain.last
          -- The walk ends in the same chain as before, and its cut is the live chain now.
          cut := by
            have hcut := takeWhile_cut (Storage.holdsBody t.node.store) chain
            rw [hchain.takeWhile_eq h.readable, h.readable.holdsBody_eq] at hcut
            rw [hblocks]
            exact hstore ▸ hcut }⟩ }

/-! ### What a restart finds -/

variable [Storage.Lawful σ]

/-- The store keeps a chain that is cut where the live one is. -/
lemma exists_keeps (h : t.Sound j) (hdistinct : Ledger.Distinct j t.known) :
    ∃ chain, Storage.Keeps t.node.store j chain ∧ Ledger.Distinct j chain ∧
      chain.takeWhile (Storage.holdsBody t.node.store) = t.kept.map Prod.fst := by
  obtain ⟨chain, hchain⟩ := h.rests
  have hkeeps := h.archives.keeps hdistinct hchain.accepted hchain.known hchain.start hchain.last
  exact ⟨chain, h.readable.keeps hkeeps, hdistinct.mono hchain.known,
    hchain.takeWhile_eq h.readable⟩

/-- Reading the store again makes the node ready over the kept blocks. -/
lemma reconstruct?_eq (h : t.Sound j) (hdistinct : Ledger.Distinct j t.known) :
    t.node.reconstruct? = some (t.node.restarted (t.kept.map Prod.fst), .ok ()) := by
  obtain ⟨chain, hkeeps, hchain, hcut⟩ := h.exists_keeps hdistinct
  rw [Node.reconstruct?_of_keeps hkeeps hchain, hcut]

/-- A node that is opened over the store is ready over the kept blocks. -/
lemma open?_eq (h : t.Sound j) (hdistinct : Ledger.Distinct j t.known) (primitives : Primitives)
    (params : ChainParams) (limits : SyncSettings) :
    Node.open? primitives params limits t.node.store = some (.ok
      ((Node.blank primitives params limits t.node.store : Node (Faulty σ) ω).restarted
        (t.kept.map Prod.fst))) := by
  obtain ⟨chain, hkeeps, hchain, hcut⟩ := h.exists_keeps hdistinct
  rw [Node.open?_of_keeps hkeeps hchain, hcut]

/-! ### Turns -/

/-- A block goes on top of the live chain; its header is committed, and its body is kept or lost. -/
lemma take (h : t.Sound j) {b : Block} {node : Node (Faulty σ) ω}
    (hmoves : t.node.Moves (some b) node) (hdistinct : Ledger.Distinct j (t.known ++ [b])) :
    Sound ⟨node, t.live ++ [(b, node.utxos)], t.known ++ [b]⟩ j := by
  obtain ⟨hholds, hjudge⟩ := hmoves.holds h.holds
  have hblocks : (t.live ++ [(b, node.utxos)]).map Prod.fst = t.blocks ++ [b] := by simp [blocks]
  rw [Option.toList_some, ← hblocks] at hholds
  have haccepted : Ledger.Accepted j (t.blocks ++ [b]) := by
    rw [← hblocks, ← h.judge, ← hjudge]
    exact hholds.accepted
  have hvalid : j.Validates b := haccepted.validates (by simp)
  have hsub : t.blocks ++ [b] ⊆ t.known ++ [b] := by
    intro c hc
    rcases List.mem_append.mp hc with hc | hc
    · exact List.mem_append_left _ (h.blocks_subset_known hc)
    · exact List.mem_append_right _ hc
  cases hmoves with
  | @take _ _ fees committed hok hpersist hwired hledger =>
    have hstore : node.store = Storage.handBlock committed b := congrArg LedgerState.store hledger
    obtain ⟨hfaults, hinner⟩ := Faulty.persistHeader_eq_ok hpersist
    obtain ⟨hsame, harchives, hlast⟩ :=
      (h.archives.persistHeader hvalid hdistinct hinner).handBlock hdistinct
        (List.mem_append_right _ (List.mem_singleton_self b))
    rw [← hstore] at hsame harchives hlast
    exact
      { judge := hjudge.trans h.judge
        holds := hholds
        recorded := h.recorded.snoc hholds.utxos
        readable := h.readable.of_faults_eq (hsame.trans hfaults)
        archives := harchives
        rests := ⟨t.blocks ++ [b],
          { known := hsub
            accepted := haccepted
            start := fun hempty => absurd hempty (by simp)
            last := fun _ => by
              rw [Ledger.tip_append, hlast]
              exact Storage.Lawful.lastBlockHash_persistHeader hinner
            cut := Or.inl hblocks.symm }⟩ }

variable [Observer ω]

/-- An act takes a block on top of the live chain, or it changes nothing that is remembered. -/
lemma act (h : t.Sound j) (a : Act ω) (hdistinct : Ledger.Distinct j (t.act a).known) :
    (t.act a).Sound j := by
  have hmoves := Node.act_moves h.holds.wired a
  rw [History.act] at hdistinct ⊢
  cases htaken : t.node.takes a with
  | some b =>
    rw [htaken] at hmoves hdistinct
    exact h.take hmoves hdistinct
  | none =>
    rw [htaken] at hmoves
    obtain ⟨hholds, hjudge⟩ := hmoves.holds h.holds
    rw [Option.toList_none, List.append_nil] at hholds
    have hstore : (t.node.act a).store = t.node.store := hmoves.store_eq
    obtain ⟨chain, hchain⟩ := h.rests
    exact
      { judge := hjudge.trans h.judge
        holds := hholds
        recorded := h.recorded
        readable := hstore ▸ h.readable
        archives := hstore ▸ h.archives
        rests := ⟨chain, hchain.of_eq (congrArg Faulty.store hstore) rfl rfl⟩ }

/-- What holds of a history holds after one more turn. -/
theorem turn (h : t.Sound j) (x : Turn ω) (hdistinct : Ledger.Distinct j (t.turn x).known) :
    (t.turn x).Sound j := by
  have hknown := hdistinct.mono (t.known_subset_turn x)
  cases x with
  | act a => exact h.act a hdistinct
  | failHeaders fault => exact h.setFault fault (Or.inl rfl)
  | failBodies fault => exact h.setFault fault (Or.inr rfl)
  | reopen limits =>
    rw [History.turn, h.open?_eq hknown]
    exact h.restart rfl (Node.blank_wired _ _ _ _) h.judge
  | reconstruct =>
    rw [History.turn, h.reconstruct?_eq hknown]
    exact h.restart rfl h.holds.wired h.judge

/-- What holds of a history holds after any number of turns. -/
theorem turns (h : t.Sound j) (xs : List (Turn ω))
    (hdistinct : Ledger.Distinct j (xs.foldl History.turn t).known) :
    (xs.foldl History.turn t).Sound j := by
  -- From the last turn down: what was known before it is known after it, and so is distinct.
  induction xs using List.reverseRecOn with
  | nil => exact h
  | append_singleton xs x ih =>
    rw [List.foldl_append] at hdistinct ⊢
    have hbefore := ih (hdistinct.mono (known_subset_turn _ x))
    exact hbefore.turn x hdistinct

end Sound

/-! ### No body lost -/

/-- The store takes bodies, and it has those of the live chain. -/
structure Whole (t : History σ ω) : Prop where
  taking : t.node.store.faults .persistBlock = none
  bodies : ∀ b ∈ t.blocks, Storage.block t.node.store b.hash = .ok b

omit [Storage σ] in
/-- After a restart the live chain has no new blocks. -/
lemma blocks_restart_subset (t : History σ ω) (node : Node (Faulty σ) ω) :
    (t.restart node).blocks ⊆ t.blocks :=
  List.map_subset _ (List.take_subset _ _)

/-- Before the first turn there is no body to lose. -/
lemma Whole.opened {primitives : Primitives} {params : ChainParams} {limits : SyncSettings}
    {store : σ} {n : Node (Faulty σ) ω}
    (hopen : Node.open? primitives params limits (Faulty.sound store) = some (.ok n)) :
    Whole ⟨n, [], []⟩ where
  taking := by
    obtain ⟨chain, utxos, rfl⟩ := Node.open?_cases hopen
    rfl
  bodies := List.forall_mem_nil _

/-- Over the same store a restart loses no body. -/
lemma Whole.restart (h : t.Whole) {node : Node (Faulty σ) ω} (hstore : node.store = t.node.store) :
    (t.restart node).Whole where
  taking := hstore ▸ h.taking
  bodies := fun b hb => hstore ▸ h.bodies b (t.blocks_restart_subset node hb)

namespace Sound

variable [Storage.Reliable σ]

/-- With a block that is taken its body is kept, and no other one is lost. -/
lemma whole_take (h : t.Sound j) (hwhole : t.Whole) {b : Block} {node : Node (Faulty σ) ω}
    (hmoves : t.node.Moves (some b) node) (hdistinct : Ledger.Distinct j (t.known ++ [b])) :
    Whole ⟨node, t.live ++ [(b, node.utxos)], t.known ++ [b]⟩ := by
  have hafter := h.take hmoves hdistinct
  have hblocks : (t.live ++ [(b, node.utxos)]).map Prod.fst = t.blocks ++ [b] := by simp [blocks]
  have hsub : t.blocks ++ [b] ⊆ t.known ++ [b] := hblocks ▸ hafter.blocks_subset_known
  have haccepted : Ledger.Accepted j (t.blocks ++ [b]) :=
    hblocks ▸ hafter.judge ▸ hafter.holds.accepted
  obtain ⟨hfaults, hself, hothers⟩ :=
    hmoves.bodies h.readable hwhole.taking haccepted (hdistinct.mono hsub)
  refine ⟨(congrFun hfaults _).trans hwhole.taking, fun c hc => ?_⟩
  rw [blocks, hblocks] at hc
  rcases List.mem_append.mp hc with hc | hc
  · exact (hothers c hc).trans (hwhole.bodies c hc)
  · exact List.mem_singleton.mp hc ▸ hself

variable [Observer ω]

/-- No act loses a body. -/
lemma whole_act (h : t.Sound j) (hwhole : t.Whole) (a : Act ω)
    (hdistinct : Ledger.Distinct j (t.act a).known) : (t.act a).Whole := by
  have hmoves := Node.act_moves h.holds.wired a
  rw [History.act] at hdistinct ⊢
  cases htaken : t.node.takes a with
  | some b =>
    rw [htaken] at hmoves hdistinct
    exact h.whole_take hwhole hmoves hdistinct
  | none =>
    rw [htaken] at hmoves
    have hstore : (t.node.act a).store = t.node.store := hmoves.store_eq
    exact ⟨hstore ▸ hwhole.taking, fun b hb => hstore ▸ hwhole.bodies b hb⟩

/-- No turn loses a body, unless it makes the store refuse bodies. -/
lemma whole_turn (h : t.Sound j) (hwhole : t.Whole) {x : Turn ω} (hx : x.SparesBodies)
    (hdistinct : Ledger.Distinct j (t.turn x).known) : (t.turn x).Whole := by
  have hknown := hdistinct.mono (t.known_subset_turn x)
  cases x with
  | act a => exact h.whole_act hwhole a hdistinct
  | failHeaders fault => exact ⟨hwhole.taking, hwhole.bodies⟩
  | failBodies fault =>
    cases fault with
    | none => exact ⟨rfl, hwhole.bodies⟩
    | some f => exact hx.elim
  | reopen limits =>
    rw [History.turn, h.open?_eq hknown]
    exact hwhole.restart rfl
  | reconstruct =>
    rw [History.turn, h.reconstruct?_eq hknown]
    exact hwhole.restart rfl

/-- No turns lose a body, unless one of them makes the store refuse bodies. -/
theorem whole_turns (h : t.Sound j) (hwhole : t.Whole) (xs : List (Turn ω))
    (hspares : ∀ x ∈ xs, x.SparesBodies)
    (hdistinct : Ledger.Distinct j (xs.foldl History.turn t).known) :
    (xs.foldl History.turn t).Whole := by
  induction xs using List.reverseRecOn with
  | nil => exact hwhole
  | append_singleton xs x ih =>
    rw [List.foldl_append] at hdistinct ⊢
    have hknown := hdistinct.mono (known_subset_turn _ x)
    have hbefore := ih (fun y hy => hspares y (List.mem_append_left _ hy)) hknown
    exact (h.turns xs hknown).whole_turn hbefore (hspares x (by simp)) hdistinct

end Sound

end History

end PowLedger
