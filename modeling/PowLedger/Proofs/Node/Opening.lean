import Mathlib.Data.List.Chain
import Mathlib.Tactic.Common
import Mathlib.Tactic.Lemma
import PowLedger.Proofs.Ledger.Linkage
import PowLedger.Proofs.Node.Frame
import PowLedger.Proofs.Node.Integrity
import PowLedger.Proofs.Node.Replay
import PowLedger.Proofs.Store.Walk
import PowLedger.Proofs.Table

/-!
# Reading any store

Nothing need be known of the store that a node opens. Headers and bodies may lie there under any
hashes, and the headers may name each other in a circle; then the walk over them never ends, and
reading the store does not either (`Node.reading_ends_iff`). Where it ends, the node is ready over a
chain that holds together, `Node.Reread`, or it reports the fault that it found and admits nothing
until a later reconstruction succeeds (`Node.reconstruct?_of_walked`).
-/

namespace PowLedger

namespace Node

variable {σ ω : Type} [Storage σ] {store : σ}

/-! ### The walk back -/

/-- The walk back over a store ends, with the headers found, newest first, and the fault at which it
stops, if any. Where the store knows of no last block there is nothing to walk over. -/
inductive Walked (store : σ) : List (String × Header) → Option Fault → Prop
  | nothing : NotFound (Storage.lastBlockHash store) → Walked store [] none
  | unreadable {f : Fault} : Storage.lastBlockHash store = .error f → f.isNotFound = false →
    Walked store [] (some f)
  | back {last : String} {found : List (String × Header)} {r : Option Fault} :
    Storage.lastBlockHash store = .ok last → Walk.Ends store last found r → Walked store found r

section Walked

variable {found : List (String × Header)} {r : Option Fault}

/-- The walk back comes to no hash twice. -/
lemma Walked.nodup (h : Walked store found r) : (found.map Prod.fst).Nodup := by
  cases h with
  | nothing _ | unreadable _ _ => exact List.nodup_nil
  | back _ hends => exact hends.nodup

/-- Each header names the hash of the one found after it. -/
lemma Walked.linked (h : Walked store found r) :
    found.IsChain fun newer older => newer.2.previous = older.1 := by
  cases h with
  | nothing _ | unreadable _ _ => exact .nil
  | back _ hends => exact hends.linked

/-- Without a fault the last header found is a first one. -/
lemma Walked.first (h : Walked store found none) {e : String × Header}
    (he : found.getLast? = some e) : e.2.previous = "" := by
  cases h with
  | nothing _ => cases he
  | back _ hends =>
    obtain ⟨e', he', hgenesis⟩ := hends.getLast?
    rw [he] at he'
    cases he'
    exact beq_iff_eq.mp hgenesis

/-- The walk back ends unless it starts at a hash from where it circles. -/
lemma walked_or_circles [Storage.Lawful σ] (store : σ) : (∃ found r, Walked store found r) ∨
    ∃ last, Storage.lastBlockHash store = .ok last ∧ Walk.Circles store last := by
  cases hlast : Storage.lastBlockHash store with
  | error f =>
    cases hmissing : f.isNotFound with
    | true => exact Or.inl ⟨[], none, .nothing ⟨f, hlast, hmissing⟩⟩
    | false => exact Or.inl ⟨[], some f, .unreadable hlast hmissing⟩
  | ok last =>
    rcases Walk.ends_or_circles store last with ⟨found, r, hends⟩ | hcircles
    · exact Or.inl ⟨found, r, .back hlast hends⟩
    · exact Or.inr ⟨last, rfl, hcircles⟩

/-- What is gathered from a store after the walk back: the unspent outputs and the headers replayed,
or the fault that stopped the walk, the check of the places or the replay. -/
def gather (store : σ) (found : List (String × Header)) :
    Option Fault → UtxoSet × Except Fault (List (String × Header))
  | some f => (UtxoSet.empty, .error f)
  | none =>
    match checkPlaces 0 found.reverse with
    | .error f => (UtxoSet.empty, .error f)
    | .ok _ => replay store UtxoSet.empty found.reverse

/-- A chain is gathered if the walk has no fault, all headers have the heights of their places, and
the replay succeeds. -/
lemma gather_eq_ok_iff {utxos : UtxoSet} {chain : List (String × Header)} :
    gather store found r = (utxos, .ok chain) ↔ r = none ∧ checkPlaces 0 found.reverse = .ok () ∧
      replay store UtxoSet.empty found.reverse = (utxos, .ok chain) := by
  cases r with
  | some f => simp [gather]
  | none => cases hplaces : checkPlaces 0 found.reverse <;> simp [gather, hplaces]

/-- A rebuild ends if the walk back does, with what is gathered then. -/
theorem rebuild?_of_walked [Storage.Lawful σ] {n : Node σ ω} (h : Walked n.store found r) :
    n.rebuild? = some (n.gathered (gather n.store found r)) := by
  cases h with
  | nothing hmissing => exact rebuild?_of_notFound hmissing
  | unreadable hlast hfault =>
    simp only [rebuild?, hlast, hfault, Bool.false_eq_true, if_false]
    rfl
  | back hlast hends =>
    have hwalk := Walk.collect?_eq_some_iff.mpr ⟨found, r, hends, rfl⟩
    cases r with
    | some f =>
      simp only [rebuild?, hlast, hwalk]
      rfl
    | none =>
      cases hplaces : checkPlaces 0 found.reverse with
      | error f =>
        simp only [rebuild?, hlast, hwalk, Walk.outcome, gather, hplaces]
        rfl
      | ok _ =>
        rw [rebuild?_of_collect hlast hwalk hplaces]
        simp only [gather, hplaces]

/-- A rebuild never ends exactly if the walk back circles. -/
theorem rebuild?_eq_none_iff [Storage.Lawful σ] {n : Node σ ω} : n.rebuild? = none ↔
    ∃ last, Storage.lastBlockHash n.store = .ok last ∧ Walk.Circles n.store last := by
  constructor
  · intro hnone
    rcases walked_or_circles n.store with ⟨found, r, hwalked⟩ | hcircles
    · rw [rebuild?_of_walked hwalked] at hnone
      cases hnone
    · exact hcircles
  · rintro ⟨last, hlast, hcircles⟩
    simp only [rebuild?, hlast, Walk.collect?_eq_none_iff.mpr hcircles]

/-- Nor does a reconstruction. -/
theorem reconstruct?_eq_none_iff [Storage.Lawful σ] {n : Node σ ω} : n.reconstruct? = none ↔
    ∃ last, Storage.lastBlockHash n.store = .ok last ∧ Walk.Circles n.store last := by
  rw [← rebuild?_eq_none_iff (n := { n with status := .reconstructing }), reconstruct?]
  rcases rebuild? { n with status := .reconstructing } with _ | ⟨m, f | _⟩ <;> simp

/-- Nor does the opening of a node. -/
theorem open?_eq_none_iff [Storage.Lawful σ] {primitives : Primitives} {params : ChainParams}
    {limits : SyncSettings} :
    (open? primitives params limits store : Option (Except Fault (Node σ ω))) = none ↔
      ∃ last, Storage.lastBlockHash store = .ok last ∧ Walk.Circles store last := by
  have hread := reconstruct?_eq_none_iff (n := (blank primitives params limits store : Node σ ω))
  refine Iff.trans ?_ hread
  rw [open?]
  rcases (blank primitives params limits store : Node σ ω).reconstruct? with _ | ⟨m, f | _⟩ <;> simp

end Walked

/-! ### What was read -/

/-- What a node has read from its store: the walk went over the headers `walked`, oldest first, and
the node has the first of them, `chain`, with these bodies. -/
structure Reread (m : Node σ ω) (walked chain : List (String × Header)) (bodies : List Block) :
    Prop where
  /-- The next header of the walk, if there is one, has no body. -/
  cut : ∃ rest, walked = chain ++ rest ∧ ∀ e ∈ rest.head?, NotFound (Storage.block m.store e.1)
  /-- Every header is indexed under the hash at which the walk found it. -/
  indexed : ∀ hash h, m.header? hash = some h ↔ (hash, h) ∈ chain
  size : m.height = m.headers.size
  listed : m.headerList = chain.map Prod.snd
  heights : m.headerList.map (fun h => h.height.toNat) = List.range m.height
  /-- The first header names none before it. -/
  first : ∀ h ∈ m.headerList.head?, h.previous = ""
  /-- Every other one names the hash under which the one before it is indexed. -/
  linked : chain.IsChain fun older newer => newer.2.previous = older.1
  /-- The last hash is that of the last header; the empty text stands for none. -/
  last : m.lastBlockHash = (chain.getLast?.map Prod.fst).filter (· ≠ "")
  stored : Bodies m.store chain bodies
  /-- The unspent outputs are what the bodies make of none. -/
  utxos : bodies.foldlM UtxoSet.apply UtxoSet.empty = .ok m.utxos
  status : m.status = .ready

omit [Storage σ] in
/-- The last hash of a chain is that of its last header; the empty text stands for none. -/
lemma lastBlockHash_withChain (n : Node σ ω) (chain : List (String × Header)) :
    (n.withChain chain).lastBlockHash = (chain.getLast?.map Prod.fst).filter (· ≠ "") := by
  rw [lastBlockHash, withChain]
  cases chain.getLast?.map Prod.fst with
  | none => rfl
  | some hash => by_cases hempty : hash = "" <;> simp [hempty, Option.filter]

omit [Storage σ] in
/-- The heights of the first headers of a walk that stand at their places. -/
lemma heights_of_checkPlaces {chain rest : List (String × Header)}
    (h : checkPlaces 0 (chain ++ rest) = .ok ()) :
    (chain.map Prod.snd).map (fun h => h.height.toNat) =
      List.range (chain.map Prod.snd).length := by
  have hall := checkPlaces_eq_ok_iff.mp h
  rw [List.map_append, List.length_append, ← List.range'_append_1] at hall
  rw [List.map_map, List.length_map, List.range_eq_range']
  exact (List.append_inj hall (by simp)).1

/-- A node that takes the replayed headers of a walk as its chain has read them. -/
lemma reread_withChain {n : Node σ ω} {found chain : List (String × Header)}
    {utxos : UtxoSet} (hwalked : Walked n.store found none)
    (hplaces : checkPlaces 0 found.reverse = .ok ())
    (hreplay : replay n.store UtxoSet.empty found.reverse = (utxos, .ok chain)) :
    ∃ bodies, Reread { n.withChain chain with utxos := utxos, status := .ready } found.reverse chain
      bodies := by
  obtain ⟨rest, bodies, hsplit, hbodies, hcut, happlied⟩ := replay_eq_ok_iff.mp hreplay
  have hnodup : (chain.map Prod.fst).Nodup := by
    have hall := List.nodup_reverse.mpr hwalked.nodup
    rw [← List.map_reverse, hsplit, List.map_append] at hall
    exact (List.nodup_append.mp hall).1
  have hentries : (chain.foldl (fun t e => t.insert e.1 e.2) Table.empty).entries = chain :=
    Table.entries_foldl_insert (by simpa [Table.empty] using hnodup)
  have hheights := heights_of_checkPlaces (hsplit ▸ hplaces)
  have hlisted : (n.withChain chain).headerList = chain.map Prod.snd := by
    show ((chain.foldl (fun t e => t.insert e.1 e.2) Table.empty).values.mergeSort _) = _
    rw [Table.values, hentries]
    exact Ledger.mergeSort_eq_of_heights hheights
  have hsize : (n.withChain chain).height = chain.length := by
    show (chain.foldl (fun t e => t.insert e.1 e.2) Table.empty).entries.length = _
    rw [hentries]
  have hlinked : found.reverse.IsChain fun older newer => newer.2.previous = older.1 :=
    List.isChain_reverse.mpr hwalked.linked
  refine ⟨bodies, {
    cut := ⟨rest, hsplit, hcut⟩
    indexed := fun hash h => ?_
    size := rfl
    listed := hlisted
    heights := ?_
    first := ?_
    linked := (hsplit ▸ hlinked).left_of_append
    last := ?_
    stored := hbodies
    utxos := happlied
    status := rfl }⟩
  · show (chain.foldl (fun t e => t.insert e.1 e.2) Table.empty).get? hash = some h ↔ _
    rw [Table.get?_eq_some_iff, hentries]
  · show (n.withChain chain).headerList.map _ = List.range (n.withChain chain).height
    rw [hlisted, hsize, hheights, List.length_map]
  · intro h hfirst
    change h ∈ (n.withChain chain).headerList.head? at hfirst
    rw [hlisted, List.head?_map] at hfirst
    obtain ⟨e, he, rfl⟩ := Option.map_eq_some_iff.mp hfirst
    refine hwalked.first ?_
    rw [← List.head?_reverse, hsplit, List.head?_append, he, Option.some_or]
  · exact lastBlockHash_withChain n chain

/-! ### Refusal -/

section Refusal

variable [Observer ω]

/-- The node takes no block and no transaction. -/
def Refuses (n : Node σ ω) : Prop :=
  (∀ b, n.addBlock b = (n, .error (.consistency (.notAdmitting n.status)))) ∧
    ∀ tx, n.addTransaction tx = (n, .error (.consistency (.notAdmitting n.status)))

/-- A node that is neither ready nor syncing takes nothing. -/
theorem refuses_of_status {n : Node σ ω} (h : n.status.admits = false) : n.Refuses := by
  have hcheck : n.checkAdmitting = .error (.consistency (.notAdmitting n.status)) := by
    rw [checkAdmitting, h]
    rfl
  refine ⟨fun b => ?_, fun tx => ?_⟩
  · rw [addBlock, commit, hcheck]
    rfl
  · rw [addTransaction, checkPoolable, hcheck]
    rfl

/-- What becomes of a node as long as no reconstruction succeeds: it acts, its store is replaced by
any other, and reconstructions fail. -/
inductive Unmended (n : Node σ ω) : Node σ ω → Prop
  | start : Unmended n n
  | act {m : Node σ ω} (a : Act ω) : Unmended n m → Unmended n (m.act a)
  | store {m : Node σ ω} (s : σ) : Unmended n m → Unmended n { m with store := s }
  | fail {m m' : Node σ ω} {f : Fault} :
    Unmended n m → m.reconstruct? = some (m', .error f) → Unmended n m'

/-- A node that admits nothing, and has the chain and the pool of the first one. -/
structure Shut (n m : Node σ ω) : Prop where
  admits : m.status.admits = false
  tip : m.tip = n.tip
  headers : m.headers = n.headers
  pool : m.pool = n.pool

/-- An act of a node that admits nothing changes neither its ledger nor its pool. -/
lemma holdings_act_of_status {n : Node σ ω} (h : n.status.admits = false) (a : Act ω) :
    (n.act a).holdings = n.holdings := by
  have hbrought : n.brought a.block? a.transaction? = n := by
    cases a.block? with
    | some b => exact congrArg Prod.fst ((refuses_of_status h).1 b)
    | none =>
      cases a.transaction? with
      | some tx => exact congrArg Prod.fst ((refuses_of_status h).2 tx)
      | none => rfl
  rw [act_holdings, hbrought]

/-- A node that admits nothing stays shut until a reconstruction succeeds. -/
theorem Unmended.shut {n m : Node σ ω} (hunmended : Unmended n m)
    (h : n.status.admits = false) : n.Shut m := by
  induction hunmended with
  | start => exact ⟨h, rfl, rfl, rfl⟩
  | @act m a _ ih =>
    have hsame := holdings_act_of_status ih.admits a
    have hledger := congrArg Holdings.ledger hsame
    have htip : (m.act a).tip = m.tip := congrArg₂ Tip.mk (congrArg LedgerState.tipHash hledger)
      (congrArg LedgerState.height hledger)
    exact ⟨(congrArg Holdings.admits hsame).trans ih.admits, htip.trans ih.tip,
      (congrArg LedgerState.headers hledger).trans ih.headers,
      (congrArg Holdings.pool hsame).trans ih.pool⟩
  | store s _ ih => exact ⟨ih.admits, ih.tip, ih.headers, ih.pool⟩
  | fail _ hfails ih =>
    rcases reconstruct?_cases hfails with ⟨chain, utxos, hok, -⟩ | ⟨f, utxos, -, rfl⟩
    · cases hok
    · exact ⟨rfl, ih.tip, ih.headers, ih.pool⟩

end Refusal

/-! ### Reading a store -/

/-- Reading a store goes on without end exactly if the walk back from the last hash circles. Such a
walk finds a header at each of its steps. Any other one has at most one item more than there are
headers in the store. -/
theorem reading_ends_iff [Storage.Lawful σ] (store : σ) :
    (∀ k, Walk.Circles store k ↔ ∀ limit, (Walk.items store limit (some k)).length = limit) ∧
    (∀ k, ¬Walk.Circles store k → ∃ all : List (Except Fault (String × Header)),
      (∀ limit, Walk.items store limit (some k) = all.take limit) ∧
      ∀ kept : List String, (∀ j h, Storage.header store j = .ok h → j ∈ kept) →
        all.length ≤ kept.length + 1) ∧
    (∀ n : Node σ ω, n.store = store → (n.reconstruct? = none ↔
      ∃ last, Storage.lastBlockHash store = .ok last ∧ Walk.Circles store last)) ∧
    ∀ primitives params limits,
      (open? primitives params limits store : Option (Except Fault (Node σ ω))) = none ↔
        ∃ last, Storage.lastBlockHash store = .ok last ∧ Walk.Circles store last := by
  have hfinite : ∀ k, ¬Walk.Circles store k → ∃ all : List (Except Fault (String × Header)),
      (∀ limit, Walk.items store limit (some k) = all.take limit) ∧
      ∀ kept : List String, (∀ j h, Storage.header store j = .ok h → j ∈ kept) →
        all.length ≤ kept.length + 1 := by
    intro k hnot
    obtain ⟨found, r, hends⟩ := Walk.not_circles_iff.mp hnot
    refine ⟨_, hends.items_eq, fun kept hkept => ?_⟩
    have hfound := hends.length_le hkept
    cases r <;> simp <;> omega
  refine ⟨fun k => ⟨fun hcircles limit => ?_, fun hforever => ?_⟩, hfinite, ?_, ?_⟩
  · obtain ⟨es, hes, hlen⟩ := hcircles.items_eq limit
    rw [hes, List.length_map, hlen]
  · by_contra hnot
    obtain ⟨all, hitems, -⟩ := hfinite k hnot
    have hlong := hforever (all.length + 1)
    rw [hitems, List.length_take] at hlong
    omega
  · rintro n rfl
    exact reconstruct?_eq_none_iff
  · exact fun _ _ _ => open?_eq_none_iff

end Node

namespace Sample

/-- A store into which these headers, and then these bodies, were written as they are. -/
def stored (entries : List (String × Header)) (bodies : List Block) : VolatileStore :=
  bodies.foldl VolatileStore.persistBlock
    (entries.foldl (fun s e => s.persistHeader e.1 e.2) VolatileStore.empty)

/-- A header without work. -/
def link (previous : String) (height : UInt64) : Header := ⟨1, previous, [], height, 0, 0, 0⟩

/-- A header that names the hash under which it lies. -/
def circular : VolatileStore := stored [("a", link "a" 0)] []

/-- Two headers, of which only the first has a body. -/
def cut : VolatileStore := stored [("a", link "" 0), ("b", link "a" 1)] [⟨link "" 0, [], "a"⟩]

lemma ends_cut : Walk.Ends cut "b" [("b", link "a" 1), ("a", link "" 0)] none :=
  .back rfl rfl (.first rfl rfl)

/-- Two headers can be read in at most three steps, and a node can be opened over them. -/
theorem reading_ends_of_cut :
    (∃ all : List (Except Fault (String × Header)),
      (∀ limit, Walk.items cut limit (some "b") = all.take limit) ∧ all.length ≤ 3) ∧
      (Node.open? primitives params {} cut : Option (Except Fault (Node VolatileStore Watcher))) ≠
        none := by
  obtain ⟨-, hfinite, -, hopen⟩ := Node.reading_ends_iff (ω := Watcher) cut
  obtain ⟨all, hitems, hbound⟩ := hfinite "b" ends_cut.not_circles
  refine ⟨⟨all, hitems, hbound ["a", "b"] fun j h hread => ?_⟩, fun hnone => ?_⟩
  · have hsome := VolatileStore.header_eq_ok_iff.mp hread
    have hkey : j ∈ cut.headers.keys := by
      by_contra hnot
      rw [Table.get?_eq_none_iff.mpr hnot] at hsome
      cases hsome
    exact hkey
  · obtain ⟨last, hlast, hcircles⟩ := (hopen primitives params {}).mp hnone
    cases hlast
    exact ends_cut.not_circles hcircles

/-- One header that names itself is found again and again, and no node can ever be opened over the
store. -/
theorem reading_never_ends :
    circular.headers.size = 1 ∧
      (∀ limit, (Walk.items circular limit (some "a")).length = limit) ∧
      (Node.open? primitives params {} circular :
        Option (Except Fault (Node VolatileStore Watcher))) = none := by
  have hcircles : Walk.Circles circular "a" :=
    ⟨"a", .refl, .single ⟨link "a" 0, rfl, rfl, rfl⟩⟩
  refine ⟨rfl, fun limit => ?_, Node.open?_eq_none_iff.mpr ⟨"a", rfl, hcircles⟩⟩
  obtain ⟨es, hes, hlen⟩ := hcircles.items_eq limit
  rw [hes, List.length_map, hlen]

end Sample

namespace Node

variable {σ ω : Type} [Storage σ]

/-- Where the walk back over a store ends, whatever else lies in the store, a reconstruction ends
too. If it succeeds, the node has read a chain that holds together; it fails if the walk stops at a
fault, or a header does not stand at its place, or one of the bodies in front of the first missing
one cannot be applied. After a failure the node takes nothing until a reconstruction succeeds. -/
theorem reconstruct?_of_walked [Storage.Lawful σ] [Observer ω] {n : Node σ ω}
    {found : List (String × Header)} {r : Option Fault} (hwalked : Walked n.store found r) :
    ∃ m result, n.reconstruct? = some (m, result) ∧
      (result = .ok () → ∃ chain bodies, m.Reread found.reverse chain bodies) ∧
      (∀ f, r = some f → result = .error f) ∧
      (∀ front e back, found.reverse = front ++ e :: back →
        e.2.height.toNat ≠ front.length → ∃ f, result = .error f) ∧
      (∀ front back bodies f, found.reverse = front ++ back → Bodies n.store front bodies →
        bodies.foldlM UtxoSet.apply UtxoSet.empty = .error f → ∃ f, result = .error f) ∧
      ∀ f, result = .error f → ∀ m', Unmended m m' → m.Shut m' ∧ m'.Refuses := by
  have hrebuild := rebuild?_of_walked (n := { n with status := .reconstructing }) hwalked
  rcases hgather : gather n.store found r with ⟨utxos, f | chain⟩
  · -- The gathering fails, and with it the reconstruction.
    refine ⟨{ n with utxos := utxos, status := .uninitialized }, .error f, ?_, ?_, ?_, ?_, ?_, ?_⟩
    · rw [reconstruct?, hrebuild]
      simp only [hgather]
      rfl
    · exact fun hok => (by cases hok)
    · rintro g rfl
      cases hgather
      rfl
    · exact fun _ _ _ _ _ => ⟨f, rfl⟩
    · exact fun _ _ _ _ _ _ _ => ⟨f, rfl⟩
    · intro _ _ m' hunmended
      have hshut := hunmended.shut rfl
      exact ⟨hshut, refuses_of_status hshut.admits⟩
  · -- A chain is gathered, so none of the faults is there.
    obtain ⟨rfl, hplaces, hreplay⟩ := gather_eq_ok_iff.mp hgather
    obtain ⟨bodies, hreread⟩ := reread_withChain hwalked hplaces hreplay
    refine ⟨{ n.withChain chain with utxos := utxos, status := .ready }, .ok (), ?_, ?_, ?_, ?_, ?_,
      ?_⟩
    · rw [reconstruct?, hrebuild]
      simp only [hgather]
      rfl
    · exact fun _ => ⟨chain, bodies, hreread⟩
    · exact fun f hf => (by cases hf)
    · intro front e back hsplit hmisplaced
      obtain ⟨f, hf⟩ := checkPlaces_of_misplaced hmisplaced
      rw [hsplit, hf] at hplaces
      cases hplaces
    · intro front back bodies f hsplit hbodies hfails
      obtain ⟨utxos', hf⟩ := replay_of_unappliable hbodies hfails back
      rw [hsplit, hf] at hreplay
      cases hreplay
    · exact fun f hf => (by cases hf)

end Node

namespace Sample

/-- A header that does not stand at its place. -/
def misplaced : VolatileStore := stored [("a", link "" 1)] []

/-- A chain of one block that lies under the empty text. -/
def nameless : VolatileStore := stored [("", link "" 0)] [⟨link "" 0, [], ""⟩]

/-- A node reads the first of two headers if the second one has no body. Over a header out of place
it fails, and then it takes no block. -/
theorem reconstruct?_of_cut :
    (∃ m, { node with store := cut }.reconstruct? = some (m, .ok ()) ∧ m.height = 1 ∧
      m.lastBlockHash = some "a" ∧
      ∃ chain bodies, m.Reread [("a", link "" 0), ("b", link "a" 1)] chain bodies) ∧
    ∃ m f, { node with store := misplaced }.reconstruct? = some (m, .error f) ∧
      ∀ b, (m.addBlock b).2 = .error (.consistency (.notAdmitting .uninitialized)) := by
  constructor
  · obtain ⟨m, result, hread, hok, -⟩ :=
      Node.reconstruct?_of_walked (n := { node with store := cut }) (.back rfl ends_cut)
    cases hread
    exact ⟨_, rfl, rfl, rfl, hok rfl⟩
  · obtain ⟨m, result, hread, -, -, -, -, hrefuses⟩ :=
      Node.reconstruct?_of_walked (n := { node with store := misplaced })
        (.back rfl (.first rfl rfl))
    cases hread
    exact ⟨_, _, rfl, fun b => congrArg Prod.snd ((hrefuses _ rfl _ .start).2.1 b)⟩

/-- Over a block that lies under the empty text a node has the height one and no last hash. -/
theorem no_last_hash_of_nameless :
    ∃ m : Node VolatileStore Watcher,
      Node.open? primitives params {} nameless = some (.ok m) ∧ m.height = 1 ∧
        m.header? "" = some (link "" 0) ∧ m.lastBlockHash = none :=
  ⟨_, rfl, rfl, rfl, rfl⟩

end Sample

end PowLedger
