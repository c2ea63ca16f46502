import Mathlib.Tactic.Common
import Mathlib.Tactic.Lemma
import PowLedger.Proofs.Node.Rebuild
import PowLedger.Proofs.Store.Law

/-!
# What a store remembers

A store outlives the chains that were built over it: it has the headers of all blocks that were ever
taken, also of those that a restart has cut off, and bodies of some of them. `Storage.Archives` says
that it has nothing else under the names of entries. Writing keeps this true, because an entry that
is written again is written as it was: valid blocks with one hash are equal.
-/

namespace PowLedger

/-- A store that knows of no last header and holds no body. -/
structure Storage.IsEmpty {σ : Type} [Storage σ] (store : σ) : Prop where
  fresh : Storage.IsFresh store
  bodies : ∀ hash, NotFound (Storage.block store hash)

/-- A block that could be accepted lies under the name of an entry. -/
lemma Judge.Validates.entryName {j : Judge} {b : Block} (h : j.Validates b) :
    EntryName b.hash := by
  obtain ⟨tip, s, coinbase, others, hvalid⟩ := h
  rw [hvalid.hash]
  exact entryName_hex _

/-- The store has the headers of these blocks, and under the name of an entry it has the body of one
of them or none. -/
structure Storage.Archives {σ : Type} [Storage σ] (store : σ) (j : Judge) (known : List Block) :
    Prop where
  valid : ∀ b ∈ known, j.Validates b
  headers : ∀ b ∈ known, Storage.header store b.hash = .ok b.header
  bodies : ∀ hash, EntryName hash → NotFound (Storage.block store hash) ∨
    ∃ c ∈ known, c.hash = hash ∧ Storage.block store hash = .ok c

namespace Storage.Archives

variable {σ : Type} [Storage σ] {store store' : σ} {j : Judge} {known : List Block} {b : Block}

/-- An empty store remembers nothing. -/
lemma of_isEmpty (h : Storage.IsEmpty store) : Storage.Archives store j [] where
  valid := fun _ hb => nomatch hb
  headers := fun _ hb => nomatch hb
  bodies := fun hash _ => Or.inl (h.bodies hash)

/-- The body of a remembered block is there as it was, or missing. -/
lemma body (h : Storage.Archives store j known) (hdistinct : Ledger.Distinct j known)
    (hb : b ∈ known) :
    Storage.block store b.hash = .ok b ∨ NotFound (Storage.block store b.hash) := by
  have hvalid := h.valid b hb
  rcases h.bodies b.hash hvalid.entryName with hmissing | ⟨c, hc, hhash, hbody⟩
  · exact Or.inr hmissing
  · rw [hdistinct.eq_of_hash_eq hc hb (h.valid c hc) hvalid hhash] at hbody
    exact Or.inl hbody

variable [Storage.Lawful σ]

/-- A store with the header of a valid block remembers that block too. -/
lemma persistHeader (h : Storage.Archives store j known) (hb : j.Validates b)
    (hdistinct : Ledger.Distinct j (known ++ [b]))
    (hok : Storage.persistHeader store b.hash b.header = .ok store') :
    Storage.Archives store' j (known ++ [b]) where
  valid := by
    intro c hc
    rcases List.mem_append.mp hc with hc | hc
    · exact h.valid c hc
    · exact List.mem_singleton.mp hc ▸ hb
  headers := by
    have hself : Storage.header store' b.hash = .ok b.header :=
      Storage.Lawful.header_persistHeader hok hb.entryName
        (hdistinct.fits b (by simp)).header
    intro c hc
    rcases List.mem_append.mp hc with hc | hc
    · have hcvalid := h.valid c hc
      by_cases hhash : c.hash = b.hash
      · -- The header is written over itself.
        rw [hdistinct.eq_of_hash_eq (by simp [hc]) (by simp) hcvalid hb hhash]
        exact hself
      · rw [Storage.Lawful.header_persistHeader_of_ne hok hcvalid.entryName hhash]
        exact h.headers c hc
    · exact List.mem_singleton.mp hc ▸ hself
  bodies := by
    intro hash hname
    rw [Storage.Lawful.block_persistHeader hash hok]
    rcases h.bodies hash hname with hmissing | ⟨c, hc, hhash, hbody⟩
    · exact Or.inl hmissing
    · exact Or.inr ⟨c, List.mem_append_left _ hc, hhash, hbody⟩

/-- A store with the body of a remembered block remembers the same blocks. -/
lemma persistBlock (h : Storage.Archives store j known) (hdistinct : Ledger.Distinct j known)
    (hb : b ∈ known) (hok : Storage.persistBlock store b = .ok store') :
    Storage.Archives store' j known where
  valid := h.valid
  headers := by
    intro c hc
    rw [Storage.Lawful.header_persistBlock c.hash hok]
    exact h.headers c hc
  bodies := by
    intro hash hname
    by_cases hhash : hash = b.hash
    · subst hhash
      exact Or.inr ⟨b, hb, rfl, Storage.Lawful.block_persistBlock hok hname (hdistinct.fits b hb)⟩
    · rw [Storage.Lawful.block_persistBlock_of_ne hok hname hhash]
      exact h.bodies hash hname

/-- A store that was handed the body of a remembered block remembers the same blocks and has the
same last header, whether or not it has refused the body. -/
lemma handBlock {store : Faulty σ} (h : Storage.Archives store.store j known)
    (hdistinct : Ledger.Distinct j known) (hb : b ∈ known) :
    (Storage.handBlock store b).faults = store.faults ∧
      Storage.Archives (Storage.handBlock store b).store j known ∧
      Storage.lastBlockHash (Storage.handBlock store b).store =
        Storage.lastBlockHash store.store := by
  cases hok : Storage.persistBlock store b with
  | error f =>
    have hsame : Storage.handBlock store b = store := by rw [Storage.handBlock, hok]
    rw [hsame]
    exact ⟨rfl, h, rfl⟩
  | ok store' =>
    have hwritten : Storage.handBlock store b = store' := by rw [Storage.handBlock, hok]
    obtain ⟨hfaults, hinner⟩ := Faulty.persistBlock_eq_ok hok
    rw [hwritten]
    exact ⟨hfaults, h.persistBlock hdistinct hb hinner,
      Storage.Lawful.lastBlockHash_persistBlock hinner⟩

/-- The store keeps an accepted chain of remembered blocks if it leads to the last of them. -/
lemma keeps (h : Storage.Archives store j known) (hdistinct : Ledger.Distinct j known)
    {chain : List Block} (haccepted : Ledger.Accepted j chain) (hsub : chain ⊆ known)
    (hstart : chain = [] → NotFound (Storage.lastBlockHash store))
    (hlast : chain ≠ [] → Storage.lastBlockHash store = .ok (Ledger.tip chain).hash) :
    Storage.Keeps store j chain where
  accepted := haccepted
  headers := fun b hb => h.headers b (hsub hb)
  bodies := fun b hb => h.body hdistinct (hsub hb)
  start := hstart
  last := hlast
  bound := by
    rw [← List.length_map Block.hash]
    refine Storage.Lawful.length_le_headerBound
      (haccepted.nodup_hashes (hdistinct.mono hsub)) fun k hk => ?_
    obtain ⟨b, hb, rfl⟩ := List.mem_map.mp hk
    exact ⟨b.header, h.headers b (hsub hb)⟩

end Storage.Archives

/-- A store that takes bodies has that of a block after the header and the block were handed to it;
all other bodies are as before. -/
lemma Faulty.block_handBlock {σ : Type} [Storage σ] [Storage.Reliable σ] {s t : Faulty σ}
    {b : Block} (hreadable : s.Readable) (hbodies : s.faults .persistBlock = none)
    (hpersist : Storage.persistHeader s b.hash b.header = .ok t) (hname : EntryName b.hash)
    (hfits : b.Fits) :
    (Storage.handBlock t b).faults = s.faults ∧
      Storage.block (Storage.handBlock t b) b.hash = .ok b ∧
      ∀ k, EntryName k → k ≠ b.hash →
        Storage.block (Storage.handBlock t b) k = Storage.block s k := by
  obtain ⟨hfaults, hheader⟩ := persistHeader_eq_ok hpersist
  obtain ⟨inner, hinner⟩ := Storage.Reliable.persistBlock_ok t.store b
  have hwrite : Storage.persistBlock t b = .ok { t with store := inner } := by
    show t.guarded .persistBlock (t.rewrap (Storage.persistBlock t.store b)) = _
    rw [hinner, guarded_rewrap_of_ok (hfaults ▸ hbodies)]
  have hhand : Storage.handBlock t b = { t with store := inner } := by
    rw [Storage.handBlock, hwrite]
  have hread : ({ t with store := inner } : Faulty σ).Readable :=
    hreadable.of_faults_eq hfaults
  rw [hhand]
  refine ⟨hfaults, ?_, fun k hk hne => ?_⟩
  · rw [hread.block_eq]
    exact Storage.Lawful.block_persistBlock hinner hname hfits
  · rw [hread.block_eq, hreadable.block_eq, Storage.Lawful.block_persistBlock_of_ne hinner hk hne,
      Storage.Lawful.block_persistHeader k hheader]

/-- A node over a store that takes bodies, on top of whose chain a block goes, has its body; the
bodies of the blocks below are as before. -/
lemma Node.Moves.bodies {σ ω : Type} [Storage σ] [Storage.Reliable σ] {n m : Node (Faulty σ) ω}
    {b : Block} (hmoves : n.Moves (some b) m) (hreadable : n.store.Readable)
    (hbodies : n.store.faults .persistBlock = none) {j : Judge} {front : List Block}
    (haccepted : Ledger.Accepted j (front ++ [b])) (hdistinct : Ledger.Distinct j (front ++ [b])) :
    m.store.faults = n.store.faults ∧ Storage.block m.store b.hash = .ok b ∧
      ∀ c ∈ front, Storage.block m.store c.hash = Storage.block n.store c.hash := by
  have hname : ∀ c ∈ front ++ [b], EntryName c.hash :=
    fun c hc => (haccepted.validates hc).entryName
  have hnew : ∀ c ∈ front, c.hash ≠ b.hash := by
    have hnodup := haccepted.nodup_hashes hdistinct
    rw [List.map_append, List.nodup_append] at hnodup
    exact fun c hc => hnodup.2.2 _ (List.mem_map_of_mem hc) _ (List.mem_singleton_self _)
  cases hmoves with
  | @take _ _ fees committed hok hpersist hwired hledger =>
    have hstore : m.store = Storage.handBlock committed b := congrArg LedgerState.store hledger
    obtain ⟨hfaults, hself, hothers⟩ := Faulty.block_handBlock hreadable hbodies hpersist
      (hname b (by simp)) (hdistinct.fits b (by simp))
    rw [hstore]
    exact ⟨hfaults, hself,
      fun c hc => hothers _ (hname c (List.mem_append_left _ hc)) (hnew c hc)⟩

/-! ### Stores that can be read -/

namespace Faulty.Readable

variable {σ : Type} [Storage σ] {s : Faulty σ} {j : Judge}

/-- A store that can be read holds the bodies that the wrapped store holds. -/
lemma holdsBody_eq (h : s.Readable) : Storage.holdsBody s = Storage.holdsBody s.store := by
  funext b
  rw [Storage.holdsBody, h.block_eq, Storage.holdsBody]

/-- A store that can be read keeps the chain that the wrapped store keeps. -/
lemma keeps (h : s.Readable) {chain : List Block} (hkeeps : Storage.Keeps s.store j chain) :
    Storage.Keeps s j chain where
  accepted := hkeeps.accepted
  headers := fun b hb => (h.header_eq b.hash).trans (hkeeps.headers b hb)
  bodies := fun b hb => h.block_eq b.hash ▸ hkeeps.bodies b hb
  start := fun hempty => h.lastBlockHash_eq ▸ hkeeps.start hempty
  last := fun hne => h.lastBlockHash_eq.trans (hkeeps.last hne)
  bound := hkeeps.bound

end Faulty.Readable

end PowLedger
