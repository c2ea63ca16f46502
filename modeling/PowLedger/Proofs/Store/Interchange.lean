import Mathlib.Data.List.Forall2
import Mathlib.Tactic.Common
import Mathlib.Tactic.Lemma
import PowLedger.Proofs.Store.Law
import PowLedger.Store.Walk

/-!
# The two kinds of store are interchangeable

Whoever uses a store sees it through its answers only. A `Client` holds a store and the places that
its walks have come to, and does one `StoreStep` after the other; walks go on between writes, and a
store may be closed and opened again at any step. Fed the same steps, a durable and a volatile store
answer alike, `stores_interchangeable`: the same values, and where one finds nothing so does the
other.

The proof is a simulation. Each tree of the durable store mirrors a table of the volatile one and
the pointers beside it, `Mirrors`: entries lie there in stored form, pointers as the bytes of their
targets. One write is the same operation on either tree, so `Mirrors.write` is proved once and
serves headers and bodies.
-/

namespace PowLedger

/-! ### The pointers of each tree -/

namespace Pointer

/-- The pointers that lie between the headers. -/
def ofHeaders : List Pointer :=
  [.lastHeader, .lastBlockHash, .firstHeader]

/-- The pointers that lie between the bodies. -/
def ofBlocks : List Pointer :=
  [.lastBlock, .firstBlock]

/-- Pointers are told apart by their keys. -/
lemma key_injective : Function.Injective DurableStore.pointerKey := by
  intro p q h
  have hname : p.name = q.name := Utf8.encode_injective h
  revert hname
  cases p <;> cases q <;> decide

end Pointer

/-! ### Using a store -/

/-- Something that is asked of a store from outside. -/
inductive StoreStep where
  | persistHeader (hash : String) (h : Header)
  | persistBlock (b : Block)
  | lastHeader
  | lastBlock
  | genesisHeader
  | genesisBlock
  | header (hash : String)
  | block (hash : String)
  | lastBlockHash
  /-- Sets out on a further walk. -/
  | walk (hash : String)
  /-- Takes the walk with a number one step on. -/
  | next (number : Nat)
  /-- Closes the store and opens it again. -/
  | reopen

/-- What a store answers when it does not fail. -/
inductive Reading where
  | done
  | header (h : Header)
  | block (b : Block)
  | hash (hash : String)
  /-- A header that a walk came to. -/
  | entry (e : String × Header)
  /-- The walk is over. -/
  | over
  deriving DecidableEq

/-- A store, and for each of its walks the hash to go on with. -/
structure Client (σ : Type) where
  store : σ
  walks : List (Option String)

namespace Client

variable {σ : Type}

/-- A client of a store that has not set out on a walk. -/
def of (store : σ) : Client σ :=
  ⟨store, []⟩

variable [Storage σ]

/-- The client after a write that came out. -/
def written (c : Client σ) (result : Except Fault σ) : Except Fault Reading × Client σ :=
  match result with
  | .ok t => (.ok .done, { c with store := t })
  | .error f => (.error f, c)

/-- One step: the answer, and the client after it. -/
def perform (reopen : σ → σ) (c : Client σ) : StoreStep → Except Fault Reading × Client σ
  | .persistHeader hash h => c.written (Storage.persistHeader c.store hash h)
  | .persistBlock b => c.written (Storage.persistBlock c.store b)
  | .lastHeader => ((Storage.lastHeader c.store).map .header, c)
  | .lastBlock => ((Storage.lastBlock c.store).map .block, c)
  | .genesisHeader => ((Storage.genesisHeader c.store).map .header, c)
  | .genesisBlock => ((Storage.genesisBlock c.store).map .block, c)
  | .header hash => ((Storage.header c.store hash).map .header, c)
  | .block hash => ((Storage.block c.store hash).map .block, c)
  | .lastBlockHash => ((Storage.lastBlockHash c.store).map .hash, c)
  | .walk hash => (.ok .done, { c with walks := c.walks ++ [some hash] })
  | .next number =>
    match c.walks[number]? with
    | some (some hash) =>
      let found := Walk.step c.store hash
      (found.1.map .entry, { c with walks := c.walks.set number found.2 })
    | _ => (.ok .over, c)
  | .reopen => (.ok .done, { c with store := reopen c.store })

/-- The answers to one step after the other. -/
def answers (reopen : σ → σ) (c : Client σ) : List StoreStep → List (Except Fault Reading)
  | [] => []
  | step :: steps => (c.perform reopen step).1 :: answers reopen (c.perform reopen step).2 steps

end Client

/-- Two answers are alike: the same value, or nothing found on either side, in whatever words. -/
inductive Alike {α : Type} : Except Fault α → Except Fault α → Prop
  | value (a : α) : Alike (.ok a) (.ok a)
  | absent (m m' : Missing) : Alike (.error (.notFound m)) (.error (.notFound m'))

namespace Alike

variable {α β : Type} {r r' : Except Fault α}

/-- Alike answers stay alike under one function of their values. -/
lemma map (f : α → β) (h : Alike r r') : Alike (r.map f) (r'.map f) := by
  cases h with
  | value a => exact .value (f a)
  | absent m m' => exact .absent m m'

/-- Alike answers that are followed up alike. -/
lemma bind {f g : α → Except Fault β} (h : Alike r r')
    (hnext : ∀ a, r' = .ok a → Alike (f a) (g a)) : Alike (r >>= f) (r' >>= g) := by
  cases h with
  | value a => exact hnext a rfl
  | absent m m' => exact .absent m m'

end Alike

/-- The hashes of the step are no pointer's name, and what it writes fits into memory. -/
def StoreStep.Proper : StoreStep → Prop
  | .persistHeader hash h => EntryName hash ∧ EntryName h.previous ∧ h.Fits
  | .persistBlock b => EntryName b.hash ∧ b.Fits
  | .header hash | .block hash | .walk hash => EntryName hash
  | _ => True

instance : DecidablePred EntryName := fun hash =>
  decidable_of_iff (∀ p ∈ Pointer.ofHeaders ++ Pointer.ofBlocks, hash ≠ p.name)
    ⟨fun h p => h p (by cases p <;> decide), fun h p _ => h p⟩

instance : DecidablePred StoreStep.Proper
  | .persistHeader hash h =>
    inferInstanceAs (Decidable (EntryName hash ∧ EntryName h.previous ∧ h.Fits))
  | .persistBlock b => inferInstanceAs (Decidable (EntryName b.hash ∧ b.Fits))
  | .header hash | .block hash | .walk hash => inferInstanceAs (Decidable (EntryName hash))
  | .lastHeader | .lastBlock | .genesisHeader | .genesisBlock | .lastBlockHash | .next _
  | .reopen => inferInstanceAs (Decidable True)

/-- The trees of a store are the same maps after it was closed and opened again. -/
structure DurableStore.Survives (reopen : DurableStore → DurableStore) : Prop where
  headers : ∀ s key, (reopen s).headers.get? key = s.headers.get? key
  blocks : ∀ s key, (reopen s).blocks.get? key = s.blocks.get? key

/-! ### A tree that mirrors a table -/

/-- The tree holds each entry of the table in stored form, and at the key of each of the pointers
the hash that it leads to. What the table holds can be read back from its stored form. -/
structure Mirrors {α : Type} (encode : α → Bytes) (Sound : α → Prop) (pointers : List Pointer)
    (t : ByteTree) (entries : Table String α) (target : Pointer → Option String) : Prop where
  entry : ∀ hash, EntryName hash →
    t.get? (Utf8.encode hash) = (entries.get? hash).map encode
  sound : ∀ hash a, entries.get? hash = some a → Sound a
  pointer : ∀ p ∈ pointers, t.get? (DurableStore.pointerKey p) = (target p).map Utf8.encode
  named : ∀ p ∈ pointers, ∀ hash, target p = some hash → EntryName hash

namespace Mirrors

variable {α : Type} {encode : α → Bytes} {Sound : α → Prop} {pointers : List Pointer}
  {t : ByteTree} {entries : Table String α} {target : Pointer → Option String}

/-- Nothing mirrors nothing. -/
lemma empty : Mirrors encode Sound pointers Table.empty Table.empty fun _ => none where
  entry _ _ := rfl
  sound _ _ h := by cases h
  pointer _ _ := rfl
  named _ _ _ h := by cases h

/-- An entry written with its pointers is the entry put into the table and the pointers set. -/
lemma write (h : Mirrors encode Sound pointers t entries target) {hash : String} {a : α}
    (hname : EntryName hash) (ha : Sound a) (written : List Pointer) :
    Mirrors encode Sound pointers (DurableStore.writeEntry t hash (encode a) written)
      (entries.insert hash a) (fun p => if p ∈ written then some hash else target p) where
  entry k hk := by
    rw [Table.get?_insert]
    by_cases heq : hash = k
    · subst heq
      rw [DurableStore.get?_writeEntry hname, if_pos rfl, Option.map_some]
    · rw [DurableStore.get?_writeEntry_of_ne hk (Ne.symm heq), if_neg heq, h.entry k hk]
  sound k b hb := by
    rw [Table.get?_insert] at hb
    split at hb
    · cases hb
      exact ha
    · exact h.sound k b hb
  pointer p hp := by
    have hmem : DurableStore.pointerKey p ∈ written.map DurableStore.pointerKey ↔ p ∈ written :=
      List.mem_map_of_injective Pointer.key_injective
    have hother : Utf8.encode hash ≠ DurableStore.pointerKey p :=
      fun heq => hname p (Utf8.encode_injective heq)
    rw [DurableStore.writeEntry, DurableStore.get?_foldl_pointers, Table.get?_insert,
      if_neg hother]
    by_cases hw : p ∈ written
    · rw [if_pos (hmem.mpr hw), if_pos hw, Option.map_some]
    · rw [if_neg (mt hmem.mp hw), if_neg hw, h.pointer p hp]
  named p hp k hk := by
    split at hk
    · cases hk
      exact hname
    · exact h.named p hp k hk

/-- The mirror depends on what the tree answers only. -/
lemma of_get?_eq (h : Mirrors encode Sound pointers t entries target) {u : ByteTree}
    (heq : ∀ key, u.get? key = t.get? key) : Mirrors encode Sound pointers u entries target where
  entry hash hname := (heq _).trans (h.entry hash hname)
  sound := h.sound
  pointer p hp := (heq _).trans (h.pointer p hp)
  named := h.named

/-- The mirror depends on where the pointers of the tree lead only. -/
lemma congr (h : Mirrors encode Sound pointers t entries target)
    {target' : Pointer → Option String} (heq : ∀ p ∈ pointers, target p = target' p) :
    Mirrors encode Sound pointers t entries target' where
  entry := h.entry
  sound := h.sound
  pointer p hp := heq p hp ▸ h.pointer p hp
  named p hp := heq p hp ▸ h.named p hp

/-- A pointer is followed to the same hash on both sides, or leads nowhere on both. The volatile
store reports another name for one of its pointers. -/
lemma follow_alike (h : Mirrors encode Sound pointers t entries target) {p : Pointer}
    (hp : p ∈ pointers) (q : Pointer) :
    Alike (DurableStore.follow t p) (VolatileStore.follow q (target p)) := by
  rw [DurableStore.follow, h.pointer p hp]
  cases target p with
  | none => exact .absent _ _
  | some hash =>
    simp only [Option.map_some, Utf8.decode_encode]
    exact .value hash

/-- The target of a pointer that was followed is the hash of an entry. -/
lemma named_of_follow (h : Mirrors encode Sound pointers t entries target) {p q : Pointer}
    (hp : p ∈ pointers) {hash : String} (hfollow : VolatileStore.follow q (target p) = .ok hash) :
    EntryName hash := by
  cases htarget : target p with
  | none =>
    rw [htarget] at hfollow
    cases hfollow
  | some k =>
    rw [htarget] at hfollow
    cases hfollow
    exact h.named p hp _ htarget

end Mirrors

/-! ### A durable store that mirrors a volatile one -/

namespace VolatileStore

/-- Where a pointer leads; the pointers to the last header and to its hash are one. -/
def target (s : VolatileStore) : Pointer → Option String
  | .lastHeader | .lastBlockHash => s.lastHeader
  | .firstHeader => s.firstHeader
  | .lastBlock => s.lastBlock
  | .firstBlock => s.firstBlock

end VolatileStore

/-- A header that walks and readers can handle. -/
def Header.Readable (h : Header) : Prop :=
  EntryName h.previous ∧ h.Fits

/-- Both trees of the durable store mirror the tables of the volatile one. -/
structure DurableStore.Models (d : DurableStore) (v : VolatileStore) : Prop where
  headers :
    Mirrors Codec.encodeHeader Header.Readable Pointer.ofHeaders d.headers v.headers v.target
  blocks : Mirrors Codec.encodeBlock Block.Fits Pointer.ofBlocks d.blocks v.blocks v.target

namespace DurableStore.Models

variable {d : DurableStore} {v : VolatileStore}

/-- The empty stores. -/
lemma empty : DurableStore.empty.Models VolatileStore.empty := by
  have htarget : VolatileStore.empty.target = fun _ => none := by
    funext p
    cases p <;> rfl
  refine ⟨?_, ?_⟩
  · rw [htarget]
    exact Mirrors.empty
  · rw [htarget]
    exact Mirrors.empty

/-- A header is written on both sides. -/
lemma persistHeader (m : d.Models v) {hash : String} {h : Header} (hname : EntryName hash)
    (hprevious : EntryName h.previous) (hfits : h.Fits) :
    (d.persistHeader hash h).Models (v.persistHeader hash h) where
  headers := by
    refine (m.headers.write hname ⟨hprevious, hfits⟩ _).congr fun p hp => ?_
    revert hp
    cases p <;> cases hgenesis : h.isGenesis <;>
      simp [Pointer.ofHeaders, VolatileStore.target, VolatileStore.persistHeader, hgenesis]
  blocks := by
    refine m.blocks.congr fun p hp => ?_
    revert hp
    cases p <;> simp [Pointer.ofBlocks, VolatileStore.target, VolatileStore.persistHeader]

/-- A body is written on both sides. -/
lemma persistBlock (m : d.Models v) {b : Block} (hname : EntryName b.hash) (hfits : b.Fits) :
    (d.persistBlock b).Models (v.persistBlock b) where
  headers := by
    refine m.headers.congr fun p hp => ?_
    revert hp
    cases p <;> simp [Pointer.ofHeaders, VolatileStore.target, VolatileStore.persistBlock]
  blocks := by
    refine (m.blocks.write hname hfits _).congr fun p hp => ?_
    revert hp
    cases p <;> cases hgenesis : b.isGenesis <;>
      simp [Pointer.ofBlocks, VolatileStore.target, VolatileStore.persistBlock, hgenesis]

/-- A store that was closed and opened again. -/
lemma reopen (m : d.Models v) {reopen : DurableStore → DurableStore}
    (hsurvives : DurableStore.Survives reopen) : (reopen d).Models v where
  headers := m.headers.of_get?_eq (hsurvives.headers d)
  blocks := m.blocks.of_get?_eq (hsurvives.blocks d)

/-- A header under its hash. -/
lemma header_alike (m : d.Models v) {hash : String} (hname : EntryName hash) :
    Alike (d.header hash) (v.header hash) := by
  rw [DurableStore.header, VolatileStore.header, m.headers.entry hash hname]
  cases hfound : v.headers.get? hash with
  | none => exact .absent _ _
  | some h =>
    have hreads := Codec.reads_encodeHeader (m.headers.sound _ _ hfound).2
    simp only [Option.map_some, read_of_reads hreads]
    exact .value h

/-- A body under its hash. -/
lemma block_alike (m : d.Models v) {hash : String} (hname : EntryName hash) :
    Alike (d.block hash) (v.block hash) := by
  rw [DurableStore.block, VolatileStore.block, m.blocks.entry hash hname]
  cases hfound : v.blocks.get? hash with
  | none => exact .absent _ _
  | some b =>
    simp only [Option.map_some, read_of_reads (Codec.reads_encodeBlock (m.blocks.sound _ _ hfound))]
    exact .value b

/-- The header that a pointer leads to. -/
lemma follow_header_alike (m : d.Models v) {p : Pointer} (hp : p ∈ Pointer.ofHeaders)
    (q : Pointer) :
    Alike (DurableStore.follow d.headers p >>= d.header)
      (VolatileStore.follow q (v.target p) >>= v.header) :=
  (m.headers.follow_alike hp q).bind fun _ hfollow =>
    m.header_alike (m.headers.named_of_follow hp hfollow)

/-- The body that a pointer leads to. -/
lemma follow_block_alike (m : d.Models v) {p : Pointer} (hp : p ∈ Pointer.ofBlocks)
    (q : Pointer) :
    Alike (DurableStore.follow d.blocks p >>= d.block)
      (VolatileStore.follow q (v.target p) >>= v.block) :=
  (m.blocks.follow_alike hp q).bind fun _ hfollow =>
    m.block_alike (m.blocks.named_of_follow hp hfollow)

/-- One step of a walk comes to alike headers and goes on with the same hash, which again is the
name of no pointer. -/
lemma step_alike (m : d.Models v) {hash : String} (hname : EntryName hash) :
    Alike (Walk.step d hash).1 (Walk.step v hash).1 ∧
      (Walk.step d hash).2 = (Walk.step v hash).2 ∧
      ∀ k, (Walk.step v hash).2 = some k → EntryName k := by
  have halike : Alike (Storage.header d hash) (Storage.header v hash) := m.header_alike hname
  have hreadable : ∀ h, Storage.header v hash = .ok h → h.Readable :=
    fun h hfound => m.headers.sound hash h (VolatileStore.header_eq_ok_iff.mp hfound)
  unfold Walk.step
  generalize Storage.header d hash = found at halike
  generalize Storage.header v hash = found' at halike hreadable
  cases halike with
  | absent missing missing' => exact ⟨.absent missing missing', rfl, by simp⟩
  | value h =>
    refine ⟨.value (hash, h), rfl, fun k hk => ?_⟩
    obtain ⟨-, rfl⟩ : ¬h.isGenesis = true ∧ h.previous = k := by simpa using hk
    exact (hreadable h rfl).1

end DurableStore.Models

/-! ### Clients side by side -/

/-- Clients of two stores of which one models the other, with their walks at the same hashes. -/
structure Client.Abreast (c : Client DurableStore) (c' : Client VolatileStore) : Prop where
  store : c.store.Models c'.store
  walks : c.walks = c'.walks
  named : ∀ hash, some hash ∈ c'.walks → EntryName hash

namespace Client.Abreast

variable {c : Client DurableStore} {c' : Client VolatileStore}
  {reopen : DurableStore → DurableStore}

/-- One step is answered alike and leaves the clients abreast. -/
lemma perform (h : c.Abreast c') (hsurvives : DurableStore.Survives reopen) {step : StoreStep}
    (hproper : step.Proper) :
    Alike (c.perform reopen step).1 (c'.perform id step).1 ∧
      (c.perform reopen step).2.Abreast (c'.perform id step).2 := by
  have hm := h.store
  cases step with
  | persistHeader hash header =>
    obtain ⟨hname, hprevious, hfits⟩ := hproper
    exact ⟨.value _, hm.persistHeader hname hprevious hfits, h.walks, h.named⟩
  | persistBlock b =>
    exact ⟨.value _, hm.persistBlock hproper.1 hproper.2, h.walks, h.named⟩
  | lastHeader =>
    exact ⟨(hm.follow_header_alike (p := .lastHeader) (by decide) .lastBlockHash).map _, h⟩
  | lastBlock => exact ⟨(hm.follow_block_alike (p := .lastBlock) (by decide) .lastBlock).map _, h⟩
  | genesisHeader =>
    exact ⟨(hm.follow_header_alike (p := .firstHeader) (by decide) .firstHeader).map _, h⟩
  | genesisBlock =>
    exact ⟨(hm.follow_block_alike (p := .firstBlock) (by decide) .firstBlock).map _, h⟩
  | header hash => exact ⟨(hm.header_alike hproper).map _, h⟩
  | block hash => exact ⟨(hm.block_alike hproper).map _, h⟩
  | lastBlockHash =>
    exact ⟨(hm.headers.follow_alike (p := .lastBlockHash) (by decide) .lastBlockHash).map _, h⟩
  | walk hash =>
    refine ⟨.value _, hm, congrArg (· ++ [some hash]) h.walks, fun k hk => ?_⟩
    rcases List.mem_append.mp hk with hold | hnew
    · exact h.named k hold
    · obtain rfl : k = hash := by simpa using hnew
      exact hproper
  | next number =>
    simp only [Client.perform, h.walks]
    split
    · next hash hwalk =>
      have hname := h.named hash (List.mem_of_getElem? hwalk)
      obtain ⟨halike, hnext, hnamed⟩ := hm.step_alike hname
      refine ⟨halike.map _, hm, by rw [hnext], fun k hk => ?_⟩
      rcases List.mem_or_eq_of_mem_set hk with hold | hnew
      · exact h.named k hold
      · exact hnamed k hnew.symm
    · exact ⟨.value _, hm, h.walks, h.named⟩
  | reopen => exact ⟨.value _, hm.reopen hsurvives, h.walks, h.named⟩

/-- So is one step after the other. -/
lemma answers (h : c.Abreast c') (hsurvives : DurableStore.Survives reopen)
    {steps : List StoreStep} (hproper : ∀ step ∈ steps, step.Proper) :
    List.Forall₂ Alike (c.answers reopen steps) (c'.answers id steps) := by
  induction steps generalizing c c' with
  | nil => exact .nil
  | cons step steps ih =>
    obtain ⟨halike, hnext⟩ := h.perform hsurvives (hproper step List.mem_cons_self)
    exact .cons halike (ih hnext fun s hs => hproper s (List.mem_cons_of_mem _ hs))

end Client.Abreast

/-- A durable and a volatile store that start empty answer every sequence of steps alike, however
often the durable one is closed and opened again on the way. -/
theorem stores_interchangeable {reopen : DurableStore → DurableStore}
    (hsurvives : DurableStore.Survives reopen) {steps : List StoreStep}
    (hproper : ∀ step ∈ steps, step.Proper) :
    List.Forall₂ Alike ((Client.of DurableStore.empty).answers reopen steps)
      ((Client.of VolatileStore.empty).answers id steps) := by
  have hstart : (Client.of DurableStore.empty).Abreast (Client.of VolatileStore.empty) :=
    ⟨.empty, rfl, fun _ hmem => by cases hmem⟩
  exact hstart.answers hsurvives hproper

/-- A header and one that takes its place, a header after it, a body without header, and a walk that
goes on after the store was opened again. -/
def Sample.visits : List StoreStep :=
  let first : Header := ⟨1, "", [1], 0, 0, 4, 0⟩
  let second : Header := ⟨1, "a", [2], 1, -1, 4, 251⟩
  [.lastHeader, .persistHeader "a" first, .persistHeader "b" second, .walk "b", .next 0,
    .persistHeader "a" { first with nonce := 9 }, .persistBlock ⟨second, [], "c"⟩, .reopen,
    .next 0, .next 0, .genesisHeader, .lastBlockHash, .lastBlock, .header "c", .genesisBlock]

/-- The steps of the sample are answered alike; here are the answers of the durable store. -/
theorem stores_interchangeable_of_visits :
    (∀ step ∈ Sample.visits, step.Proper) ∧
    List.Forall₂ Alike ((Client.of DurableStore.empty).answers id Sample.visits)
      ((Client.of VolatileStore.empty).answers id Sample.visits) ∧
    (Client.of DurableStore.empty).answers id Sample.visits =
      [.error (.notFound (.pointer .lastHeader)), .ok .done, .ok .done, .ok .done,
        .ok (.entry ("b", ⟨1, "a", [2], 1, -1, 4, 251⟩)), .ok .done, .ok .done, .ok .done,
        .ok (.entry ("a", ⟨1, "", [1], 0, 0, 4, 9⟩)), .ok .over,
        .ok (.header ⟨1, "", [1], 0, 0, 4, 9⟩), .ok (.hash "a"),
        .ok (.block ⟨⟨1, "a", [2], 1, -1, 4, 251⟩, [], "c"⟩), .error (.notFound (.header "c")),
        .error (.notFound (.pointer .firstBlock))] := by
  have hsurvives : DurableStore.Survives id := ⟨fun _ _ => rfl, fun _ _ => rfl⟩
  have hproper : ∀ step ∈ Sample.visits, step.Proper := by decide +kernel
  exact ⟨hproper, stores_interchangeable hsurvives hproper, by decide +kernel⟩

end PowLedger
