import Mathlib.Data.List.Nodup
import Mathlib.Tactic.Common
import Mathlib.Tactic.Lemma
import PowLedger.Proofs.Codec.RoundTrip
import PowLedger.Proofs.Table
import PowLedger.Store.Backend

/-!
# What a store owes a node

`Storage.Lawful` says what an operation of a store does when it does not fail: a written header or
body can be read back, a header becomes the last one, and all other entries stay. The laws are about
entries that lie under the name of no pointer, `EntryName`, since a durable store keeps its pointers
between its entries. Both kinds of store keep them, and neither ever refuses a body,
`Storage.Reliable`, or a header, `Storage.Unfailing`. The pointer to the last header, by which a
header is read without knowing its hash, has laws of its own, `Storage.Pointed`. A store that is
made to fail passes on what it does not refuse.
-/

namespace PowLedger

/-! ### Names -/

/-- The hash is not the name of a pointer. -/
def EntryName (hash : String) : Prop :=
  ∀ p : Pointer, hash ≠ p.name

/-- A hexadecimal text is the name of no pointer: all of these have an underscore. -/
lemma entryName_hex (bs : Bytes) : EntryName bs.hex := by
  intro p heq
  have hname : '_' ∈ bs.hex.toList := by
    rw [heq]
    cases p <;> decide
  rw [Bytes.toList_hex] at hname
  obtain ⟨b, -, hpair⟩ := List.mem_flatMap.mp hname
  have hdigit : ∀ n < 16, '_' ≠ Bytes.hexDigit n := by decide
  have hbyte : b.toNat < 256 := b.toNat_lt
  simp only [Bytes.hexPair, List.mem_cons, List.not_mem_nil, or_false] at hpair
  rcases hpair with hhigh | hlow
  · exact hdigit _ (by omega) hhigh
  · exact hdigit _ (by omega) hlow

/-! ### The laws -/

namespace Storage

/-- What a store does when it does not fail. -/
class Lawful (σ : Type) [Storage σ] : Prop where
  /-- A written header can be read back. -/
  header_persistHeader {s t : σ} {hash : String} {h : Header} :
    persistHeader s hash h = .ok t → EntryName hash → h.Fits → header t hash = .ok h
  /-- The header written last is the last one. -/
  lastBlockHash_persistHeader {s t : σ} {hash : String} {h : Header} :
    persistHeader s hash h = .ok t → lastBlockHash t = .ok hash
  header_persistHeader_of_ne {s t : σ} {hash k : String} {h : Header} :
    persistHeader s hash h = .ok t → EntryName k → k ≠ hash → header t k = header s k
  block_persistHeader {s t : σ} {hash : String} {h : Header} (k : String) :
    persistHeader s hash h = .ok t → block t k = block s k
  /-- A written body can be read back. -/
  block_persistBlock {s t : σ} {b : Block} :
    persistBlock s b = .ok t → EntryName b.hash → b.Fits → block t b.hash = .ok b
  block_persistBlock_of_ne {s t : σ} {b : Block} {k : String} :
    persistBlock s b = .ok t → EntryName k → k ≠ b.hash → block t k = block s k
  header_persistBlock {s t : σ} {b : Block} (k : String) :
    persistBlock s b = .ok t → header t k = header s k
  lastBlockHash_persistBlock {s t : σ} {b : Block} :
    persistBlock s b = .ok t → lastBlockHash t = lastBlockHash s
  /-- There are no more headers than the bound says. -/
  length_le_headerBound {s : σ} {hashes : List String} :
    hashes.Nodup → (∀ k ∈ hashes, ∃ h, header s k = .ok h) → hashes.length ≤ headerBound s

/-- A lawful store that refuses no body. -/
class Reliable (σ : Type) [Storage σ] : Prop extends Lawful σ where
  persistBlock_ok (s : σ) (b : Block) : ∃ t, persistBlock s b = .ok t

/-- A lawful store that refuses neither bodies nor headers. -/
class Unfailing (σ : Type) [Storage σ] : Prop extends Reliable σ where
  persistHeader_ok (s : σ) (hash : String) (h : Header) : ∃ t, persistHeader s hash h = .ok t

/-- A lawful store that finds the header written last without its hash. -/
class Pointed (σ : Type) [Storage σ] : Prop extends Lawful σ where
  lastHeader_persistHeader {s t : σ} {hash : String} {h : Header} :
    persistHeader s hash h = .ok t → EntryName hash → h.Fits → lastHeader t = .ok h
  lastHeader_persistBlock {s t : σ} {b : Block} :
    persistBlock s b = .ok t → lastHeader t = lastHeader s

end Storage

/-! ### The volatile store -/

namespace VolatileStore

lemma header_eq_ok_iff {s : VolatileStore} {hash : String} {h : Header} :
    s.header hash = .ok h ↔ s.headers.get? hash = some h := by
  rw [header]
  cases s.headers.get? hash <;> simp

instance : Storage.Lawful VolatileStore where
  header_persistHeader := by
    intro s t hash h hok _ _
    cases hok
    exact header_eq_ok_iff.mpr (by simp [persistHeader, Table.get?_insert])
  lastBlockHash_persistHeader := by
    intro s t hash h hok
    cases hok
    rfl
  header_persistHeader_of_ne := by
    intro s t hash k h hok _ hne
    cases hok
    show (s.persistHeader hash h).header k = s.header k
    rw [header, header, persistHeader, Table.get?_insert, if_neg (Ne.symm hne)]
  block_persistHeader := by
    intro s t hash h k hok
    cases hok
    rfl
  block_persistBlock := by
    intro s t b hok _ _
    cases hok
    show (s.persistBlock b).block b.hash = .ok b
    rw [block, persistBlock, Table.get?_insert, if_pos rfl]
  block_persistBlock_of_ne := by
    intro s t b k hok _ hne
    cases hok
    show (s.persistBlock b).block k = s.block k
    rw [block, block, persistBlock, Table.get?_insert, if_neg (Ne.symm hne)]
  header_persistBlock := by
    intro s t b k hok
    cases hok
    rfl
  lastBlockHash_persistBlock := by
    intro s t b hok
    cases hok
    rfl
  length_le_headerBound := by
    intro s hashes hnodup h
    refine Table.length_le_size hnodup fun k hk hnone => ?_
    obtain ⟨header, hheader⟩ := h k hk
    rw [header_eq_ok_iff.mp hheader] at hnone
    cases hnone

instance : Storage.Reliable VolatileStore where
  persistBlock_ok s b := ⟨s.persistBlock b, rfl⟩

instance : Storage.Unfailing VolatileStore where
  persistHeader_ok s hash h := ⟨s.persistHeader hash h, rfl⟩

instance : Storage.Pointed VolatileStore where
  lastHeader_persistHeader := by
    intro s t hash h hok hname hfits
    have hread := Storage.Lawful.header_persistHeader hok hname hfits
    cases hok
    exact hread
  lastHeader_persistBlock := by
    intro s t b hok
    cases hok
    rfl

end VolatileStore

/-! ### The durable store -/

namespace DurableStore

/-- The look-up after a list of pointers to one key. -/
lemma get?_foldl_pointers (t : ByteTree) (key : Bytes) (pointers : List Pointer) (k : Bytes) :
    (pointers.foldl (fun t p => t.insert (pointerKey p) key) t).get? k =
      if k ∈ pointers.map pointerKey then some key else t.get? k := by
  induction pointers generalizing t with
  | nil => simp
  | cons p pointers ih =>
    rw [List.foldl_cons, ih, Table.get?_insert]
    by_cases hk : k ∈ pointers.map pointerKey
    · simp [hk]
    · by_cases hp : pointerKey p = k
      · simp [hp]
      · simp [hk, hp, Ne.symm hp]

/-- An entry lies apart from the pointers. -/
lemma notMem_map_pointerKey {hash : String} (h : EntryName hash) (pointers : List Pointer) :
    Utf8.encode hash ∉ pointers.map pointerKey := by
  intro hmem
  obtain ⟨p, -, hp⟩ := List.mem_map.mp hmem
  exact h p (Utf8.encode_injective hp.symm)

variable {t : ByteTree} {hash k : String} {value : Bytes} {pointers : List Pointer}

/-- A written entry is found. -/
lemma get?_writeEntry (h : EntryName hash) :
    (writeEntry t hash value pointers).get? (Utf8.encode hash) = some value := by
  rw [writeEntry, get?_foldl_pointers, if_neg (notMem_map_pointerKey h pointers),
    Table.get?_insert, if_pos rfl]

/-- Writing an entry leaves all others. -/
lemma get?_writeEntry_of_ne (h : EntryName k) (hne : k ≠ hash) :
    (writeEntry t hash value pointers).get? (Utf8.encode k) = t.get? (Utf8.encode k) := by
  have hkey : Utf8.encode hash ≠ Utf8.encode k := fun heq => hne (Utf8.encode_injective heq).symm
  rw [writeEntry, get?_foldl_pointers, if_neg (notMem_map_pointerKey h pointers),
    Table.get?_insert, if_neg hkey]

/-- The pointers written with an entry lead to it. -/
lemma follow_writeEntry {p : Pointer} (hp : p ∈ pointers) :
    follow (writeEntry t hash value pointers) p = .ok hash := by
  rw [follow, writeEntry, get?_foldl_pointers, if_pos (List.mem_map_of_mem hp)]
  simp only [Utf8.decode_encode]

/-- What a decoder reads off a stored form can be read from the store. -/
lemma read_of_reads {α : Type} {d : Decoder α} {bs : Bytes} {a : α} (h : d.Reads bs a) :
    read d bs = .ok a := by
  rw [read, h.value]

instance : Storage.Lawful DurableStore where
  header_persistHeader := by
    intro s t hash h hok hname hfits
    cases hok
    show (s.persistHeader hash h).header hash = .ok h
    rw [header, persistHeader, get?_writeEntry hname]
    exact read_of_reads (Codec.reads_encodeHeader hfits)
  lastBlockHash_persistHeader := by
    intro s t hash h hok
    cases hok
    refine follow_writeEntry ?_
    split <;> simp
  header_persistHeader_of_ne := by
    intro s t hash k h hok hname hne
    cases hok
    show (s.persistHeader hash h).header k = s.header k
    rw [header, header, persistHeader, get?_writeEntry_of_ne hname hne]
  block_persistHeader := by
    intro s t hash h k hok
    cases hok
    rfl
  block_persistBlock := by
    intro s t b hok hname hfits
    cases hok
    show (s.persistBlock b).block b.hash = .ok b
    rw [block, persistBlock, get?_writeEntry hname]
    exact read_of_reads (Codec.reads_encodeBlock hfits)
  block_persistBlock_of_ne := by
    intro s t b k hok hname hne
    cases hok
    show (s.persistBlock b).block k = s.block k
    rw [block, block, persistBlock, get?_writeEntry_of_ne hname hne]
  header_persistBlock := by
    intro s t b k hok
    cases hok
    rfl
  lastBlockHash_persistBlock := by
    intro s t b hok
    cases hok
    rfl
  length_le_headerBound := by
    intro s hashes hnodup h
    rw [← List.length_map Utf8.encode]
    refine Table.length_le_size (hnodup.map Utf8.encode_injective) fun key hkey hnone => ?_
    obtain ⟨k, hk, rfl⟩ := List.mem_map.mp hkey
    obtain ⟨h, hheader⟩ := h k hk
    have hfound : s.header k = .ok h := hheader
    rw [header, hnone] at hfound
    cases hfound

instance : Storage.Reliable DurableStore where
  persistBlock_ok s b := ⟨s.persistBlock b, rfl⟩

instance : Storage.Unfailing DurableStore where
  persistHeader_ok s hash h := ⟨s.persistHeader hash h, rfl⟩

instance : Storage.Pointed DurableStore where
  lastHeader_persistHeader := by
    intro s t hash h hok hname hfits
    have hread := Storage.Lawful.header_persistHeader hok hname hfits
    cases hok
    have hpointer : follow (s.persistHeader hash h).headers .lastHeader = .ok hash := by
      refine follow_writeEntry ?_
      split <;> simp
    show follow (s.persistHeader hash h).headers .lastHeader >>= _ = _
    rw [hpointer]
    exact hread
  lastHeader_persistBlock := by
    intro s t b hok
    cases hok
    rfl

end DurableStore

/-! ### Stores that fail -/

namespace Faulty

variable {σ : Type}

/-- No operation that reads is made to fail. -/
structure Readable (s : Faulty σ) : Prop where
  header : s.faults .header = none
  block : s.faults .block = none
  lastBlockHash : s.faults .lastBlockHash = none

/-- A store that works can be read. -/
lemma readable_sound (s : σ) : (sound s).Readable where
  header := rfl
  block := rfl
  lastBlockHash := rfl

variable {s t : Faulty σ}

/-- Whether a store can be read depends on its faults only. -/
lemma Readable.of_faults_eq (h : s.Readable) (hfaults : t.faults = s.faults) : t.Readable where
  header := hfaults ▸ h.header
  block := hfaults ▸ h.block
  lastBlockHash := hfaults ▸ h.lastBlockHash

/-- A fault in writing leaves a store readable. -/
lemma Readable.setFault (h : s.Readable) {call : StoreCall} (fault : Option Fault)
    (hcall : call = .persistHeader ∨ call = .persistBlock) : (s.setFault call fault).Readable := by
  rcases hcall with rfl | rfl
  · exact ⟨h.header, h.block, h.lastBlockHash⟩
  · exact ⟨h.header, h.block, h.lastBlockHash⟩

/-- What does not fail is done by the wrapped store, under the same faults. -/
lemma guarded_rewrap_eq_ok {call : StoreCall} {r : Except Fault σ}
    (h : s.guarded call (s.rewrap r) = .ok t) : t.faults = s.faults ∧ r = .ok t.store := by
  rw [guarded] at h
  cases hfault : s.faults call with
  | some f => simp [hfault] at h
  | none =>
    rw [hfault] at h
    cases r with
    | error f => cases h
    | ok w =>
      cases h
      exact ⟨rfl, rfl⟩

/-- What the wrapped store does and what is not made to fail is done, under the same faults. -/
lemma guarded_rewrap_of_ok {call : StoreCall} {inner : σ} (hfault : s.faults call = none) :
    s.guarded call (s.rewrap (.ok inner)) = .ok { s with store := inner } := by
  rw [guarded, hfault]
  rfl

variable [Storage σ]

lemma Readable.header_eq (h : s.Readable) (k : String) :
    Storage.header s k = Storage.header s.store k := by
  show s.guarded .header (Storage.header s.store k) = _
  rw [guarded, h.header]

lemma Readable.block_eq (h : s.Readable) (k : String) :
    Storage.block s k = Storage.block s.store k := by
  show s.guarded .block (Storage.block s.store k) = _
  rw [guarded, h.block]

lemma Readable.lastBlockHash_eq (h : s.Readable) :
    Storage.lastBlockHash s = Storage.lastBlockHash s.store := by
  show s.guarded .lastBlockHash (Storage.lastBlockHash s.store) = _
  rw [guarded, h.lastBlockHash]

/-- A written header is in the wrapped store. -/
lemma persistHeader_eq_ok {hash : String} {x : Header}
    (h : Storage.persistHeader s hash x = .ok t) :
    t.faults = s.faults ∧ Storage.persistHeader s.store hash x = .ok t.store :=
  guarded_rewrap_eq_ok h

/-- A written body is in the wrapped store. -/
lemma persistBlock_eq_ok {b : Block} (h : Storage.persistBlock s b = .ok t) :
    t.faults = s.faults ∧ Storage.persistBlock s.store b = .ok t.store :=
  guarded_rewrap_eq_ok h

end Faulty

end PowLedger
