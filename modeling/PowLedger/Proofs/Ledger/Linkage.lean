import Mathlib.Data.List.Induction
import Mathlib.Data.List.Nodup
import Mathlib.Data.List.Sort
import Mathlib.Tactic.Common
import Mathlib.Tactic.Lemma
import PowLedger.Proofs.Collision
import PowLedger.Proofs.Ledger.Assembly
import PowLedger.Proofs.Rules.Verdict
import PowLedger.Proofs.Table
import PowLedger.Store.Walk

/-!
# Chains of headers

What the headers of a chain are to each other does not depend on the transactions. A list of headers
is `Ledger.Linked` if the judge accepts each of them at the tip above those before it. Then they
have the heights of their places, so no two of them have the same assembled bytes, and without
collisions no two have the same hash. A table of such headers, sorted by height, is the list again,
and a walk back from the last of them finds all of them.
-/

namespace PowLedger

/-! ### Headers under their hashes -/

namespace Header

/-- A header under its hash. -/
def entry (digest : Hasher) (h : Header) : String × Header :=
  (h.hash digest, h)

/-- A hash is a text of one digit or more, if no digest is empty. -/
lemma hash_ne_empty {digest : Hasher} (hdigest : ∀ m, digest m ≠ []) (h : Header) :
    h.hash digest ≠ "" :=
  Bytes.hex_ne_empty (hdigest _)

/-- The entries of headers lie under their hashes. -/
lemma map_fst_entry (digest : Hasher) (hs : List Header) :
    (hs.map (entry digest)).map Prod.fst = hs.map (hash digest) := by
  rw [List.map_map]
  rfl

end Header

namespace Ledger

/-- The tip above a list of headers. -/
def headTip (digest : Hasher) (hs : List Header) : Tip :=
  ⟨(hs.getLast?.map (Header.hash digest)).getD "", hs.length⟩

/-- Headers under their hashes. -/
def headTable (digest : Hasher) (hs : List Header) : Table String Header :=
  (hs.map (Header.entry digest)).foldl (fun t e => t.insert e.1 e.2) Table.empty

lemma headTip_append (digest : Hasher) (hs : List Header) (h : Header) :
    headTip digest (hs ++ [h]) = ⟨h.hash digest, hs.length + 1⟩ := by
  simp [headTip]

lemma headTable_append (digest : Hasher) (hs : List Header) (h : Header) :
    headTable digest (hs ++ [h]) = (headTable digest hs).insert (h.hash digest) h := by
  simp [headTable, Header.entry]

/-- The hash of a tip above headers is empty just when there are none. -/
lemma headTip_hash_eq_empty_iff {digest : Hasher} (hdigest : ∀ m, digest m ≠ [])
    {hs : List Header} : (headTip digest hs).hash = "" ↔ hs = [] := by
  induction hs using List.reverseRecOn with
  | nil => exact ⟨fun _ => rfl, fun _ => rfl⟩
  | append_singleton hs h =>
    rw [headTip_append]
    simp [Header.hash_ne_empty hdigest h]

/-! ### Linked lists -/

/-- Each header was accepted by the judge when those before it were the chain. -/
inductive Linked (j : Judge) : List Header → Prop
  | nil : Linked j []
  | snoc {hs : List Header} {h : Header} : Linked j hs →
      j.checkHeader h (headTip j.digest hs) = .ok () → Linked j (hs ++ [h])

variable {j : Judge} {hs older newer : List Header} {h : Header}

/-- The last of several linked headers, and those before it. -/
lemma Linked.last (hlinked : Linked j (hs ++ [h])) :
    Linked j hs ∧ j.checkHeader h (headTip j.digest hs) = .ok () := by
  generalize hlist : hs ++ [h] = list at hlinked
  cases hlinked with
  | nil => simp at hlist
  | snoc hbefore hok =>
    obtain ⟨rfl, hh⟩ := List.append_inj' hlist rfl
    cases hh
    exact ⟨hbefore, hok⟩

/-- The first of several linked headers are linked. -/
lemma Linked.front (hlinked : Linked j (older ++ newer)) : Linked j older := by
  induction newer using List.reverseRecOn with
  | nil => rwa [List.append_nil] at hlinked
  | append_singleton newer h ih =>
    rw [← List.append_assoc] at hlinked
    exact ih hlinked.last.1

/-- Each of several linked headers was accepted at the tip above those before it. -/
lemma Linked.verdict (hlinked : Linked j (older ++ h :: newer)) :
    h.previous = (headTip j.digest older).hash ∧ h.height.toNat = older.length ∧
      h.target = j.target ∧ h.hasWork j.digest = true := by
  have hmiddle : Linked j (older ++ [h] ++ newer) := by simpa using hlinked
  exact Judge.checkHeader_eq_ok_iff.mp hmiddle.front.last.2

/-- Each linked header names the hash of the one before it. -/
theorem Linked.previous_eq (hlinked : Linked j hs) {i : Nat} (hi : i + 1 < hs.length) :
    hs[i + 1].previous = hs[i].hash j.digest := by
  have hsplit : hs = hs.take (i + 1) ++ hs[i + 1] :: hs.drop (i + 2) := by
    rw [← List.drop_eq_getElem_cons hi, List.take_append_drop]
  have hprevious := (hsplit ▸ hlinked : Linked j _).verdict.1
  rw [hprevious, List.take_succ_eq_append_getElem (Nat.lt_of_succ_lt hi), headTip_append]

/-- The heights of linked headers are those of their places. -/
theorem Linked.map_height (hlinked : Linked j hs) :
    hs.map (fun h => h.height.toNat) = List.range hs.length := by
  induction hs using List.reverseRecOn with
  | nil => rfl
  | append_singleton hs h ih =>
    rw [List.map_append, ih hlinked.front, List.length_append, List.length_singleton,
      List.range_succ, List.map_singleton, hlinked.verdict.2.1]

/-- Without collisions linked headers have different hashes. -/
theorem Linked.nodup_hashes (hlinked : Linked j hs)
    (hfree : CollisionFree j.digest (hs.map Header.assemble)) :
    (hs.map (Header.hash j.digest)).Nodup := by
  have hheights : (hs.map fun h => h.height.toNat).Nodup := by
    rw [hlinked.map_height]
    exact List.nodup_range
  have hassembled : (hs.map Header.assemble).Nodup := by
    refine List.Nodup.map_on (fun h hh k hk heq => ?_) hheights.of_map
    have hagrees : h.Agrees k := Header.assemble_eq_iff_agrees.mp heq
    exact List.inj_on_of_nodup_map hheights hh hk (congrArg UInt64.toNat hagrees.height)
  have hhashes := (hfree.nodup_map (List.Subset.refl _) hassembled).map Bytes.hex_injective
  rwa [List.map_map, List.map_map] at hhashes

/-! ### Tables of linked headers -/

/-- The entries of a table of headers with different hashes are the headers in order. -/
lemma entries_headTable {digest : Hasher} (hnodup : (hs.map (Header.hash digest)).Nodup) :
    (headTable digest hs).entries = hs.map (Header.entry digest) := by
  rw [headTable, Table.entries_foldl_insert]
  · rfl
  · rw [← Header.map_fst_entry] at hnodup
    exact hnodup

/-- A header with a hash of its own is found under this hash, and nothing else is found. -/
lemma get?_headTable_eq_some_iff {digest : Hasher}
    (hnodup : (hs.map (Header.hash digest)).Nodup) {hash : String} :
    (headTable digest hs).get? hash = some h ↔ h ∈ hs ∧ hash = h.hash digest := by
  rw [headTable, Table.get?_foldl_insert_eq_some_iff (Header.map_fst_entry digest hs ▸ hnodup),
    Table.get?_empty]
  simp only [Header.entry, List.mem_map, Prod.mk.injEq, reduceCtorEq, and_false, or_false]
  constructor
  · rintro ⟨k, hk, rfl, rfl⟩
    exact ⟨hk, rfl⟩
  · rintro ⟨hh, rfl⟩
    exact ⟨h, hh, rfl, rfl⟩

/-- Headers with the heights of their places stand in the order of their heights. -/
lemma mergeSort_eq_of_heights (h : hs.map (·.height.toNat) = List.range hs.length) :
    (hs.mergeSort fun a b => a.height ≤ b.height) = hs := by
  have hrange : (hs.map (·.height.toNat)).Pairwise (· < ·) := h ▸ List.pairwise_lt_range
  refine List.mergeSort_of_pairwise ((List.pairwise_map.mp hrange).imp fun {h k} hlt => ?_)
  exact decide_eq_true (UInt64.le_iff_toNat_le.mpr (Nat.le_of_lt hlt))

/-- So do linked headers. -/
lemma Linked.mergeSort_eq (hlinked : Linked j hs) :
    (hs.mergeSort fun a b => a.height ≤ b.height) = hs :=
  mergeSort_eq_of_heights hlinked.map_height

/-- The headers of a table of linked headers, sorted by their heights, are the headers in order. -/
lemma Linked.mergeSort_values (hlinked : Linked j hs)
    (hnodup : (hs.map (Header.hash j.digest)).Nodup) :
    ((headTable j.digest hs).values.mergeSort fun a b => a.height ≤ b.height) = hs := by
  have hvalues : (headTable j.digest hs).values = hs := by
    rw [Table.values, entries_headTable hnodup, List.map_map]
    exact List.map_id _
  rw [hvalues, hlinked.mergeSort_eq]

/-- Of linked headers those from a height on are the ones behind as many others. -/
lemma Linked.filter_height (hlinked : Linked j hs) (floor : Nat) :
    hs.filter (fun h => floor ≤ h.height.toNat) = hs.drop floor := by
  induction hs using List.reverseRecOn with
  | nil => rw [List.filter_nil, List.drop_nil]
  | append_singleton hs h ih =>
    have hplace : h.height.toNat = hs.length := hlinked.verdict.2.1
    rw [List.filter_append, ih hlinked.front, List.drop_append, List.filter_singleton, hplace]
    by_cases hle : floor ≤ hs.length
    · simp [hle]
    · have hall : [h].drop (floor - hs.length) = [] :=
        List.drop_of_length_le (by rw [List.length_singleton]; omega)
      simp [hle, hall]

end Ledger

/-! ### Linked headers in a store -/

section Walk

variable {σ : Type} [Storage σ] {store : σ} {j : Judge} {hs : List Header}

/-- From the tip above linked headers the walk back finds all of them, newest first. -/
theorem Walk.collect_headTip (hlinked : Ledger.Linked j hs) (hdigest : ∀ m, j.digest m ≠ [])
    (hheaders : ∀ h ∈ hs, Storage.header store (h.hash j.digest) = .ok h) (hne : hs ≠ [])
    {limit : Nat} (hlimit : hs.length ≤ limit) :
    Walk.collect store limit (some (Ledger.headTip j.digest hs).hash) =
      some (.ok (hs.reverse.map (Header.entry j.digest))) := by
  induction hs using List.reverseRecOn generalizing limit with
  | nil => exact absurd rfl hne
  | append_singleton front h ih =>
    have hlast : Storage.header store (h.hash j.digest) = .ok h := hheaders h (by simp)
    have hprevious := hlinked.verdict.1
    obtain ⟨limit, rfl⟩ : ∃ m, limit = m + 1 :=
      Nat.exists_eq_add_one.mpr (Nat.lt_of_lt_of_le (by simp) hlimit)
    have hgenesis : h.isGenesis = true ↔ front = [] := by
      rw [Header.isGenesis, beq_iff_eq, hprevious]
      exact Ledger.headTip_hash_eq_empty_iff hdigest
    have hstep : Walk.step store (h.hash j.digest) = (.ok (h.entry j.digest),
        if h.isGenesis then none else some (Ledger.headTip j.digest front).hash) := by
      rw [Walk.step, hlast, ← hprevious]
      rfl
    rw [Ledger.headTip_append, Walk.collect, hstep, List.reverse_concat, List.map_cons]
    by_cases hfirst : front = []
    · subst hfirst
      simp only [hgenesis.mpr rfl, if_true, Walk.collect]
      rfl
    · have hrest : Walk.collect store limit (some (Ledger.headTip j.digest front).hash) =
          some (.ok (front.reverse.map (Header.entry j.digest))) :=
        ih hlinked.front (fun k hk => hheaders k (List.mem_append_left _ hk)) hfirst
          (by simpa using hlimit)
      simp only [hgenesis, hfirst, if_false, hrest]
      rfl

end Walk

end PowLedger
