import Mathlib.Data.List.Nodup
import Mathlib.Tactic.Common
import Mathlib.Tactic.Lemma
import PowLedger.Transaction.Identity

/-!
# Digests without collision, of fixed size

No digest function is injective. What a ledger relies on is that no two of the byte strings that
were really hashed have one digest, `CollisionFree`. Some facts also need the sizes of digests,
signatures and keys, `Primitives.Sized`; SHA-256 and ECDSA over P-256 have them.
-/

namespace PowLedger

/-- Lists are equal if they agree item by item in something that tells their items apart. -/
lemma eq_of_map_eq {α β : Type} {f : α → β} {as bs : List α}
    (hinj : ∀ a ∈ as, ∀ b ∈ bs, f a = f b → a = b) (h : as.map f = bs.map f) : as = bs := by
  induction as generalizing bs with
  | nil => exact (List.map_eq_nil_iff.mp h.symm).symm
  | cons a as ih =>
    cases bs with
    | nil => cases h
    | cons b bs =>
      rw [List.map_cons, List.map_cons, List.cons.injEq] at h
      rw [hinj a List.mem_cons_self b List.mem_cons_self h.1,
        ih (fun x hx y hy => hinj x (List.mem_cons_of_mem _ hx) y (List.mem_cons_of_mem _ hy)) h.2]

/-! ### Collisions -/

/-- No two of the messages have one digest. -/
def CollisionFree (digest : Hasher) (messages : List Bytes) : Prop :=
  ∀ x ∈ messages, ∀ y ∈ messages, digest x = digest y → x = y

instance (digest : Hasher) (messages : List Bytes) : Decidable (CollisionFree digest messages) :=
  inferInstanceAs (Decidable (∀ x ∈ messages, ∀ y ∈ messages, digest x = digest y → x = y))

namespace CollisionFree

variable {digest : Hasher} {messages : List Bytes}

/-- Fewer messages collide less. -/
lemma mono {fewer : List Bytes} (h : CollisionFree digest messages) (hsub : fewer ⊆ messages) :
    CollisionFree digest fewer :=
  fun x hx y hy => h x (hsub hx) y (hsub hy)

/-- Lists of messages are equal if their digests are. -/
lemma map_inj {as bs : List Bytes} (h : CollisionFree digest messages) (has : as ⊆ messages)
    (hbs : bs ⊆ messages) (heq : as.map digest = bs.map digest) : as = bs :=
  eq_of_map_eq (fun a ha b hb => h a (has ha) b (hbs hb)) heq

/-- A list of messages begins another if its digests do. -/
lemma prefix_of_map {as bs : List Bytes} (h : CollisionFree digest messages) (has : as ⊆ messages)
    (hbs : bs ⊆ messages) (hdigests : as.map digest <+: bs.map digest) : as <+: bs := by
  have htake : as.map digest = (bs.take as.length).map digest := by
    rw [List.map_take]
    simpa using List.prefix_iff_eq_take.mp hdigests
  rw [h.map_inj has (fun m hm => hbs (List.mem_of_mem_take hm)) htake]
  exact List.take_prefix _ _

/-- Messages are among others if their digests are. -/
lemma subset_of_map {as bs : List Bytes} (h : CollisionFree digest messages) (has : as ⊆ messages)
    (hbs : bs ⊆ messages) (hdigests : as.map digest ⊆ bs.map digest) : as ⊆ bs := by
  intro m hm
  obtain ⟨m', hm', hsame⟩ := List.mem_map.mp (hdigests (List.mem_map_of_mem hm))
  rwa [← h m' (hbs hm') m (has hm) hsame]

/-- Different messages have different digests. -/
lemma nodup_map {as : List Bytes} (h : CollisionFree digest messages) (has : as ⊆ messages)
    (hnodup : as.Nodup) : (as.map digest).Nodup :=
  List.Nodup.map_on (fun x hx y hy => h x (has hx) y (has hy)) hnodup

end CollisionFree

/-! ### Sizes -/

/-- Digests have 32 bytes, and only signatures of 64 bytes verify, under keys of 65 bytes. -/
structure Primitives.Sized (p : Primitives) : Prop where
  digest : ∀ message, (p.digest message).length = 32
  verify : ∀ publicKey signature message, p.verify publicKey signature message = true →
    signature.length = 64 ∧ publicKey.length = 65

/-- Digests of 32 bytes are not empty. -/
lemma Primitives.Sized.digest_ne_nil {p : Primitives} (h : p.Sized) (message : Bytes) :
    p.digest message ≠ [] :=
  List.ne_nil_of_length_pos (by rw [h.digest]; decide)

/-- The uncompressed form of a point has 65 bytes. -/
lemma P256.Affine.length_of_ofBytes {bs : Bytes} {p : Affine} (h : ofBytes bs = some p) :
    bs.length = 65 := by
  cases bs with
  | nil => cases h
  | cons mark coordinates =>
    rw [ofBytes] at h
    split at h
    · next hform => simp [hform.2]
    · cases h

/-- SHA-256 and ECDSA over P-256 have the sizes. -/
theorem Primitives.standard_sized : Primitives.standard.Sized where
  digest := length_sha256
  verify publicKey signature message h := by
    change Ecdsa.verify publicKey signature message = true at h
    rw [Ecdsa.verify] at h
    split at h
    · cases h
    · next q hq =>
      split at h
      · next hlen => exact ⟨hlen, P256.Affine.length_of_ofBytes hq⟩
      · cases h

end PowLedger
