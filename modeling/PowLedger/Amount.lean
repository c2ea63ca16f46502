/-!
# Amounts

Values are 64-bit words of base units. Three sums of them are needed: the exact sum, which does not
exist when it leaves the word, the capped sum, which then stays at the greatest word, and the sum
that goes round, which only what is shown is made of. All are described in natural numbers.
-/

namespace PowLedger

/-- A number of base units. -/
abbrev Amount := UInt64

namespace Amount

/-- The greatest amount. -/
def top : Amount := 0xffffffffffffffff

/-- The exact sum, if it is an amount. -/
def add? (a b : Amount) : Option Amount :=
  if a.toNat + b.toNat < UInt64.size then some (a + b) else none

/-- The sum, capped at the greatest amount. -/
def addCapped (a b : Amount) : Amount :=
  if a.toNat + b.toNat < UInt64.size then a + b else top

/-- The exact sum of a list added to `acc`, if every sum on the way is an amount. -/
def sumFrom? (acc : Amount) : List Amount → Option Amount
  | [] => some acc
  | a :: rest =>
    match add? acc a with
    | none => none
    | some acc => sumFrom? acc rest

/-- The exact sum of a list, if it is an amount. -/
def sum? (l : List Amount) : Option Amount :=
  sumFrom? 0 l

/-- The sum of a list, which goes round when it leaves the word. -/
def sumRound (l : List Amount) : Amount :=
  l.foldl (· + ·) 0

/-- The exact sum as a natural number. -/
def total : List Amount → Nat
  | [] => 0
  | a :: rest => a.toNat + total rest

theorem toNat_add_of_lt {a b : Amount} (h : a.toNat + b.toNat < UInt64.size) :
    (a + b).toNat = a.toNat + b.toNat := by
  rw [UInt64.toNat_add]
  exact Nat.mod_eq_of_lt h

theorem toNat_addCapped (a b : Amount) :
    (addCapped a b).toNat = min (a.toNat + b.toNat) (UInt64.size - 1) := by
  unfold addCapped
  split
  · next h =>
    rw [toNat_add_of_lt h]
    omega
  · next h =>
    have htop : top.toNat = UInt64.size - 1 := rfl
    omega

theorem sumFrom?_eq_some_iff {acc : Amount} {l : List Amount} {s : Amount} :
    sumFrom? acc l = some s ↔ s.toNat = acc.toNat + total l := by
  induction l generalizing acc with
  | nil =>
    simp only [sumFrom?, total, Nat.add_zero, Option.some.injEq]
    exact ⟨fun h => h ▸ rfl, fun h => UInt64.toNat_inj.mp h.symm⟩
  | cons a rest ih =>
    have hs : s.toNat < UInt64.size := s.toNat_lt
    simp only [sumFrom?, add?, total] at ih ⊢
    by_cases h : acc.toNat + a.toNat < UInt64.size
    · simp only [h, if_true, ih, toNat_add_of_lt h]
      omega
    · simp only [h, if_false, reduceCtorEq, false_iff]
      omega

/-- The exact sum of a list exists just when it fits, and then it is the sum. -/
theorem sum?_eq_some_iff {l : List Amount} {s : Amount} :
    sum? l = some s ↔ s.toNat = total l := by
  simp [sum?, sumFrom?_eq_some_iff]

/-- The sum that goes round is the exact sum but for whole rounds. -/
theorem toNat_sumRound (l : List Amount) : (sumRound l).toNat = total l % UInt64.size := by
  have hfrom : ∀ (acc : Amount) (l : List Amount),
      (l.foldl (· + ·) acc).toNat = (acc.toNat + total l) % UInt64.size := by
    intro acc l
    induction l generalizing acc with
    | nil => exact (Nat.mod_eq_of_lt acc.toNat_lt).symm
    | cons a rest ih =>
      rw [List.foldl_cons, ih, UInt64.toNat_add, total, ← Nat.add_assoc]
      exact Nat.mod_add_mod ..
  exact (hfrom 0 l).trans (by rw [UInt64.toNat_zero, Nat.zero_add])

end Amount

end PowLedger
