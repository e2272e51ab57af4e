import Mathlib.Data.List.Basic

/-!
# Finite maps in numbered slots

A table of slots, each of which is empty or holds a key with a value, is a
finite map as long as no key is in two of them.  A key is added by filling an
empty slot or the one behind the last, and it is removed by emptying its slot.
-/

namespace Xv6Kthreads

namespace SlotMap

structure Table (K V : Type) where
  slots : Nat → Option (K × V)
  count : Nat

namespace Table

variable {K V : Type} {table after : Table K V} {key : K} {value : V} {slot : Nat}

def Distinct (table : Table K V) : Prop :=
  ∀ i j key v w, i < table.count → j < table.count →
    table.slots i = some (key, v) → table.slots j = some (key, w) → i = j

structure Puts (slot : Nat) (entry : Option (K × V)) (table after : Table K V) : Prop where
  here : after.slots slot = entry
  rest : ∀ i, i ≠ slot → after.slots i = table.slots i
  count : after.count = max table.count (slot + 1)
  inside : slot ≤ table.count

variable [DecidableEq K]

def lookup (table : Table K V) (key : K) : Option V :=
  (List.range table.count).findSome? fun i =>
    (table.slots i).bind fun entry =>
      if entry.1 = key then some entry.2 else none

theorem exists_of_lookup (found : table.lookup key = some value) :
    ∃ i < table.count, table.slots i = some (key, value) := by
  obtain ⟨i, inside, holds⟩ := List.exists_of_findSome?_eq_some found
  refine ⟨i, List.mem_range.mp inside, ?_⟩
  obtain ⟨⟨other, v⟩, isEntry, matching⟩ := Option.bind_eq_some_iff.mp holds
  split at matching <;> cases matching
  next same => rw [isEntry, ← same]

theorem lookup_eq_none_iff : table.lookup key = none ↔
    ∀ i < table.count, ∀ v, table.slots i ≠ some (key, v) := by
  constructor
  · intro absent i inside v isEntry
    have notHere := List.findSome?_eq_none_iff.mp absent i (List.mem_range.mpr inside)
    simp [isEntry] at notHere
  · intro absent
    cases found : table.lookup key with
    | none => rfl
    | some v =>
      obtain ⟨i, inside, isEntry⟩ := exists_of_lookup found
      exact absurd isEntry (absent i inside v)

theorem Distinct.lookup_eq_some_iff (distinct : table.Distinct) : table.lookup key = some value ↔
      ∃ i < table.count, table.slots i = some (key, value) := by
  refine ⟨exists_of_lookup, ?_⟩
  rintro ⟨i, inside, isEntry⟩
  cases found : table.lookup key with
  | none => exact absurd isEntry (lookup_eq_none_iff.mp found i inside value)
  | some v =>
    obtain ⟨j, alsoInside, isOther⟩ := exists_of_lookup found
    cases distinct i j key value v inside alsoInside isEntry isOther
    rw [isEntry] at isOther
    cases isOther
    rfl

/-- Tables without repeated keys agree on a key that is in the same slots. -/
theorem Distinct.lookup_congr (distinct : table.Distinct) (stillDistinct : after.Distinct)
    (same : ∀ i v, i < after.count ∧ after.slots i = some (key, v) ↔
      i < table.count ∧ table.slots i = some (key, v)) :
    after.lookup key = table.lookup key := by
  apply Option.ext
  intro v
  rw [stillDistinct.lookup_eq_some_iff, distinct.lookup_eq_some_iff]
  exact exists_congr fun i => same i v

theorem Puts.insert (puts : Puts slot (some (key, value)) table after)
    (empty : slot < table.count → table.slots slot = none)
    (distinct : table.Distinct) (absent : table.lookup key = none) :
    after.Distinct ∧ after.lookup key = some value ∧
      ∀ other, other ≠ key → after.lookup other = table.lookup other := by
  obtain ⟨here, rest, count, inside⟩ := puts
  have old : ∀ i, i < after.count → i ≠ slot → i < table.count := by omega
  have noKey := lookup_eq_none_iff.mp absent
  have stillDistinct : after.Distinct := by
    intro i j k v w first second isEntry isOther
    by_cases isNew : i = slot
    · by_cases alsoNew : j = slot
      · rw [isNew, alsoNew]
      · rw [isNew, here] at isEntry
        cases isEntry
        rw [rest j alsoNew] at isOther
        exact absurd isOther (noKey j (old j second alsoNew) w)
    · rw [rest i isNew] at isEntry
      by_cases alsoNew : j = slot
      · rw [alsoNew, here] at isOther
        cases isOther
        exact absurd isEntry (noKey i (old i first isNew) v)
      · rw [rest j alsoNew] at isOther
        exact distinct i j k v w (old i first isNew) (old j second alsoNew) isEntry isOther
  refine ⟨stillDistinct, stillDistinct.lookup_eq_some_iff.mpr
    ⟨slot, by omega, here⟩, fun other differs =>
      distinct.lookup_congr stillDistinct ?_⟩
  intro i v
  by_cases isNew : i = slot
  · rw [isNew, here]
    constructor
    · rintro ⟨_, isEntry⟩
      cases isEntry
      exact absurd rfl differs
    · rintro ⟨before, isEntry⟩
      rw [empty before] at isEntry
      cases isEntry
  · rw [rest i isNew]
    exact and_congr_left fun _ => ⟨fun below => old i below isNew, by omega⟩

theorem Puts.erase (puts : Puts slot none table after) (inside : slot < table.count)
    (isEntry : table.slots slot = some (key, value)) (distinct : table.Distinct) :
    after.Distinct ∧ after.lookup key = none ∧
      ∀ other, other ≠ key → after.lookup other = table.lookup other := by
  obtain ⟨here, rest, count, _⟩ := puts
  have size : after.count = table.count := by omega
  have entries : ∀ i entry, after.slots i = some entry ↔ i ≠ slot ∧ table.slots i = some entry := by
    intro i entry
    by_cases isHere : i = slot
    · simp [isHere, here]
    · simp [isHere, rest i isHere]
  have stillDistinct : after.Distinct := by
    intro i j k v w first second isFirst isSecond
    rw [size] at first second
    exact distinct i j k v w first second ((entries ..).mp isFirst).2 ((entries ..).mp isSecond).2
  refine ⟨stillDistinct, lookup_eq_none_iff.mpr ?_, fun other differs =>
    distinct.lookup_congr stillDistinct ?_⟩
  · intro i below v remains
    obtain ⟨differs, isOther⟩ := (entries ..).mp remains
    rw [size] at below
    exact differs (distinct i slot key v value below inside isOther isEntry)
  · intro i v
    rw [size, entries]
    refine and_congr_right fun _ => ⟨And.right, fun isOther => ⟨?_, isOther⟩⟩
    rintro rfl
    rw [isEntry] at isOther
    cases isOther
    exact differs rfl

end Table

end SlotMap

end Xv6Kthreads
