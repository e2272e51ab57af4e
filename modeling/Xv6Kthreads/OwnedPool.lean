import Mathlib.Data.List.Nodup
import Mathlib.Logic.Function.Basic

/-!
# Free lists and owners

Items are handed out from the front of a free list and pushed back there.  The
pool remembers, for the statements, which owner has which item.  An item is
accounted for when it is in exactly one place: once in the free list, or with
one owner.
-/

namespace OwnedPool

open List

structure Pool (Owner Item : Type*) where
  free : List Item
  held : Owner → Option Item

namespace Pool

variable {Owner Item : Type*}

structure Sound (items : Item → Prop) (pool : Pool Owner Item) : Prop where
  nodup : pool.free.Nodup
  separate : ∀ owner item, pool.held owner = some item → item ∉ pool.free
  injective : ∀ first second item, pool.held first = some item →
    pool.held second = some item → first = second
  conserved : ∀ item, items item ↔ item ∈ pool.free ∨ ∃ owner, pool.held owner = some item

variable [DecidableEq Owner] {items : Item → Prop} {pool : Pool Owner Item}

def grant (pool : Pool Owner Item) (owner : Owner) : Pool Owner Item where
  free := pool.free.tail
  held := Function.update pool.held owner pool.free.head?

def release (pool : Pool Owner Item) (owner : Owner) (pointer : Option Item) : Pool Owner Item where
  free := pointer.toList ++ pool.free
  held := Function.update pool.held owner none

/-- The owners of a list release their pointers one after the other. -/
def releaseAll (pool : Pool Owner Item) (pointer : Owner → Option Item)
    (owners : List Owner) : Pool Owner Item :=
  owners.foldl (fun pool owner => pool.release owner (pointer owner)) pool

theorem Sound.grant (sound : pool.Sound items) {owner : Owner} (idle : pool.held owner = none) :
    (pool.grant owner).Sound items := by
  cases free : pool.free with
  | nil =>
    have same : pool.grant owner = pool := by
      cases pool
      simp_all [Pool.grant]
    rwa [same]
  | cons item rest =>
    have nodup := sound.nodup
    rw [free, nodup_cons] at nodup
    have notFree : ∀ other, pool.held other ≠ some item := by
      intro other holds
      exact sound.separate other item holds (by simp [free])
    have split : ∀ other found, (pool.grant owner).held other = some found →
          other = owner ∧ found = item ∨ other ≠ owner ∧ pool.held other = some found := by
      intro other found holds
      rcases eq_or_ne other owner with rfl | same
      · simp only [Pool.grant, free, Function.update_self, head?_cons, Option.some.injEq] at holds
        exact Or.inl ⟨rfl, holds.symm⟩
      · simp only [Pool.grant, Function.update_of_ne same] at holds
        exact Or.inr ⟨same, holds⟩
    refine ⟨?_, ?_, ?_, ?_⟩
    · simpa [Pool.grant, free] using nodup.2
    · intro other found holds
      simp only [Pool.grant, free, tail_cons]
      rcases split other found holds with ⟨-, rfl⟩ | ⟨-, holds⟩
      · exact nodup.1
      · have separate := sound.separate other found holds
        rw [free, mem_cons, not_or] at separate
        exact separate.2
    · intro first second found firstHolds secondHolds
      rcases split first found firstHolds with
        ⟨rfl, rfl⟩ | ⟨-, firstHeld⟩
      · rcases split second found secondHolds with ⟨rfl, -⟩ | ⟨-, holds⟩
        · rfl
        · exact absurd holds (notFree second)
      · rcases split second found secondHolds with
          ⟨-, rfl⟩ | ⟨-, secondHeld⟩
        · exact absurd firstHeld (notFree first)
        · exact sound.injective first second found firstHeld secondHeld
    · intro found
      rw [sound.conserved, free, mem_cons]
      simp only [Pool.grant, free, tail_cons, head?_cons]
      constructor
      · rintro ((rfl | inRest) | ⟨other, holds⟩)
        · exact Or.inr ⟨owner, Function.update_self ..⟩
        · exact Or.inl inRest
        · refine Or.inr ⟨other, ?_⟩
          rw [Function.update_of_ne, holds]
          rintro rfl
          simp [idle] at holds
      · rintro (inRest | ⟨other, holds⟩)
        · exact Or.inl (Or.inr inRest)
        · rcases split other found (by simpa [Pool.grant, free] using holds)
            with ⟨-, rfl⟩ | ⟨-, holds⟩
          · exact Or.inl (Or.inl rfl)
          · exact Or.inr ⟨other, holds⟩

theorem Sound.release (sound : pool.Sound items) (owner : Owner) :
    (pool.release owner (pool.held owner)).Sound items := by
  have split : ∀ other found, (pool.release owner (pool.held owner)).held other = some found →
        other ≠ owner ∧ pool.held other = some found := by
    intro other found holds
    rcases eq_or_ne other owner with rfl | same
    · simp [Pool.release] at holds
    · simp only [Pool.release, Function.update_of_ne same] at holds
      exact ⟨same, holds⟩
  refine ⟨?_, ?_, ?_, ?_⟩
  · cases holds : pool.held owner with
    | none => simpa [Pool.release] using sound.nodup
    | some item => simpa [Pool.release] using ⟨sound.separate owner item holds, sound.nodup⟩
  · intro other found holds
    obtain ⟨differs, holds⟩ := split other found holds
    simp only [Pool.release, mem_append, Option.mem_toList, not_or]
    refine ⟨?_, sound.separate other found holds⟩
    intro held
    exact differs (sound.injective other owner found holds held)
  · intro first second found firstHolds secondHolds
    exact sound.injective first second found (split _ _ firstHolds).2 (split _ _ secondHolds).2
  · intro found
    rw [sound.conserved]
    simp only [Pool.release, mem_append, Option.mem_toList]
    constructor
    · rintro (isFree | ⟨other, holds⟩)
      · exact Or.inl (Or.inr isFree)
      · rcases eq_or_ne other owner with rfl | same
        · exact Or.inl (Or.inl holds)
        · exact Or.inr ⟨other, by rw [Function.update_of_ne same, holds]⟩
    · rintro ((held | isFree) | ⟨other, holds⟩)
      · exact Or.inr ⟨owner, held⟩
      · exact Or.inl isFree
      · exact Or.inr ⟨other, (split other found holds).2⟩

theorem releaseAll_held (pointer : Owner → Option Item)
    (owners : List Owner) (pool : Pool Owner Item) (owner : Owner) :
    (pool.releaseAll pointer owners).held owner =
      if owner ∈ owners then none else pool.held owner := by
  induction owners generalizing pool with
  | nil => simp [releaseAll]
  | cons first rest induction =>
    have step : pool.releaseAll pointer (first :: rest) =
        (pool.release first (pointer first)).releaseAll pointer rest :=
      rfl
    rw [step, induction]
    by_cases inRest : owner ∈ rest
    · simp [inRest]
    · by_cases isFirst : owner = first
      · simp [isFirst, Pool.release]
      · simp [isFirst, inRest, Pool.release]

/-- Different owners give back what their pointers say they have. -/
theorem Sound.releaseAll {pointer : Owner → Option Item} {owners : List Owner}
    (sound : pool.Sound items) (distinct : owners.Nodup)
    (exact : ∀ owner ∈ owners, pointer owner = pool.held owner) :
    (pool.releaseAll pointer owners).Sound items := by
  induction owners generalizing pool with
  | nil => exact sound
  | cons first rest induction =>
    rw [nodup_cons] at distinct
    have released := sound.release first
    rw [← exact first mem_cons_self] at released
    apply induction released distinct.2
    intro owner inRest
    have differs : owner ≠ first := by
      rintro rfl
      exact distinct.1 inRest
    rw [exact owner (mem_cons_of_mem _ inRest)]
    simp [Pool.release, differs]

end Pool

end OwnedPool
