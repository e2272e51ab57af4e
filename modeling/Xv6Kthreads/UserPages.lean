import Xv6Kthreads.GrowProcess

/-!
# Exact ranges in `allocuvm` and `deallocuvm`

`deallocuvm` unmaps its range unless it passes pages: where a page table is
missing it goes on at the same place of the next one, and so misses the pages
before that place.  `allocuvm` maps its range to new pages or undoes what it has
done, unless the free list ends between a page and the page table for it: the
failure of `mappages` is not noticed and the page is lost.
-/

namespace Xv6Kthreads

namespace UserPages

open PageTables ThreadSbrk GrowProcess Sections Act

variable {space : Space} {memory : Memory} {oldsz newsz page limit : Nat}

/-- The pages from `newsz` rounded up to `oldsz` are unmapped, the pages behind
them are freed once each, and nothing else is unmapped. -/
structure UnmapsExactly (space : Space) (memory : Memory) (newsz oldsz : Nat)
    (after : Space) (final : Memory) : Prop where
  gone : ∀ page, pageCount newsz ≤ page → page < pageCount oldsz → mapping after page = none
  kept : ∀ page, page < pageCount newsz ∨ pageCount oldsz ≤ page →
    mapping after page = mapping space page
  freed : ∃ freed : List Nat, final.free = freed ++ memory.free ∧ freed.Nodup ∧
    ∀ frame, frame ∈ freed ↔ ∃ page pte, pageCount newsz ≤ page ∧ page < pageCount oldsz ∧
      mapping space page = some pte ∧ pte.frame = frame

/-- No two pages of a range are mapped to the same page. -/
def Separate (space : Space) (page limit : Nat) : Prop :=
  ∀ first second pte other, page ≤ first → first < limit → page ≤ second → second < limit →
    mapping space first = some pte → mapping space second = some other →
      pte.frame = other.frame → first = second

theorem frames_nodup (separate : Separate space page limit) : (frames space page limit).Nodup := by
  rw [frames, List.Nodup, List.pairwise_filterMap]
  refine List.Pairwise.imp_of_mem ?_ List.nodup_range'
  intro first second isFirst isSecond differs frame isFrame _ isOther same
  subst same
  obtain ⟨pte, isMapped, rfl⟩ := Option.map_eq_some_iff.mp isFrame
  obtain ⟨other, isSecondMapped, sameFrame⟩ := Option.map_eq_some_iff.mp isOther
  rw [List.mem_range'_1] at isFirst isSecond
  exact differs (separate first second pte other isFirst.1 (by omega) isSecond.1 (by omega)
    isMapped isSecondMapped sameFrame.symm)

/-- `deallocuvm` unmaps its range exactly if it passes no mapped page of it. -/
theorem deallocuvm_exact_iff (smaller : newsz < oldsz)
    (separate : Separate space (pageCount newsz) (pageCount oldsz))
    (valid : ∀ page pte, pageCount newsz ≤ page → page < pageCount oldsz →
      mapping space page = some pte → Valid memory.kend pte.frame) :
    (∃ after final, deallocuvm space oldsz newsz memory = .done after final ∧
      UnmapsExactly space memory newsz oldsz after final) ↔
    Reached space (pageCount newsz) (pageCount oldsz) := by
  rw [deallocuvm, if_neg (by omega)]
  constructor
  · rintro ⟨after, final, ends, unmaps⟩ page above below isMapped
    by_contra missed
    simp only [not_or, not_exists, not_and, not_le, ne_eq, not_not] at missed
    have same := wp_of_done (wp_deallocLoop_passed _ _ (pageCount newsz) space memory
      (Or.inr ⟨missed.1, missed.2⟩)) ends
    rw [unmaps.gone page above below] at same
    exact isMapped same.symm
  · intro reached
    apply exists_done
    have ordered := pageCount_mono (Nat.le_of_lt smaller)
    refine wp_mono (wp_deallocLoop_unmaps (pageCount oldsz) _ (pageCount newsz) space memory
      (Nat.le_of_eq (Nat.add_sub_cancel' ordered).symm) reached
      fun page pte above below isMapped => Or.inl (valid page pte above below isMapped)) ?_
    intro after final unmaps
    refine ⟨?_, ?_, (frames space (pageCount newsz) (pageCount oldsz)).reverse, unmaps.free,
      List.nodup_reverse.mpr (frames_nodup separate), ?_⟩
    · intro page above below
      rw [unmaps.gone, if_pos ⟨above, below⟩]
    · intro page outside
      rw [unmaps.gone, if_neg (by omega)]
    · intro frame
      rw [List.mem_reverse, mem_frames]

theorem deallocuvm_exact_onePage :
    ∃ after final, deallocuvm onePage.pgdir 4096 0 (memoryOf []) = .done after final ∧
      UnmapsExactly onePage.pgdir (memoryOf []) 0 4096 after final := by
  refine (deallocuvm_exact_iff (by decide) ?_ ?_).mpr (reached_of_table nofun)
  · intro first second pte other _ isFirst _ isSecond
    have : pageCount 4096 = 1 := by decide
    omega
  · intro page pte _ isFirst
    exact ready_onePage.frames page (Nat.lt_trans isFirst (by decide)) pte

/-- Page 1024 is mapped and the first page table is missing. -/
def sparse : Space where
  directory := 2
  table := fun index => if index = 1 then some 3 else none
  entry := fun page => if page = 1024 then some ⟨4, true, true⟩ else none

theorem deallocuvm_passes_page :
    deallocuvm sparse (1025 * 4096) 4096 (memoryOf []) = .done sparse (memoryOf []) ∧
      mapping sparse 1024 = some ⟨4, true, true⟩ ∧ Valid (memoryOf []).kend 4 := by
  refine ⟨?_, rfl, by unfold Valid; decide⟩
  rfl

/-! ## `allocuvm` -/

/-- The pages from `oldsz` rounded up to `newsz` are mapped to pages that were
free, that no other page is mapped to and that are filled with zeros. -/
structure MapsFresh (space : Space) (memory : Memory) (oldsz newsz : Nat)
    (after : Space) (final : Memory) : Prop where
  mapped : ∀ page, pageCount oldsz ≤ page → page < pageCount newsz →
    ∃ frame ∈ memory.free, mapping after page = some ⟨frame, true, true⟩ ∧ frame ∉ final.free ∧
      final.byte frame = fun _ => 0
  distinct : ∀ page other, pageCount oldsz ≤ page → page < pageCount newsz →
    pageCount oldsz ≤ other → other < pageCount newsz →
      mapping after page = mapping after other → page = other
  kept : ∀ page, page < pageCount oldsz ∨ pageCount newsz ≤ page →
    mapping after page = mapping space page

/-- The mappings are as before, and each page is free again but for new page
tables. -/
structure Undone (space : Space) (memory : Memory) (after : Space) (final : Memory) : Prop where
  same : mapping after = mapping space
  back : ∀ frame ∈ memory.free, frame ∈ final.free ∨ NewTable space after frame

/-- `allocuvm` is all or nothing exactly if the free list does not end between a
page and its page table. -/
theorem allocuvm_all_or_nothing_iff (filled : Filled space (pageCount oldsz))
    (grows : oldsz ≤ newsz) (valid : ∀ frame ∈ memory.free, Valid memory.kend frame)
    (nodup : memory.free.Nodup) :
    (∃ result final, allocuvm space oldsz newsz memory = .done result final ∧
      (result.2 = newsz ∨ result.2 = 0) ∧
      (result.2 = newsz → MapsFresh space memory oldsz newsz result.1 final) ∧
      (result.2 = 0 → Undone space memory result.1 final)) ↔
    (newsz < KERNBASE → Fits (present space) memory.free.length
      (pageCount newsz - pageCount oldsz) (pageCount oldsz)) := by
  by_cases large : newsz ≥ KERNBASE
  · refine iff_of_true ?_ (by omega)
    apply exists_done
    rw [allocuvm, if_pos large]
    have positive : newsz ≠ 0 := by
      simp only [KERNBASE] at large
      omega
    exact ⟨Or.inr rfl, fun same => absurd same.symm positive, fun _ => ⟨rfl, fun _ => Or.inl⟩⟩
  have small := Nat.lt_of_not_ge large
  have below := pageCount_le small
  have ordered := pageCount_mono grows
  have unmapped : ∀ page, pageCount oldsz ≤ page → page < pageCount newsz →
      mapping space page = none := by
    intro page above inside
    by_contra isMapped
    exact filled.unmapped page above (by omega) (present_iff_mapping.mpr isMapped)
  obtain ⟨result, final, ends, allocated⟩ :=
    exists_done (wp_allocuvm_exact unmapped valid small grows)
  simp only [ends, small, true_implies]
  constructor
  · rintro ⟨_, _, isEnd, -, mapped, undone⟩
    cases isEnd
    cases allocated with
    | all _ _ _ enough => exact Or.inl enough
    | undone _ _ _ done before stops => exact Or.inr ⟨done, before, stops⟩
    | lastLost size done isLast missing =>
      obtain ⟨frame, -, isMapped, -⟩ := (mapped size).mapped (pageCount oldsz + done)
        (Nat.le_add_right ..) (by omega)
      rw [missing] at isMapped
      cases isMapped
    | lost size same gone =>
      obtain ⟨frame, wasFree, notFree, noTable⟩ := gone nodup
      rcases (undone size).back frame wasFree with isFree | isTable
      · exact absurd isFree notFree
      · exact absurd isTable noTable
  · intro fits
    refine ⟨result, final, rfl, ?_⟩
    cases allocated with
    | all size grown tracked =>
      refine ⟨Or.inl size, fun _ => ⟨?_, (tracked nodup).distinct, grown.kept⟩, fun none => ?_⟩
      · intro page above inside
        obtain ⟨frame, wasFree, isMapped⟩ := grown.added page above inside
        exact ⟨frame, wasFree, isMapped, (tracked nodup).fresh page frame above inside isMapped⟩
      · -- A call that takes no page and returns zero has changed nothing.
        obtain rfl : newsz = 0 := size.symm.trans none
        obtain rfl : oldsz = 0 := by omega
        rw [allocuvm, if_neg large] at ends
        cases ends
        exact ⟨rfl, fun _ => Or.inl⟩
    | undone size same back done before =>
      refine ⟨Or.inr size, fun isSize => ?_, fun _ => ⟨same, back nodup⟩⟩
      obtain rfl : newsz = 0 := isSize.symm.trans size
      simp [show pageCount 0 = 0 by decide] at before
    | lastLost _ done isLast _ loses => exact absurd loses (fits.not_loses (by omega))
    | lost _ _ _ done before loses => exact absurd loses (fits.not_loses (by omega))

theorem allocuvm_all_or_nothing_onePage :
    ∃ result final, allocuvm onePage.pgdir 4096 12288 (memoryOf [5, 6]) = .done result final ∧
      (result.2 = 12288 ∨ result.2 = 0) ∧
      (result.2 = 12288 → MapsFresh onePage.pgdir (memoryOf [5, 6]) 4096 12288 result.1 final) ∧
      (result.2 = 0 → Undone onePage.pgdir (memoryOf [5, 6]) result.1 final) :=
  (allocuvm_all_or_nothing_iff ready_onePage.filled (by decide) ready_onePage.free
    (by decide)).mpr fun _ => Or.inl (by decide)

/-- The page is lost when `mappages` fails, in a call that succeeds and in a call
that fails. -/
theorem allocuvm_loses_page : Filled noPage.pgdir (pageCount 0) ∧
      (∃ final, allocuvm noPage.pgdir 0 4096 (memoryOf [5]) = .done (noPage.pgdir, 4096) final ∧
        mapping noPage.pgdir 0 = none ∧ final.free = []) ∧
      ∃ final, allocuvm noPage.pgdir 0 8192 (memoryOf [5]) = .done (noPage.pgdir, 0) final ∧
        final.free = [] := by
  have ready : Ready noPage (memoryOf []) := ready_noPage nofun
  refine ⟨ready.filled, ⟨_, rfl, rfl, rfl⟩, _, rfl, rfl⟩

end UserPages

end Xv6Kthreads
