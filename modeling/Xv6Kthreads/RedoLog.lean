import Mathlib.Data.List.Basic
import Mathlib.Logic.Function.Basic

/-!
# Redo logs

A redo log makes a group of block writes atomic: the new blocks are written
into a log, a header that names their home sectors is written, the blocks are
installed at their homes, and the header is cleared.  What a crash must leave
recoverable is the state after the last header write.

A view shows the disk of such a system, the current contents that its users
see, and the header in memory.  This file states what holds of a view in each
phase of the protocol and how each write leads from one phase to the next,
for any kind of block and any set of home sectors.
-/

namespace Xv6Kthreads

open Function List

namespace RedoLog

variable {Block : Type*} (contents : Nat → Block)

def applyWrites (writes : List (Nat × Block)) : Nat → Block :=
  writes.foldl (fun contents write =>
    update contents write.1 write.2) contents

theorem applyWrites_append (first second : List (Nat × Block)) :
    applyWrites contents (first ++ second) = applyWrites (applyWrites contents first) second :=
  foldl_append

theorem applyWrites_snoc (writes : List (Nat × Block)) (sector : Nat) (block : Block) :
    applyWrites contents (writes ++ [(sector, block)]) =
      update (applyWrites contents writes) sector block := by
  rw [applyWrites_append]
  rfl

/-- The home blocks, the header and the log blocks on disk; the contents that
the users see, with the sectors pinned in memory; the header in memory; the
state that recovery has to restore, and the writes since. -/
structure View (Block : Type*) where
  home : Nat → Block
  header : List Nat
  blocks : Nat → Block
  current : Nat → Block
  pinned : Nat → Prop
  sectors : List Nat
  durable : Nat → Block
  pending : List (Nat × Block)

section Phases

variable (Home : Nat → Prop)

structure Recoverable (view : View Block) : Prop where
  inHome : ∀ sector ∈ view.header, Home sector
  logged : ∀ index sector, view.header[index]? = some sector →
    view.blocks index = view.durable sector
  unlogged : ∀ sector, Home sector → sector ∉ view.header → view.home sector = view.durable sector

structure Running (view : View Block) : Prop where
  clear : view.header = []
  inHome : ∀ sector ∈ view.sectors, Home sector
  home : ∀ sector, Home sector → view.home sector = view.durable sector
  current : ∀ sector, Home sector →
    view.current sector = applyWrites view.durable view.pending sector
  pinned : ∀ sector, view.pinned sector → sector ∈ view.sectors

/-- The first `tail` blocks have been copied into the log. -/
def Written (tail : Nat) (view : View Block) : Prop :=
  ∀ index sector, index < tail → view.sectors[index]? = some sector →
    view.blocks index = view.current sector

structure Logged (tail : Nat) (view : View Block) : Prop where
  header : view.header = view.sectors
  inHome : ∀ sector ∈ view.sectors, Home sector
  blocks : ∀ index sector, view.sectors[index]? = some sector →
    view.blocks index = view.durable sector
  home : ∀ sector, Home sector → sector ∉ view.sectors.drop tail →
    view.home sector = view.durable sector
  current : ∀ sector, Home sector → sector ∉ view.sectors.drop tail →
    view.current sector = view.durable sector
  pinned : ∀ sector, view.pinned sector → sector ∈ view.sectors.drop tail
  pending : view.pending = []

structure Installed (view : View Block) : Prop where
  recoverable : Recoverable Home view
  home : ∀ sector, Home sector → view.home sector = view.durable sector
  current : ∀ sector, Home sector → view.current sector = view.durable sector
  unpinned : ∀ sector, ¬ view.pinned sector
  sectors : view.sectors = []
  pending : view.pending = []

structure Starting (view : View Block) : Prop where
  recoverable : Recoverable Home view
  current : ∀ sector, Home sector → view.current sector = view.home sector
  unpinned : ∀ sector, ¬ view.pinned sector
  pending : view.pending = []

structure Within (Good : Nat → Block → Prop) (view : View Block) : Prop where
  home : ∀ sector, Home sector → Good sector (view.home sector)
  current : ∀ sector, Home sector → Good sector (view.current sector)
  durable : ∀ sector, Home sector → Good sector (view.durable sector)

end Phases

/-- The views differ at most in home sectors that do not count and in sectors
that are no longer pinned. -/
structure Agrees (Home : Nat → Prop) (view next : View Block) : Prop where
  home : ∀ sector, Home sector → next.home sector = view.home sector
  header : next.header = view.header
  blocks : ∀ index, index < view.sectors.length ∨
    index < view.header.length → next.blocks index = view.blocks index
  current : ∀ sector, Home sector → next.current sector = view.current sector
  pinned : ∀ sector, next.pinned sector → view.pinned sector
  sectors : next.sectors = view.sectors
  durable : next.durable = view.durable
  pending : next.pending = view.pending

section Transitions

variable {Home : Nat → Prop} {view next : View Block} {tail : Nat}

theorem index_lt_of_getElem {items : List Nat} {index item : Nat}
    (found : items[index]? = some item) : index < items.length :=
  (List.getElem?_eq_some_iff.mp found).1

theorem Recoverable.congr (recoverable : Recoverable Home view) (agrees : Agrees Home view next) :
    Recoverable Home next where
  inHome := by
    rw [agrees.header]
    exact recoverable.inHome
  logged := by
    intro index sector found
    rw [agrees.header] at found
    rw [agrees.blocks index (Or.inr (index_lt_of_getElem found)), agrees.durable]
    exact recoverable.logged index sector found
  unlogged := by
    intro sector home absent
    rw [agrees.header] at absent
    rw [agrees.home sector home, agrees.durable]
    exact recoverable.unlogged sector home absent

theorem Running.congr (running : Running Home view) (agrees : Agrees Home view next) :
    Running Home next where
  clear := by
    rw [agrees.header]
    exact running.clear
  inHome := by
    rw [agrees.sectors]
    exact running.inHome
  home := by
    intro sector home
    rw [agrees.home sector home, agrees.durable]
    exact running.home sector home
  current := by
    intro sector home
    rw [agrees.current sector home, agrees.durable, agrees.pending]
    exact running.current sector home
  pinned := by
    intro sector pinned
    rw [agrees.sectors]
    exact running.pinned sector (agrees.pinned sector pinned)

theorem Written.congr (written : Written tail view) (inHome : ∀ sector ∈ view.sectors, Home sector)
    (agrees : Agrees Home view next) : Written tail next := by
  intro index sector below found
  rw [agrees.sectors] at found
  rw [agrees.blocks index (Or.inl (index_lt_of_getElem found)),
    agrees.current sector (inHome sector (mem_of_getElem? found))]
  exact written index sector below found

theorem Logged.congr (logged : Logged Home tail view) (agrees : Agrees Home view next) :
    Logged Home tail next where
  header := by
    rw [agrees.header, agrees.sectors]
    exact logged.header
  inHome := by
    rw [agrees.sectors]
    exact logged.inHome
  blocks := by
    intro index sector found
    rw [agrees.sectors] at found
    rw [agrees.blocks index (Or.inl (index_lt_of_getElem found)), agrees.durable]
    exact logged.blocks index sector found
  home := by
    intro sector home absent
    rw [agrees.sectors] at absent
    rw [agrees.home sector home, agrees.durable]
    exact logged.home sector home absent
  current := by
    intro sector home absent
    rw [agrees.sectors] at absent
    rw [agrees.current sector home, agrees.durable]
    exact logged.current sector home absent
  pinned := by
    intro sector pinned
    rw [agrees.sectors]
    exact logged.pinned sector (agrees.pinned sector pinned)
  pending := by
    rw [agrees.pending]
    exact logged.pending

theorem Installed.congr (installed : Installed Home view) (agrees : Agrees Home view next) :
    Installed Home next where
  recoverable := installed.recoverable.congr agrees
  home := by
    intro sector home
    rw [agrees.home sector home, agrees.durable]
    exact installed.home sector home
  current := by
    intro sector home
    rw [agrees.current sector home, agrees.durable]
    exact installed.current sector home
  unpinned := fun sector pinned =>
    installed.unpinned sector (agrees.pinned sector pinned)
  sectors := by
    rw [agrees.sectors]
    exact installed.sectors
  pending := by
    rw [agrees.pending]
    exact installed.pending

theorem Starting.congr (starting : Starting Home view) (agrees : Agrees Home view next) :
    Starting Home next where
  recoverable := starting.recoverable.congr agrees
  current := by
    intro sector home
    rw [agrees.current sector home, agrees.home sector home]
    exact starting.current sector home
  unpinned := fun sector pinned =>
    starting.unpinned sector (agrees.pinned sector pinned)
  pending := by
    rw [agrees.pending]
    exact starting.pending

theorem Running.recoverable (running : Running Home view) : Recoverable Home view where
  inHome := by simp [running.clear]
  logged := by simp [running.clear]
  unlogged := fun sector home _ => running.home sector home

theorem Logged.recoverable (logged : Logged Home tail view) : Recoverable Home view where
  inHome := by
    rw [logged.header]
    exact logged.inHome
  logged := by
    rw [logged.header]
    exact logged.blocks
  unlogged := by
    intro sector home absent
    rw [logged.header] at absent
    exact logged.home sector home fun member =>
      absent (mem_of_mem_drop member)

theorem Running.write (running : Running Home view) (sector : Nat) (block : Block) : Running Home
      { view with
        current := update view.current sector block
        pending := view.pending ++ [(sector, block)] } :=
  { running with
    current := by
      intro other home
      change update view.current sector block other =
        applyWrites view.durable (view.pending ++ [(sector, block)]) other
      rw [applyWrites_snoc]
      rcases eq_or_ne other sector with rfl | same
      · rw [update_self, update_self]
      · rw [update_of_ne same, update_of_ne same]
        exact running.current other home }

theorem Running.pin (running : Running Home view) {sector : Nat}
    (home : Home sector) {sectors : List Nat}
    (members : ∀ other, other ∈ sectors ↔ other ∈ view.sectors ∨ other = sector) :
    Running Home { view with sectors, pinned := fun other => view.pinned other ∨ other = sector } :=
  { running with
    inHome := by
      intro other member
      rcases (members other).mp member with member | rfl
      · exact running.inHome other member
      · exact home
    pinned := by
      rintro other (pinned | rfl)
      · exact (members other).mpr (Or.inl (running.pinned other pinned))
      · exact (members other).mpr (Or.inr rfl) }

theorem Running.logBlock (running : Running Home view) (blocks : Nat → Block) :
    Running Home { view with blocks } :=
  { running with }

theorem Written.logBlock (written : Written tail view) {sector : Nat}
    (found : view.sectors[tail]? = some sector) :
    Written (tail + 1) { view with
        blocks := update view.blocks tail (view.current sector) } := by
  intro index other below otherFound
  change update view.blocks tail (view.current sector) index = view.current other
  rcases eq_or_ne index tail with rfl | same
  · rw [update_self]
    have equal := found.symm.trans otherFound
    cases equal
    rfl
  · rw [update_of_ne same]
    exact written index other (by omega) otherFound

theorem Running.commit (running : Running Home view) (written : Written view.sectors.length view)
    (unlogged : ∀ sector, Home sector → sector ∉ view.sectors →
      view.current sector = view.home sector) :
    Logged Home 0 { view with
        header := view.sectors
        durable := applyWrites view.durable view.pending
        pending := [] } where
  __ := running
  header := rfl
  blocks := by
    intro index sector found
    have home := running.inHome sector (mem_of_getElem? found)
    exact (written index sector (index_lt_of_getElem found) found).trans
      (running.current sector home)
  home := by
    intro sector home absent
    exact (unlogged sector home absent).symm.trans (running.current sector home)
  current := fun sector home _ => running.current sector home
  pending := rfl

theorem Starting.readHeader (starting : Starting Home view) :
    Logged Home 0 { view with sectors := view.header } where
  header := rfl
  inHome := starting.recoverable.inHome
  blocks := starting.recoverable.logged
  home := starting.recoverable.unlogged
  current := by
    intro sector home absent
    rw [starting.current sector home]
    exact starting.recoverable.unlogged sector home absent
  pinned := fun sector pinned => absurd pinned (starting.unpinned sector)
  pending := starting.pending

theorem Logged.install (logged : Logged Home tail view) {sector : Nat}
    (found : view.sectors[tail]? = some sector) :
    Logged Home (tail + 1) { view with
        home := update view.home sector (view.blocks tail)
        current := update view.current sector (view.blocks tail)
        pinned := fun other => view.pinned other ∧ other ≠ sector } := by
  have block := logged.blocks tail sector found
  have split : view.sectors.drop tail = sector :: view.sectors.drop (tail + 1) := by
    obtain ⟨below, rfl⟩ := List.getElem?_eq_some_iff.mp found
    exact drop_eq_getElem_cons below
  have absentBefore : ∀ other, other ≠ sector → other ∉ view.sectors.drop (tail + 1) →
        other ∉ view.sectors.drop tail := by
    intro other otherNe absent member
    rw [split] at member
    rcases mem_cons.mp member with equal | member
    · exact otherNe equal
    · exact absent member
  refine { logged with home := ?_, current := ?_, pinned := ?_ }
  · intro other home absent
    change update view.home sector (view.blocks tail) other = view.durable other
    rcases eq_or_ne other sector with rfl | same
    · rw [update_self]
      exact block
    · rw [update_of_ne same]
      exact logged.home other home (absentBefore other same absent)
  · intro other home absent
    change update view.current sector (view.blocks tail) other = view.durable other
    rcases eq_or_ne other sector with rfl | same
    · rw [update_self]
      exact block
    · rw [update_of_ne same]
      exact logged.current other home (absentBefore other same absent)
  · rintro other ⟨pinned, otherNe⟩
    have member := logged.pinned other pinned
    rw [split] at member
    exact (mem_cons.mp member).resolve_left otherNe

/-- When every block is installed the header in memory is cleared. -/
theorem Logged.finish (logged : Logged Home tail view) (all : view.sectors.length ≤ tail) :
    Installed Home { view with sectors := [] } := by
  have none : view.sectors.drop tail = [] := drop_eq_nil_iff.mpr all
  have recoverable := logged.recoverable
  refine ⟨{ recoverable with }, ?_,
    ?_, ?_, rfl, logged.pending⟩
  · intro sector home
    exact logged.home sector home (by simp [none])
  · intro sector home
    exact logged.current sector home (by simp [none])
  · intro sector pinned
    have member := logged.pinned sector pinned
    rw [none] at member
    cases member

theorem Installed.clear (installed : Installed Home view) :
    Running Home { view with header := [] } where
  clear := rfl
  inHome := by simp [installed.sectors]
  home := installed.home
  current := by
    intro sector home
    change view.current sector = applyWrites view.durable view.pending sector
    rw [installed.pending]
    exact installed.current sector home
  pinned := fun sector pinned => absurd pinned (installed.unpinned sector)

section Conditions

variable {Good : Nat → Block → Prop}

section

variable (within : Within Home Good view)
include within

theorem Within.congr (agrees : Agrees Home view next) : Within Home Good next where
  home := by
    intro sector home
    rw [agrees.home sector home]
    exact within.home sector home
  current := by
    intro sector home
    rw [agrees.current sector home]
    exact within.current sector home
  durable := by
    rw [agrees.durable]
    exact within.durable

theorem Within.write {sector : Nat} {block : Block} (good : Good sector block) :
    Within Home Good { view with
        current := update view.current sector block
        pending := view.pending ++ [(sector, block)] } where
  __ := within
  current := by
    intro other home
    change Good other (update view.current sector block other)
    rcases eq_or_ne other sector with rfl | same
    · rw [update_self]
      exact good
    · rw [update_of_ne same]
      exact within.current other home

theorem Within.commit (running : Running Home view) :
    Within Home Good { view with
        header := view.sectors
        durable := applyWrites view.durable view.pending
        pending := [] } where
  __ := within
  durable := by
    intro sector home
    change Good sector (applyWrites view.durable view.pending sector)
    rw [← running.current sector home]
    exact within.current sector home

theorem Within.install (logged : Logged Home tail view) {sector : Nat}
    (found : view.sectors[tail]? = some sector) :
    Within Home Good { view with
        home := update view.home sector (view.blocks tail)
        current := update view.current sector (view.blocks tail)
        pinned := fun other => view.pinned other ∧ other ≠ sector } := by
  have good : Good sector (view.blocks tail) := by
    rw [logged.blocks tail sector found]
    exact within.durable sector (logged.inHome sector (mem_of_getElem? found))
  refine ⟨?_, ?_, within.durable⟩
  · intro other home
    change Good other (update view.home sector (view.blocks tail) other)
    rcases eq_or_ne other sector with rfl | same
    · rw [update_self]
      exact good
    · rw [update_of_ne same]
      exact within.home other home
  · intro other home
    change Good other (update view.current sector (view.blocks tail) other)
    rcases eq_or_ne other sector with rfl | same
    · rw [update_self]
      exact good
    · rw [update_of_ne same]
      exact within.current other home

end

end Conditions

end Transitions

end RedoLog

end Xv6Kthreads
