import Mathlib.Logic.Function.Basic
import KeblaOS.Fat32.DirectoryCalls
import KeblaOS.Fat32.FileEffect
import KeblaOS.Lib.Run

/-!
# Several open files

A session is a volume with any number of open handles. A file owns the chain its directory
entry starts and the chains its handles start: a handle on a file that was empty has a chain
before the entry says so. `Sound` says that no two chains of files and directories meet, and
every call on a handle keeps it, because the allocator hands out clusters that are in no
chain and a directory entry is rewritten in place.
-/

namespace KeblaOS.Fat32

open KeblaOS.Buffer

/-- A volume and its open handles. -/
structure Session where
  vol : Volume
  handles : Nat → Option Fat32File

/-- Calls on an open handle. -/
inductive HandleCall where
  | write (buff : List UInt8)
  | read (btr : Nat)
  | lseek (ofs : Nat)
  | sync
  | close

/-- One call on the handle with number `id`. -/
inductive Session.Step (session : Session) : Nat × HandleCall → Session → Prop where
  | write {id fp buff result} (opened : session.handles id = some fp)
      (returned : fWrite session.vol fp buff = some result) :
      Session.Step session (id, .write buff) ⟨result.vol, Function.update session.handles id (some result.fp)⟩
  | read {id fp btr bytes fp'} (opened : session.handles id = some fp)
      (returned : fRead session.vol fp btr = some (bytes, fp')) :
      Session.Step session (id, .read btr) ⟨session.vol, Function.update session.handles id (some fp')⟩
  | lseek {id fp ofs fp'} (opened : session.handles id = some fp)
      (returned : fLseek session.vol fp ofs = some fp') :
      Session.Step session (id, .lseek ofs) ⟨session.vol, Function.update session.handles id (some fp')⟩
  | sync {id fp} (opened : session.handles id = some fp) :
      Session.Step session (id, .sync) ⟨fSync session.vol fp, session.handles⟩
  | close {id fp} (opened : session.handles id = some fp) :
      Session.Step session (id, .close) ⟨(fClose session.vol fp).1, Function.update session.handles id none⟩

/-- The file with its entry at `place` starts a chain at cluster `first`: in its entry or in a
handle. -/
inductive Session.Owns (session : Session) (dirs : Set Nat) : Nat × Nat → Nat → Prop where
  | stored {dir place slot} (member : dir ∈ dirs) (entry : EntryAt session.vol dir place slot)
      (file : ¬ slot.IsDirectory) : Session.Owns session dirs place slot.firstCluster
  | opened {id fp place} (handle : session.handles id = some fp) (located : fp.At place) :
      Session.Owns session dirs place fp.firstCluster

/-- The chains of the directories `dirs` and of all files are apart, and the handles are on
files. -/
structure Session.Sound (session : Session) (dirs : Set Nat) : Prop where
  chained : Chained session.vol dirs
  copies : FatCopiesEqual session.vol
  listed : ∀ dir ∈ dirs, ∀ place slot, EntryAt session.vol dir place slot → slot.ListsDirectory →
    slot.firstCluster ∈ dirs
  owned : ∀ place first, session.Owns dirs place first → ∃ cells, OwnedChain session.vol first cells
  clear : ∀ place first cells, session.Owns dirs place first → OwnedChain session.vol first cells →
    ∀ cell ∈ cells, ∀ dir ∈ dirs, ¬ InDir session.vol dir cell
  apart : ∀ place first cells place' first' cells', session.Owns dirs place first → session.Owns dirs place' first' →
    OwnedChain session.vol first cells → OwnedChain session.vol first' cells' →
    ∀ cell ∈ cells, cell ∈ cells' → place = place' ∧ first = first'
  handle : ∀ id fp, session.handles id = some fp → ∃ place, fp.At place ∧
    ∃ dir ∈ dirs, ∃ slot, EntryAt session.vol dir place slot ∧ ¬ slot.IsDirectory

/-- A call on handle `id` leaves all files but the one at `place` alone: their handles, their
entries, their chains and what these hold. -/
structure Session.KeepsOthers (session next : Session) (dirs : Set Nat) (id : Nat) (place : Nat × Nat) : Prop where
  handles : ∀ other, other ≠ id → next.handles other = session.handles other
  entries : ∀ dir ∈ dirs, ∀ other slot, other ≠ place →
    (EntryAt next.vol dir other slot ↔ EntryAt session.vol dir other slot)
  bytes : ∀ other first cells, other ≠ place → session.Owns dirs other first →
    OwnedChain session.vol first cells →
    OwnedChain next.vol first cells ∧ chainBytes next.vol cells = chainBytes session.vol cells

namespace Session.Sound

variable {session next : Session} {dirs : Set Nat} {id : Nat} {fp : Fat32File} {place : Nat × Nat}

/-- How soundness is kept: every chain of a file is one it had before, outside of `whole`, or
is the chain `whole` of the file at `target`, and the directories take free clusters only. -/
theorem of_views {dirs' : Set Nat} (sound : session.Sound dirs) (target : Nat × Nat) (start : Nat) (whole : List Nat)
    (chained : Chained next.vol dirs') (copies : FatCopiesEqual next.vol)
    (cells : ∀ dir ∈ dirs', ∀ cell, InDir next.vol dir cell →
      (∃ before ∈ dirs, InDir session.vol before cell) ∨ fat32GetNextCluster session.vol cell = 0)
    (outside : ∀ cell ∈ whole, ∀ dir ∈ dirs', ¬ InDir next.vol dir cell)
    (listed : ∀ dir ∈ dirs', ∀ place slot, EntryAt next.vol dir place slot → slot.ListsDirectory →
      slot.firstCluster ∈ dirs')
    (handle : ∀ id fp, next.handles id = some fp → ∃ place, fp.At place ∧
      ∃ dir ∈ dirs', ∃ slot, EntryAt next.vol dir place slot ∧ ¬ slot.IsDirectory)
    (views : ∀ place first, next.Owns dirs' place first →
      (session.Owns dirs place first ∧ ∃ cells, OwnedChain session.vol first cells ∧
        OwnedChain next.vol first cells ∧ ∀ cell ∈ cells, cell ∉ whole) ∨
      place = target ∧ first = start ∧ OwnedChain next.vol start whole) : next.Sound dirs' where
  chained := chained
  copies := copies
  listed := listed
  owned place first owns := by
    rcases views place first owns with ⟨_, cells, _, now, _⟩ | ⟨_, rfl, now⟩
    · exact ⟨cells, now⟩
    · exact ⟨whole, now⟩
  clear place first others owns owned cell member dir inDirs inside := by
    rcases views place first owns with ⟨before, cells', old, now, _⟩ | ⟨_, rfl, now⟩
    · rw [owned.unique now] at member
      rcases cells dir inDirs cell inside with ⟨dir', inDirs', inside'⟩ | free
      · exact sound.clear place first cells' before old cell member dir' inDirs' inside'
      · exact old.next_ne_zero member free
    · rw [owned.unique now] at member
      exact outside cell member dir inDirs inside
  apart place first chain place' first' chain' owns owns' owned owned' cell member member' := by
    rcases views place first owns with ⟨before, cells, old, now, free⟩ | ⟨rfl, rfl, now⟩
    · rw [owned.unique now] at member
      rcases views place' first' owns' with ⟨before', cells', old', now', _⟩ | ⟨rfl, rfl, now'⟩
      · rw [owned'.unique now'] at member'
        exact sound.apart place first cells place' first' cells' before before' old old' cell member member'
      · rw [owned'.unique now'] at member'
        exact absurd member' (free cell member)
    · rw [owned.unique now] at member
      rcases views place' first' owns' with ⟨_, cells', _, now', free'⟩ | ⟨rfl, rfl, _⟩
      · rw [owned'.unique now'] at member'
        exact absurd member (free' cell member')
      · exact ⟨rfl, rfl⟩
  handle := handle

/-- A handle that was moved or written through is still on its file. -/
theorem handle_update {fp' : Fat32File} {vol : Volume} (sound : session.Sound dirs)
    (opened : session.handles id = some fp)
    (entry : fp'.dirEntryCluster = fp.dirEntryCluster ∧ fp'.dirEntryOffset = fp.dirEntryOffset)
    (kept : ∀ dir ∈ dirs, ∀ place slot, EntryAt session.vol dir place slot → EntryAt vol dir place slot) :
    ∀ other handle, Function.update session.handles id (some fp') other = some handle → ∃ place, handle.At place ∧
      ∃ dir ∈ dirs, ∃ slot, EntryAt vol dir place slot ∧ ¬ slot.IsDirectory := by
  intro other handle isOpen
  by_cases same : other = id
  · subst same
    obtain rfl : fp' = handle := by simpa using isOpen
    obtain ⟨place, located, dir, member, slot, entry', file⟩ := sound.handle other fp opened
    exact ⟨place, ⟨entry.1.trans located.1, entry.2.trans located.2⟩, dir, member, slot,
      kept dir member place slot entry', file⟩
  · obtain ⟨place, located, dir, member, slot, entry', file⟩ := sound.handle other handle (by simpa [same] using isOpen)
    exact ⟨place, located, dir, member, slot, kept dir member place slot entry', file⟩

/-- `f_read` and `f_lseek` change the position of a handle and nothing else. -/
theorem reposition {fp' : Fat32File} (sound : session.Sound dirs) (opened : session.handles id = some fp)
    (entry : fp'.dirEntryCluster = fp.dirEntryCluster ∧ fp'.dirEntryOffset = fp.dirEntryOffset)
    (first : fp'.firstCluster = fp.firstCluster) :
    (⟨session.vol, Function.update session.handles id (some fp')⟩ : Session).Sound dirs := by
  refine sound.of_views (0, 0) 0 [] sound.chained sound.copies (fun dir inDirs _ inside => .inl ⟨dir, inDirs, inside⟩)
    (fun _ member => absurd member List.not_mem_nil) sound.listed
    (sound.handle_update opened entry fun _ _ _ _ entry => entry) fun place cluster owns => .inl ?_
  have before : session.Owns dirs place cluster := by
    cases owns with
    | stored member entry file => exact .stored member entry file
    | @opened other handle _ isOpen located =>
        by_cases same : other = id
        · subst same
          obtain rfl : fp' = handle := by simpa using isOpen
          rw [first]
          exact .opened opened ⟨entry.1.symm.trans located.1, entry.2.symm.trans located.2⟩
        · exact .opened (by simpa [same] using isOpen) located
  obtain ⟨cells, owned⟩ := sound.owned place cluster before
  exact ⟨before, cells, owned, owned, fun _ _ => List.not_mem_nil⟩

section Write

variable {buff : List UInt8} {cells added : List Nat} {result : WriteResult}

/-- The clusters a write touches belong to no directory. -/
theorem write_outside (sound : session.Sound dirs) (owns : session.Owns dirs place fp.firstCluster)
    (owned : OwnedChain session.vol fp.firstCluster cells) (wrote : Wrote session.vol fp buff cells added result) :
    ∀ cell ∈ cells ++ added, ∀ dir ∈ dirs, ¬ InDir session.vol dir cell := by
  intro cell member dir inDirs inside
  rcases List.mem_append.mp member with old | new
  · exact sound.clear place _ cells owns owned cell old dir inDirs inside
  · exact inside.next_ne_zero (wrote.grown.free cell new)

/-- A chain a file had before is the chain written to, or it is not touched. -/
theorem write_views {start : Nat} {other : Nat × Nat} (sound : session.Sound dirs)
    (owns : session.Owns dirs place fp.firstCluster) (owned : OwnedChain session.vol fp.firstCluster cells)
    (wrote : Wrote session.vol fp buff cells added result) (owns' : session.Owns dirs other start) :
    (session.Owns dirs other start ∧ ∃ others, OwnedChain session.vol start others ∧
      OwnedChain result.vol start others ∧ ∀ cell ∈ others, cell ∉ cells ++ added) ∨
    other = place ∧ start = result.fp.firstCluster ∧
      OwnedChain result.vol result.fp.firstCluster (cells ++ added) := by
  obtain ⟨others, owned'⟩ := sound.owned other start owns'
  by_cases disjoint : ∀ cell ∈ others, cell ∉ cells
  · have free := wrote.grown.apart owned' disjoint
    exact .inl ⟨owns', others, owned', owned'.congr wrote.grown.same free, free⟩
  · push Not at disjoint
    obtain ⟨cell, member, shared⟩ := disjoint
    obtain ⟨rfl, rfl⟩ := sound.apart other start others place _ cells owns' owns owned' owned cell member shared
    have nonempty : fp.firstCluster ≠ 0 := by
      rcases owned with ⟨_, rfl⟩ | chain
      · exact absurd shared List.not_mem_nil
      · exact chain.start_ne_zero
    exact .inr ⟨rfl, (wrote.sameFirst nonempty).symm, wrote.owned⟩

/-- No entry is written. -/
theorem write_entries (sound : session.Sound dirs) (owns : session.Owns dirs place fp.firstCluster)
    (owned : OwnedChain session.vol fp.firstCluster cells) (wrote : Wrote session.vol fp buff cells added result) :
    SameEntries session.vol result.vol dirs :=
  sound.chained.sameEntries wrote.grown.same fun dir inDirs cell inside =>
    ⟨fun touched => sound.write_outside owns owned wrote cell touched dir inDirs inside,
      fun touched => sound.write_outside owns owned wrote cell touched dir inDirs inside⟩

theorem write (sound : session.Sound dirs) (opened : session.handles id = some fp) (located : fp.At place)
    (returned : fWrite session.vol fp buff = some result) :
    (⟨result.vol, Function.update session.handles id (some result.fp)⟩ : Session).Sound dirs ∧
      session.KeepsOthers ⟨result.vol, Function.update session.handles id (some result.fp)⟩ dirs id place := by
  have owns : session.Owns dirs place fp.firstCluster := .opened opened located
  obtain ⟨cells, owned⟩ := sound.owned place _ owns
  obtain ⟨result', added, returned', wrote⟩ := fWrite_cases buff sound.chained.geometry sound.chained.hint owned
  obtain rfl : result' = result := Option.some.inj (returned'.symm.trans returned)
  have outside := sound.write_outside owns owned wrote
  have apart : ∀ dir ∈ dirs, ∀ cell, InDir session.vol dir cell → cell ∉ {cell | cell ∈ cells ++ added} :=
    fun dir inDirs cell inside touched => outside cell touched dir inDirs inside
  have entries := sound.write_entries owns owned wrote
  constructor
  · refine sound.of_views place result'.fp.firstCluster (cells ++ added)
      (sound.chained.of_outside wrote.grown.same apart) (wrote.grown.same.copies sound.copies)
      (fun dir inDirs cell inside =>
        .inl ⟨dir, inDirs, (sound.chained.inDir_congr wrote.grown.same apart inDirs).mp inside⟩)
      (fun cell touched dir inDirs inside =>
        outside cell touched dir inDirs ((sound.chained.inDir_congr wrote.grown.same apart inDirs).mp inside))
      (fun dir inDirs other slot entry => sound.listed dir inDirs other slot ((entries dir inDirs other slot).mp entry))
      (sound.handle_update opened ⟨wrote.sameEntry.dirEntryCluster, wrote.sameEntry.dirEntryOffset⟩
        fun dir inDirs other slot => (entries dir inDirs other slot).mpr) fun other start owns' => ?_
    cases owns' with
    | stored inDirs entry file =>
        exact sound.write_views owns owned wrote (.stored inDirs ((entries _ inDirs _ _).mp entry) file)
    | @opened number handle _ isOpen located' =>
        by_cases same : number = id
        · subst same
          obtain rfl : result'.fp = handle := by simpa using isOpen
          refine .inr ⟨?_, rfl, wrote.owned⟩
          have cluster := located'.1.symm.trans (wrote.sameEntry.dirEntryCluster.trans located.1)
          have offset := located'.2.symm.trans (wrote.sameEntry.dirEntryOffset.trans located.2)
          exact Prod.ext cluster (by omega)
        · exact sound.write_views owns owned wrote (.opened (by simpa [same] using isOpen) located')
  · refine ⟨fun other different => by simp [different],
      fun dir inDirs other slot _ => entries dir inDirs other slot, fun other start others different owns' owned' => ?_⟩
    have disjoint : ∀ cell ∈ others, cell ∉ cells := fun cell member shared =>
      different (sound.apart other start others place _ cells owns' owns owned' owned cell member shared).1
    have free := wrote.grown.apart owned' disjoint
    exact ⟨owned'.congr wrote.grown.same free,
      chainBytes_congr wrote.grown.same (fun cell member => owned'.isCluster member) free⟩

end Write

/-- `f_sync` and `f_close` store in the entry what the handle has; some handles may be given
up. -/
theorem store {handles : Nat → Option Fat32File} (sound : session.Sound dirs)
    (opened : session.handles id = some fp) (located : fp.At place)
    (fewer : ∀ number handle, handles number = some handle → session.handles number = some handle)
    (others : ∀ number, number ≠ id → handles number = session.handles number) :
    (⟨fSync session.vol fp, handles⟩ : Session).Sound dirs ∧
      session.KeepsOthers ⟨fSync session.vol fp, handles⟩ dirs id place := by
  have owns : session.Owns dirs place fp.firstCluster := .opened opened located
  obtain ⟨cells, owned⟩ := sound.owned place _ owns
  obtain ⟨place', located', dir, member, slot, entry, file⟩ := sound.handle id fp opened
  obtain rfl := located'.unique located
  have whole := length_of_clusterSlots entry.live.1
  have rewritten := rewritten_sync sound.chained located entry
  have bounded := owned.first_lt sound.chained.geometry
  have untouched : ∀ other ∈ dirs, ∀ cell, InDir session.vol other cell → cell ∉ (∅ : Set Nat) :=
    fun _ _ _ _ => Set.notMem_empty _
  have directory : ¬ (slot.withFile fp.firstCluster fp.size).IsDirectory := by
    rw [Slot.withFile_isDirectory _ _ whole]
    exact file
  constructor
  · refine sound.of_views (0, 0) 0 [] rewritten.chained (rewritten.same.copies sound.copies)
      (fun other inDirs cell inside =>
        .inl ⟨other, inDirs, (sound.chained.inDir_congr rewritten.same untouched inDirs).mp inside⟩)
      (fun _ inside => absurd inside List.not_mem_nil) (fun other inDirs at' slot' entry' lists => ?_)
      (fun number handle isOpen => ?_) fun at' start owns' => .inl ?_
    · rcases (rewritten.entries other inDirs at' slot').mp entry' with ⟨before, _⟩ | ⟨_, rfl, _⟩
      · exact sound.listed other inDirs at' slot' before lists
      · exact absurd lists.1 directory
    · obtain ⟨at', located'', dir', member', slot', entry', file'⟩ := sound.handle number handle (fewer _ _ isOpen)
      by_cases same : at' = place'
      · subst same
        exact ⟨at', located'', dir, member, _, (rewritten.entries dir member at' _).mpr (.inr ⟨rfl, rfl, entry.inside⟩),
          directory⟩
      · exact ⟨at', located'', dir', member', slot',
          (rewritten.entries dir' member' at' slot').mpr (.inl ⟨entry', same⟩), file'⟩
    · have before : session.Owns dirs at' start := by
        cases owns' with
        | @stored other _ slot' inDirs entry' file' =>
            rcases (rewritten.entries other inDirs at' slot').mp entry' with ⟨before, _⟩ | ⟨rfl, rfl, _⟩
            · exact .stored inDirs before file'
            · rw [Slot.withFile_firstCluster _ whole bounded]
              exact owns
        | opened isOpen located'' => exact .opened (fewer _ _ isOpen) located''
      obtain ⟨cells', owned'⟩ := sound.owned at' start before
      exact ⟨before, cells', owned', owned'.congr rewritten.same fun _ _ => Set.notMem_empty _,
        fun _ _ => List.not_mem_nil⟩
  · refine ⟨others, fun other inDirs at' slot' different => ?_, fun at' start cells' _ owns' owned' => ⟨?_, ?_⟩⟩
    · rw [rewritten.entries other inDirs at' slot']
      simp [different]
    · exact owned'.congr rewritten.same fun _ _ => Set.notMem_empty _
    · refine chainBytes_congr rewritten.same (fun cell inside => owned'.isCluster inside) fun cell inside same => ?_
      -- the entry's cluster belongs to a directory
      refine sound.clear at' start cells' owns' owned' cell inside dir member ?_
      rw [Set.mem_singleton_iff.mp same]
      exact entry.inside

/-- Every call keeps the session sound and the other files as they are. -/
theorem step {event : Nat × HandleCall} (sound : session.Sound dirs) (taken : session.Step event next) :
    next.Sound dirs ∧ ∃ fp place, session.handles event.1 = some fp ∧ fp.At place ∧
      session.KeepsOthers next dirs event.1 place := by
  have here : ∀ id fp, session.handles id = some fp → ∃ place, fp.At place := fun id fp opened => by
    obtain ⟨place, located, _⟩ := sound.handle id fp opened
    exact ⟨place, located⟩
  have still : ∀ (handles : Nat → Option Fat32File) (id : Nat) (place : Nat × Nat),
      (∀ other, other ≠ id → handles other = session.handles other) →
      session.KeepsOthers ⟨session.vol, handles⟩ dirs id place := fun handles id place others =>
    ⟨others, fun _ _ _ _ _ => Iff.rfl, fun _ _ _ _ _ owned => ⟨owned, rfl⟩⟩
  cases taken with
  | @write id fp buff result opened returned =>
      obtain ⟨place, located⟩ := here id fp opened
      obtain ⟨kept, others⟩ := sound.write opened located returned
      exact ⟨kept, fp, place, opened, located, others⟩
  | @read id fp btr bytes fp' opened returned =>
      obtain ⟨place, located⟩ := here id fp opened
      obtain ⟨_, pos, returned'⟩ := fRead_isSome fp btr sound.chained.geometry
      obtain ⟨_, rfl⟩ := Prod.mk.inj (Option.some.inj (returned.symm.trans returned'))
      exact ⟨sound.reposition opened ⟨rfl, rfl⟩ rfl, fp, place, opened, located,
        still _ id place fun other different => by simp [different]⟩
  | @lseek id fp ofs fp' opened returned =>
      obtain ⟨place, located⟩ := here id fp opened
      obtain ⟨cluster, returned'⟩ := fLseek_eq fp ofs sound.chained.geometry
      obtain rfl := Option.some.inj (returned.symm.trans returned')
      exact ⟨sound.reposition opened ⟨rfl, rfl⟩ rfl, fp, place, opened, located,
        still _ id place fun other different => by simp [different]⟩
  | @sync id fp opened =>
      obtain ⟨place, located⟩ := here id fp opened
      obtain ⟨kept, others⟩ := sound.store opened located (fun _ _ isOpen => isOpen) fun _ _ => rfl
      exact ⟨kept, fp, place, opened, located, others⟩
  | @close id fp opened =>
      obtain ⟨place, located⟩ := here id fp opened
      have fewer : ∀ number handle, Function.update session.handles id none number = some handle →
          session.handles number = some handle := by
        intro number handle isOpen
        by_cases same : number = id
        · subst same
          simp at isOpen
        · simpa [same] using isOpen
      obtain ⟨kept, others⟩ := sound.store opened located fewer fun number different => by simp [different]
      exact ⟨kept, fp, place, opened, located, others⟩

/-- Every call on an open handle returns. -/
theorem returns (sound : session.Sound dirs) (call : HandleCall) (opened : session.handles id = some fp) :
    ∃ next, session.Step (id, call) next := by
  obtain ⟨place, located, _⟩ := sound.handle id fp opened
  obtain ⟨cells, owned⟩ := sound.owned place _ (.opened opened located)
  cases call with
  | write buff =>
      obtain ⟨result, _, returned, _⟩ := fWrite_cases buff sound.chained.geometry sound.chained.hint owned
      exact ⟨_, .write opened returned⟩
  | read btr =>
      obtain ⟨bytes, pos, returned⟩ := fRead_isSome fp btr sound.chained.geometry
      exact ⟨_, .read opened returned⟩
  | lseek ofs =>
      obtain ⟨cluster, returned⟩ := fLseek_eq fp ofs sound.chained.geometry
      exact ⟨_, .lseek opened returned⟩
  | sync => exact ⟨_, .sync opened⟩
  | close => exact ⟨_, .close opened⟩

end Session.Sound

/-- As long as the files own no clusters, any handles on them are apart. -/
theorem Consistent.session_sound {vol : Volume} {dirs : Set Nat} {handles : Nat → Option Fat32File}
    (consistent : Consistent vol dirs) (copies : FatCopiesEqual vol)
    (handle : ∀ id fp, handles id = some fp → fp.firstCluster = 0 ∧ ∃ place, fp.At place ∧
      ∃ dir ∈ dirs, ∃ slot, EntryAt vol dir place slot ∧ ¬ slot.IsDirectory) :
    (⟨vol, handles⟩ : Session).Sound dirs := by
  have empty : ∀ place first, (⟨vol, handles⟩ : Session).Owns dirs place first → first = 0 := by
    intro place first owns
    cases owns with
    | stored member entry file => exact consistent.file _ member _ _ entry file
    | opened isOpen _ => exact (handle _ _ isOpen).1
  have none : ∀ place first cells, (⟨vol, handles⟩ : Session).Owns dirs place first → OwnedChain vol first cells →
      ∀ cell, cell ∉ cells := by
    intro place first cells owns owned cell member
    obtain rfl := empty place first owns
    rcases owned with ⟨_, rfl⟩ | chain
    · exact absurd member List.not_mem_nil
    · exact chain.start_ne_zero rfl
  exact {
    chained := consistent.toChained
    copies := copies
    listed := fun dir member place slot entry lists => (consistent.target dir member place slot entry lists).1
    owned := fun place first owns => ⟨[], .inl ⟨empty place first owns, rfl⟩⟩
    clear := fun place first cells owns owned cell member => absurd member (none place first cells owns owned cell)
    apart := fun place first cells _ _ _ owns _ owned _ cell member =>
      absurd member (none place first cells owns owned cell)
    handle := fun id fp isOpen => (handle id fp isOpen).2 }

/-- No cluster of a chain has a zero FAT entry. -/
structure Session.Occupied (session : Session) (dirs : Set Nat) : Prop where
  directory : ∀ dir ∈ dirs, ∀ cell, InDir session.vol dir cell → fat32GetNextCluster session.vol cell ≠ 0
  file : ∀ place first cells, session.Owns dirs place first → OwnedChain session.vol first cells →
    ∀ cell ∈ cells, fat32GetNextCluster session.vol cell ≠ 0

/-- In every run of calls on open handles of a sound session, the chains of all files and
directories stay apart, no cluster of them is free, every call on an open handle returns, and
each call leaves the other files as they are. -/
theorem session_run_sound {start session : Session} {dirs : Set Nat} {trace : List (Nat × HandleCall)}
    (sound : start.Sound dirs) (run : Run Session.Step start trace session) :
    (session.Sound dirs ∧ session.Occupied dirs) ∧
      (∀ id fp call, session.handles id = some fp → ∃ next, session.Step (id, call) next) ∧
      ∀ event next, session.Step event next → next.Sound dirs ∧
        ∃ fp place, session.handles event.1 = some fp ∧ fp.At place ∧ session.KeepsOthers next dirs event.1 place := by
  have kept : session.Sound dirs := run.invariant (·.Sound dirs) sound fun before taken => (before.step taken).1
  refine ⟨⟨kept, ?_, ?_⟩, fun id fp call opened => kept.returns call opened, fun event next taken => kept.step taken⟩
  · exact fun dir _ cell inside => inside.next_ne_zero
  · exact fun place first cells _ owned cell member => owned.next_ne_zero member

/-- `/A` is created, written to and closed. -/
theorem session_run_sound_created :
    ∃ fp vol session, fOpen emptyVolume [slash, 0x41] faCreate = some (some fp, vol) ∧
      Run Session.Step ⟨vol, fun id => if id = 0 then some fp else none⟩ [(0, .write [1, 2, 3]), (0, .close)] session ∧
      session.Sound {2} ∧ session.Occupied {2} := by
  let last := ((fOpen emptyVolume [slash, 0x41] faCreate).getD (none, emptyVolume)).2
  let handle : Fat32File := ⟨0, 0, 0, 0, 2, 2, 0, [0x41], 4⟩
  have opened : fOpen emptyVolume [slash, 0x41] faCreate = some (some handle, last) :=
    eq_some_of_map_fst (none, emptyVolume) (by decide +kernel)
  have start : Consistent emptyVolume {2} := by
    have consistent := emptyVolume_emptyRoot.consistent
    rwa [emptyVolume_root] at consistent
  have copies : FatCopiesEqual last := fatCopiesEqual_of_single (by decide +kernel)
  have consistent : Consistent last {2} := by
    rcases start.fOpen_cases (by decide) (fun _ _ _ _ => by decide) opened with same | ⟨parent, place, created⟩
    · rw [same]
      exact start
    · exact created.consistent start
  have entry : EntryAt last 2 (2, 0) (newEntry [0x41] attrArchive 0 0) := by
    obtain ⟨cells, chain⟩ := consistent.chain 2 rfl
    exact ⟨(inDir_iff chain).mpr chain.linked.start_mem, by decide +kernel, by decide +kernel⟩
  have sound : (⟨last, fun id => if id = 0 then some handle else none⟩ : Session).Sound {2} := by
    refine consistent.session_sound copies fun id fp isOpen => ?_
    obtain ⟨_, rfl⟩ : id = 0 ∧ handle = fp := by simpa using isOpen
    exact ⟨rfl, (2, 0), ⟨rfl, rfl⟩, 2, rfl, _, entry, by decide +kernel⟩
  obtain ⟨written, wrote⟩ := sound.returns (.write [1, 2, 3]) (if_pos rfl : _ = some handle)
  have stillOpen : ∃ fp, written.handles 0 = some fp := by
    cases wrote with
    | @write _ _ _ result _ _ => exact ⟨result.fp, by simp⟩
  obtain ⟨fp, isOpen⟩ := stillOpen
  obtain ⟨closed, close⟩ := (sound.step wrote).1.returns .close isOpen
  have run := Run.snoc (Run.snoc .nil wrote) close
  exact ⟨handle, last, closed, opened, run, (session_run_sound sound run).1⟩

end KeblaOS.Fat32
