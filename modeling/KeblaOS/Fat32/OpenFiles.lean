import KeblaOS.Fat32.RoundTrip

/-!
# Opening files

`f_open` looks a name up, enters it if it is missing and fills a handle from the entry it has
then. Neither step touches a chain of a file, so `Session.Sound` goes over to the session with
the new handle. The mode has no other use: a file that is there keeps its size and its clusters,
also with `FA_CREATE_ALWAYS`.
-/

namespace KeblaOS.Fat32

open KeblaOS.Buffer

namespace Session.Sound

variable {session : Session} {dirs : Set Nat} {after : Volume} {parent cell index first size id : Nat}
  {cells cells' : List Nat} {name : List UInt8} {attr : UInt8} {place : Nat × Nat} {slot : Slot} {fp : Fat32File}

/-- No cluster of a file is in the directory that gets a new entry. -/
theorem apart_of_created {new : List Slot} {others : List Nat} (sound : session.Sound dirs) (member : parent ∈ dirs)
    (chain : ClusterChain session.vol parent cells)
    (created : Created session.vol after parent cells cells' cell index new) (owns : session.Owns dirs place first)
    (owned : OwnedChain session.vol first others) : ∀ other ∈ others, other ∉ cells' := by
  intro other inside claimed
  have outside := sound.clear place first others owns owned other inside parent member
  rcases created.only other claimed with old | rfl
  · exact outside ((inDir_iff chain).mpr old)
  · by_cases old : other ∈ cells
    · exact outside ((inDir_iff chain).mpr old)
    · exact owned.next_ne_zero inside (created.fresh old).1

/-- An entry without clusters that is no directory may be created. -/
theorem create (sound : session.Sound dirs) (member : parent ∈ dirs) (chain : ClusterChain session.vol parent cells)
    (created : Created session.vol after parent cells cells' cell index (entrySlots name attr 0 size))
    (file : attr &&& attrDirectory = 0) : (⟨after, session.handles⟩ : Session).Sound dirs := by
  have entries : ∀ {dir : Nat} {other : Nat × Nat} {slot : Slot}, dir ∈ dirs → (EntryAt after dir other slot ↔
      EntryAt session.vol dir other slot ∨ dir = parent ∧ other = (cell, index + lfnCount name) ∧
        slot = newEntry name attr 0 size ∧ slot.InUse) :=
    fun inDirs => created.entryAt_iff sound.chained member chain inDirs
  have plain : ¬ (newEntry name attr 0 size).IsDirectory := by
    rw [newEntry_isDirectory]
    exact not_not_intro file
  refine sound.of_views (cell, index + lfnCount name) 0 [] (created.keepsChained sound.chained member chain)
    (created.same.copies sound.copies) (fun dir inDirs other inside => ?_) (fun _ inside => absurd inside List.not_mem_nil)
    (fun dir inDirs at' slot' entry lists => ?_) (fun id fp isOpen => ?_) fun at' start owns => ?_
  · rcases created.inDir_cases sound.chained member chain dir inDirs other inside with before | ⟨rfl, rfl⟩
    · exact .inl ⟨dir, inDirs, before⟩
    · by_cases old : other ∈ cells
      · exact .inl ⟨dir, inDirs, (inDir_iff chain).mpr old⟩
      · exact .inr (created.fresh old).1
  · rcases (entries inDirs).mp entry with before | ⟨_, _, rfl, _⟩
    · exact sound.listed dir inDirs at' slot' before lists
    · exact absurd lists.1 plain
  · obtain ⟨at', located, dir, inDirs, slot', entry, notDirectory⟩ := sound.handle id fp isOpen
    exact ⟨at', located, dir, inDirs, slot', (entries inDirs).mpr (.inl entry), notDirectory⟩
  · have kept : session.Owns dirs at' start → session.Owns dirs at' start ∧ ∃ others, OwnedChain session.vol start others ∧
        OwnedChain after start others ∧ ∀ cell ∈ others, cell ∉ ([] : List Nat) := by
      intro owns
      obtain ⟨others, owned⟩ := sound.owned at' start owns
      exact ⟨owns, others, owned, owned.congr created.same (sound.apart_of_created member chain created owns owned),
        fun _ _ => List.not_mem_nil⟩
    cases owns with
    | stored inDirs entry notDirectory =>
        rcases (entries inDirs).mp entry with before | ⟨_, rfl, rfl, _⟩
        · exact .inl (kept (.stored inDirs before notDirectory))
        · have none : (newEntry name attr 0 size).firstCluster = 0 := newEntry_firstCluster (by decide)
          exact .inr ⟨rfl, none, .inl ⟨rfl, rfl⟩⟩
    | opened isOpen located => exact .inl (kept (.opened isOpen located))

/-- A handle may be opened on the entry of a file. -/
theorem attach {dir : Nat} (sound : session.Sound dirs) (member : dir ∈ dirs) (entry : EntryAt session.vol dir place slot)
    (file : ¬ slot.IsDirectory) (located : fp.At place) (first : fp.firstCluster = slot.firstCluster) :
    (⟨session.vol, Function.update session.handles id (some fp)⟩ : Session).Sound dirs := by
  refine sound.of_views (0, 0) 0 [] sound.chained sound.copies (fun dir inDirs _ inside => .inl ⟨dir, inDirs, inside⟩)
    (fun _ inside => absurd inside List.not_mem_nil) sound.listed (fun other handle isOpen => ?_)
    fun at' start owns => .inl ?_
  · by_cases same : other = id
    · subst same
      obtain rfl : fp = handle := by simpa using isOpen
      exact ⟨place, located, dir, member, slot, entry, file⟩
    · exact sound.handle other handle (by simpa [same] using isOpen)
  · have before : session.Owns dirs at' start := by
      cases owns with
      | stored inDirs entry notDirectory => exact .stored inDirs entry notDirectory
      | @opened other handle _ isOpen located' =>
          by_cases same : other = id
          · subst same
            obtain rfl : fp = handle := by simpa using isOpen
            rw [located'.unique located, first]
            exact .stored member entry file
          · exact .opened (by simpa [same] using isOpen) located'
    obtain ⟨cells, owned⟩ := sound.owned at' start before
    exact ⟨before, cells, owned, owned, fun _ _ => List.not_mem_nil⟩

end Session.Sound

/-! ## `f_open` -/

section Open

variable {vol after : Volume} {dirs : Set Nat} {path : List UInt8} {mode parent : Nat} {fp : Fat32File}
  {found : FoundEntry}

/-- The entry a path leads to, made if the name is missing. -/
def NamesEntry (vol : Volume) (path : List UInt8) (found : FoundEntry) : Prop :=
  ∃ parent, parentCluster vol path = some (some parent) ∧
    (fat32FindFile vol parent (lastComponent path) = some (some found) ∨
      fat32FindFile vol parent (lastComponent path) = some none ∧
        ∃ after, fat32CreateDirEntry vol parent (lastComponent path) attrArchive 0 0 = some (true, after) ∧
          fat32FindFile after parent (lastComponent path) = some (some found))

/-- An `f_open` that filled a handle, from an entry that was there or after it entered the name. -/
structure OpenedFrom (vol after : Volume) (path : List UInt8) (mode parent : Nat) (found : FoundEntry)
    (fp : Fat32File) : Prop where
  resolved : parentCluster vol path = some (some parent)
  handle : fp = openedFile parent (lastComponent path) mode found
  lookup : fat32FindFile after parent (lastComponent path) = some (some found)
  volume : after = vol ∨ fat32FindFile vol parent (lastComponent path) = some none ∧
    fat32CreateDirEntry vol parent (lastComponent path) attrArchive 0 0 = some (true, after)

theorem fOpen_opened (returned : fOpen vol path mode = some (some fp, after)) :
    ∃ parent found, OpenedFrom vol after path mode parent found fp := by
  unfold fOpen at returned
  cases resolved : parentCluster vol path with
  | none => simp [resolved] at returned
  | some directory =>
      cases directory with
      | none => simp [resolved] at returned
      | some parent =>
          rw [resolved] at returned
          dsimp only at returned
          cases lookup : fat32FindFile vol parent (lastComponent path) with
          | none => simp [lookup] at returned
          | some answer =>
              rw [lookup] at returned
              cases answer with
              | some found =>
                  obtain ⟨handle, rfl⟩ := Prod.mk.inj (Option.some.inj returned)
                  exact ⟨parent, found, resolved, (Option.some.inj handle).symm, lookup, .inl rfl⟩
              | none =>
                  dsimp only at returned
                  split_ifs at returned
                  · simp at returned
                  split at returned
                  · simp at returned
                  · simp at returned
                  · rename_i middle creation
                    obtain ⟨answer, lookup', shape⟩ := Option.map_eq_some_iff.mp returned
                    obtain ⟨filled, rfl⟩ := Prod.mk.inj shape
                    obtain ⟨found, rfl, handle⟩ := Option.map_eq_some_iff.mp filled
                    exact ⟨parent, found, resolved, handle.symm, lookup', .inr ⟨lookup, creation⟩⟩

/-- The entry a handle is filled from is the one the path leads to. -/
theorem OpenedFrom.namesEntry_iff {other : FoundEntry} (opened : OpenedFrom vol after path mode parent found fp) :
    NamesEntry vol path other ↔ other = found := by
  constructor
  · rintro ⟨parent', resolved, looked⟩
    obtain rfl : parent = parent' := by simpa using opened.resolved.symm.trans resolved
    rcases opened.volume with rfl | ⟨missing, creation⟩
    · rcases looked with lookup | ⟨missing, _⟩
      · simpa using lookup.symm.trans opened.lookup
      · simp [opened.lookup] at missing
    · rcases looked with lookup | ⟨_, after', creation', lookup⟩
      · simp [missing] at lookup
      · obtain ⟨_, rfl⟩ := Prod.mk.inj (Option.some.inj (creation.symm.trans creation'))
        simpa using lookup.symm.trans opened.lookup
  · rintro rfl
    refine ⟨parent, opened.resolved, ?_⟩
    rcases opened.volume with rfl | ⟨missing, creation⟩
    · exact .inl opened.lookup
    · exact .inr ⟨missing, after, creation, opened.lookup⟩

/-- Paths can be followed in a sound session. -/
theorem Session.Sound.walkable {session : Session} (sound : session.Sound dirs) (cwd : session.vol.cwdCluster ∈ dirs) :
    Walkable session.vol dirs where
  toChained := sound.chained
  cwd := cwd
  target := sound.listed

/-- The session is sound after `f_open`, before the new handle is in it, and the handle is on an
entry. -/
theorem Session.Sound.openFile {session : Session} (sound : session.Sound dirs) (cwd : session.vol.cwdCluster ∈ dirs)
    (opened : OpenedFrom session.vol after path mode parent found fp) :
    parent ∈ dirs ∧ (⟨after, session.handles⟩ : Session).Sound dirs ∧
      ∃ place, fp.At place ∧ EntryAt after parent place found.entry := by
  have member := (sound.walkable cwd).parentCluster_mem opened.resolved
  have created : (⟨after, session.handles⟩ : Session).Sound dirs := by
    rcases opened.volume with rfl | ⟨_, creation⟩
    · exact sound
    · obtain ⟨cells, chain⟩ := sound.chained.chain parent member
      rcases fat32CreateDirEntry_cases sound.chained.geometry sound.chained.hint chain creation with
        ⟨impossible, _⟩ | ⟨_, cells', cell, index, created⟩
      · simp at impossible
      · exact sound.create member chain created (by decide)
  obtain ⟨place, cluster, offset, entry⟩ := created.chained.findFile_found member opened.lookup
  refine ⟨member, created, place, ?_, entry⟩
  rw [opened.handle]
  exact ⟨cluster, offset⟩

end Open

/-! ## `FA_CREATE_ALWAYS` -/

/-- The entry in this slot describes a file that holds the data and nothing else. -/
def HoldsExactly (vol : Volume) (place : Nat × Nat) (data : List UInt8) : Prop :=
  ∃ slot cells, (clusterSlots vol place.1)[place.2]? = some slot ∧ slot.fileSize = data.length ∧
    OwnedChain vol slot.firstCluster cells ∧ (chainBytes vol cells).take data.length = data

/-- The file a path names, made if it is missing, has at most that many bytes. -/
def SizeAtMost (vol : Volume) (path : List UInt8) (size : Nat) : Prop :=
  ∀ found, NamesEntry vol path found → found.entry.fileSize ≤ size

section Always

variable {vol after : Volume} {dirs : Set Nat} {path data : List UInt8} {mode parent : Nat} {fp : Fat32File}
  {found : FoundEntry}

theorem Slot.fileSize_lt (slot : Slot) : slot.fileSize < 4294967296 := by
  have bytes := leNat_lt (slice slot 28 4)
  have few : (slice slot 28 4).length ≤ 4 := List.length_take_le _ _
  exact bytes.trans_le (Nat.pow_le_pow_right (by decide) few)

/-- The handle has the size of the file the path names. -/
theorem OpenedFrom.sizeAtMost_iff (opened : OpenedFrom vol after path mode parent found fp) (size : Nat) :
    SizeAtMost vol path size ↔ fp.size ≤ size := by
  have filled : fp.size = found.entry.fileSize := by rw [opened.handle]; rfl
  simp only [SizeAtMost, opened.namesEntry_iff, forall_eq, filled]

/-- What `f_close` stores for a handle is in the slot of its entry. -/
theorem Session.Sound.close_slot {session : Session} {id : Nat} {place : Nat × Nat} {cells : List Nat}
    (sound : session.Sound dirs) (opened : session.handles id = some fp) (located : fp.At place)
    (owned : OwnedChain session.vol fp.firstCluster cells) (sized : fp.size < 4294967296) :
    ∃ slot, (clusterSlots (fClose session.vol fp).1 place.1)[place.2]? = some slot ∧ slot.fileSize = fp.size ∧
      slot.firstCluster = fp.firstCluster ∧ OwnedChain (fClose session.vol fp).1 fp.firstCluster cells ∧
      chainBytes (fClose session.vol fp).1 cells = chainBytes session.vol cells := by
  obtain ⟨place', located', dir, member, slot, entry, _⟩ := sound.handle id fp opened
  obtain rfl := located.unique located'
  have whole := length_of_clusterSlots entry.live.1
  have rewritten := rewritten_sync sound.chained located entry
  have stored := (rewritten.entries dir member place _).mpr (.inr ⟨rfl, rfl, entry.inside⟩)
  refine ⟨_, stored.live.1, Slot.withFile_fileSize _ whole sized,
    Slot.withFile_firstCluster _ whole (owned.first_lt sound.chained.geometry), ?_, ?_⟩
  · exact owned.congr rewritten.same fun _ _ => Set.notMem_empty _
  · refine chainBytes_congr rewritten.same (fun cell inside => owned.isCluster inside) fun cell inside same => ?_
    refine sound.clear place _ cells (.opened opened located) owned cell inside dir member ?_
    rw [Set.mem_singleton_iff.mp same]
    exact entry.inside

/-- `f_open`, with whatever mode, `f_write` and `f_close` leave exactly the data in the file if and
only if the file was no longer before. -/
theorem open_write_close_exact_iff (vol opened : Volume) (dirs : Set Nat) (path data : List UInt8) (mode : Nat)
    (fp : Fat32File) (result : WriteResult) (sound : (⟨vol, fun _ => none⟩ : Session).Sound dirs)
    (cwd : vol.cwdCluster ∈ dirs) (opens : fOpen vol path mode = some (some fp, opened))
    (file : ∀ slot, (clusterSlots opened fp.dirEntryCluster)[fp.dirEntryOffset / 32]? = some slot → ¬ slot.IsDirectory)
    (sized : data.length < 4294967296) (writes : fWrite opened fp data = some result) (ok : result.ok = true) :
    HoldsExactly (fClose result.vol result.fp).1 (fp.dirEntryCluster, fp.dirEntryOffset / 32) data ↔
      SizeAtMost vol path data.length := by
  obtain ⟨parent, found, from'⟩ := fOpen_opened opens
  have handle := from'.handle
  obtain ⟨member, created, place, located, entry⟩ := sound.openFile cwd from'
  have here : (fp.dirEntryCluster, fp.dirEntryOffset / 32) = place := by
    apply Prod.ext
    · exact located.1
    · have offset := located.2
      dsimp only
      omega
  have plain : ¬ found.entry.IsDirectory := by
    apply file
    rw [located.1, show fp.dirEntryOffset / 32 = place.2 from congrArg Prod.snd here]
    exact entry.live.1
  let handles : Nat → Option Fat32File := Function.update (fun _ => none) 0 (some fp)
  let session : Session := ⟨opened, handles⟩
  have sound1 : session.Sound dirs := created.attach member entry plain located (by rw [handle]; rfl)
  have isOpen : session.handles 0 = some fp := by simp [session, handles]
  rw [here, from'.sizeAtMost_iff]
  obtain ⟨cells, owned⟩ := sound1.owned place _ (.opened isOpen located)
  obtain ⟨result', added, writes', wrote⟩ := fWrite_cases data sound1.chained.geometry sound1.chained.hint owned
  obtain rfl : result' = result := Option.some.inj (writes'.symm.trans writes)
  obtain ⟨sound2, _⟩ := sound1.write isOpen located writes
  have start : fp.pos = 0 := by rw [handle]; rfl
  have small : fp.size < 4294967296 := by
    rw [handle]
    exact found.entry.fileSize_lt
  rcases wrote.outcome with ⟨failed, _⟩ | ⟨_, _, _, size, spliced⟩
  · rw [ok] at failed
    contradiction
  rw [start, Nat.zero_add, u32_of_lt sized] at size
  have written := spliced (by rw [start]; exact Nat.zero_le _)
  rw [start] at written
  have content : (chainBytes result'.vol (cells ++ added)).take data.length = data := written.slice_eq (Nat.zero_le _)
  have located' : result'.fp.At place :=
    ⟨wrote.sameEntry.dirEntryCluster.trans located.1, wrote.sameEntry.dirEntryOffset.trans located.2⟩
  have isOpen' : (⟨result'.vol, Function.update handles 0 (some result'.fp)⟩ : Session).handles 0 = some result'.fp := by
    simp
  obtain ⟨slot, there, stored, first, kept, bytes⟩ := sound2.close_slot isOpen' located' wrote.owned
    (show result'.fp.size < 4294967296 by omega)
  constructor
  · rintro ⟨slot', _, there', holds, _⟩
    obtain rfl : slot = slot' := Option.some.inj (there.symm.trans there')
    omega
  · intro bounded
    refine ⟨slot, cells ++ added, there, by omega, ?_, ?_⟩
    · rw [first]
      exact kept
    · rw [bytes]
      exact content

/-- A file that is missing and can be found again under its name has no bytes. -/
theorem Navigable.sizeAtMost_of_missing (navigable : Navigable vol dirs) (findable : FindableName (lastComponent path))
    (resolved : parentCluster vol path = some (some parent))
    (missing : fat32FindFile vol parent (lastComponent path) = some none) (size : Nat) : SizeAtMost vol path size := by
  have member := navigable.parentCluster_mem resolved
  obtain ⟨cells, chain⟩ := navigable.chain parent member
  rintro found' ⟨parent', resolved', looked⟩
  obtain rfl : parent = parent' := by simpa using resolved.symm.trans resolved'
  rcases looked with lookup | ⟨_, after, creation, lookup⟩
  · simp [missing] at lookup
  · rcases fat32CreateDirEntry_cases navigable.geometry navigable.hint chain creation with
      ⟨impossible, _⟩ | ⟨_, cells', cell, index, created⟩
    · simp at impossible
    · have geometry' : Geometry after.bpb := by
        rw [created.same.bpb]
        exact navigable.geometry
      have lookup' := (Inserted.of_created created chain).findFile navigable.geometry geometry' chain
        (fun other inside => navigable.zeros parent member other ((inDir_iff chain).mpr inside)) missing findable.few
        findable.inUse newEntry_name
      obtain rfl := Option.some.inj (Option.some.inj (lookup'.symm.trans lookup))
      have empty : (newEntry (lastComponent path) attrArchive 0 0).fileSize = 0 :=
        shortSlot_fileSize (length_fat32Format83Name _) (by decide)
      rw [empty]
      exact Nat.zero_le size

theorem emptyVolume_sound : (⟨emptyVolume, fun _ => none⟩ : Session).Sound {2} := by
  have consistent := emptyVolume_emptyRoot.consistent
  rw [emptyVolume_root] at consistent
  exact consistent.session_sound (fatCopiesEqual_of_single (by decide +kernel)) fun _ _ isOpen => by simp at isOpen

/-- A new file `/A` gets three bytes. -/
theorem open_write_close_exact_iff_new :
    ∃ fp opened result, fOpen emptyVolume [slash, 0x41] faCreateAlways = some (some fp, opened) ∧
      fWrite opened fp [1, 2, 3] = some result ∧ result.ok = true ∧
      HoldsExactly (fClose result.vol result.fp).1 (fp.dirEntryCluster, fp.dirEntryOffset / 32) [1, 2, 3] := by
  have computed : (fOpen emptyVolume [slash, 0x41] faCreateAlways).any (fun answer => answer.1.any fun fp =>
      (fWrite answer.2 fp [1, 2, 3]).any (fun result => result.ok) ∧
      (clusterSlots answer.2 fp.dirEntryCluster)[fp.dirEntryOffset / 32]?.any fun slot => ¬ slot.IsDirectory) = true := by
    decide +kernel
  obtain ⟨⟨answer, opened⟩, opens, computed⟩ := (Option.any_eq_true _ _).mp computed
  obtain ⟨fp, rfl, computed⟩ := (Option.any_eq_true _ _).mp computed
  obtain ⟨written, plain⟩ := of_decide_eq_true computed
  obtain ⟨result, writes, ok⟩ := (Option.any_eq_true _ _).mp written
  obtain ⟨slot, there, file⟩ := (Option.any_eq_true _ _).mp plain
  refine ⟨fp, opened, result, opens, writes, ok, ?_⟩
  refine (open_write_close_exact_iff emptyVolume opened {2} [slash, 0x41] [1, 2, 3] faCreateAlways fp result
    emptyVolume_sound (by rw [show emptyVolume.cwdCluster = 2 by decide +kernel]; rfl) opens (fun slot' there' => ?_)
    (by decide) writes ok).mpr ?_
  · obtain rfl := Option.some.inj (there.symm.trans there')
    exact of_decide_eq_true file
  · have resolved : parentCluster emptyVolume [slash, 0x41] = some (some 2) := by decide +kernel
    exact emptyVolume_navigable.sizeAtMost_of_missing ⟨by decide, by decide, by decide⟩ resolved (by decide +kernel) _

/-- One byte written to the file that `FA_CREATE_ALWAYS` opened a second time leaves three bytes. -/
theorem createAlways_keeps_size :
    ∃ fp opened result fp' opened' result', fOpen emptyVolume [slash, 0x41] faCreateAlways = some (some fp, opened) ∧
      fWrite opened fp [1, 2, 3] = some result ∧
      fOpen (fClose result.vol result.fp).1 [slash, 0x41] faCreateAlways = some (some fp', opened') ∧
      fWrite opened' fp' [9] = some result' ∧ result'.ok = true ∧
      ¬ HoldsExactly (fClose result'.vol result'.fp).1 (fp'.dirEntryCluster, fp'.dirEntryOffset / 32) [9] := by
  have computed : (fOpen emptyVolume [slash, 0x41] faCreateAlways).any (fun answer => answer.1.any fun fp =>
      (fWrite answer.2 fp [1, 2, 3]).any fun result =>
        (fOpen (fClose result.vol result.fp).1 [slash, 0x41] faCreateAlways).any fun answer' => answer'.1.any fun fp' =>
          (fWrite answer'.2 fp' [9]).any fun result' => result'.ok ∧
            (clusterSlots (fClose result'.vol result'.fp).1 fp'.dirEntryCluster)[fp'.dirEntryOffset / 32]?.any fun slot =>
              slot.fileSize = 3) = true := by decide +kernel
  obtain ⟨⟨answer, opened⟩, opens, computed⟩ := (Option.any_eq_true _ _).mp computed
  obtain ⟨fp, rfl, computed⟩ := (Option.any_eq_true _ _).mp computed
  obtain ⟨result, writes, computed⟩ := (Option.any_eq_true _ _).mp computed
  obtain ⟨⟨answer', opened'⟩, opens', computed⟩ := (Option.any_eq_true _ _).mp computed
  obtain ⟨fp', rfl, computed⟩ := (Option.any_eq_true _ _).mp computed
  obtain ⟨result', writes', computed⟩ := (Option.any_eq_true _ _).mp computed
  obtain ⟨ok, computed⟩ := of_decide_eq_true computed
  obtain ⟨slot, there, size⟩ := (Option.any_eq_true _ _).mp computed
  refine ⟨fp, opened, result, fp', opened', result', opens, writes, opens', writes', ok, ?_⟩
  rintro ⟨slot', _, there', holds, _⟩
  obtain rfl := Option.some.inj (there.symm.trans there')
  rw [of_decide_eq_true size] at holds
  simp at holds

end Always

end KeblaOS.Fat32
