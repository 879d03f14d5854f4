import KeblaOS.Ahci.Command

/-!
# Sending a command

`runCommand` prepares a command in the first free slot and sends it when the port is ready. `runCommand_cases`
splits a call into the ones that do not come so far and the ones that do, with the log up to the write to
`ci`.
-/

namespace KeblaOS.Ahci

open Memory (physToVir)

/-! ## Logs -/

theorem readsOf_snoc_read (register other : Register) (log : List Access) (value : UInt32) :
    readsOf register (log ++ [.read other value]) = readsOf register log + if other = register then 1 else 0 := by
  unfold readsOf
  rw [List.countP_append, List.countP_singleton]
  by_cases same : other = register <;> simp [same]

theorem readsOf_append (register : Register) (log more : List Access) :
    readsOf register (log ++ more) = readsOf register log + readsOf register more := List.countP_append

@[simp] theorem Port.read_fst (port : Port) (log : List Access) (register : Register) :
    (port.read log register).1 = port register (readsOf register log) := rfl

@[simp] theorem Port.read_snd (port : Port) (log : List Access) (register : Register) :
    (port.read log register).2 = log ++ [.read register (port register (readsOf register log))] := rfl

/-! ## What is sent -/

/-- The command list that the port names. -/
def commandList (hhdm : UInt64) (port : Port) : UInt64 := physToVir hhdm (address (port .clb 0) (port .clbu 0))

/-- The command table of a slot. -/
def commandTable (hhdm : UInt64) (word : UInt64 → UInt32) (port : Port) (slot : Nat) : UInt64 :=
  physToVir hhdm (tablePhys word (headerOf (commandList hhdm port) slot))

/-- The command is prepared in this slot and sent: the slot is the first free one, the addresses are not null,
the entries have room and the port is ready in time. -/
structure Sends (hhdm : UInt64) (word : UInt64 → UInt32) (port : Port) (request : CommandRequest) (slot : Nat) :
    Prop where
  free : freeSlot (port .sact 0 ||| port .ci 0) 0 32 = some slot
  list : commandList hhdm port ≠ 0
  table : commandTable hhdm word port slot ≠ 0
  room : (request.prdt hhdm).2 = true
  ready : ∃ turn < waitTurns, port .tfd turn &&& deviceBusy = 0

/-- What is done to memory before the port is asked whether it is ready. -/
def preparation (hhdm : UInt64) (word : UInt64 → UInt32) (port : Port) (request : CommandRequest) (slot : Nat) :
    List Access :=
  let header := headerOf (commandList hhdm port) slot
  let table := commandTable hhdm word port slot
  [Access.read .clbu (port .clbu 0), .read .clb (port .clb 0), .flags header 5 (request.write &&& 1), .clear table 4096] ++
    prdtStores table (request.prdt hhdm).1 ++
    [Access.prdtl header (UInt16.ofNat (request.prdt hhdm).1.length), .clear table 20, .fis table request.fis]

/-- The accesses before the slot is known. -/
def searchLog (port : Port) : List Access :=
  [.write .is 0xFFFFFFFF, .read .sact (port .sact 0), .read .ci (port .ci 0)]

/-- A write to `ci`. -/
def Issues (log : List Access) : Prop := ∃ value, Access.write .ci value ∈ log

/-- Reads of one of these registers only. -/
def OnlyReads (registers : List Register) (polls : List Access) : Prop :=
  ∀ poll ∈ polls, ∃ register ∈ registers, ∃ value, poll = .read register value

theorem OnlyReads.singleton {register : Register} (value : UInt32) : OnlyReads [register] [.read register value] := by
  intro poll there
  exact ⟨register, List.mem_singleton_self register, value, List.mem_singleton.mp there⟩

theorem OnlyReads.append {registers : List Register} {polls more : List Access} (first : OnlyReads registers polls)
    (then_more : OnlyReads registers more) : OnlyReads registers (polls ++ more) := by
  intro poll there
  rcases List.mem_append.mp there with front | back
  · exact first poll front
  · exact then_more poll back

theorem OnlyReads.mono {registers more : List Register} {polls : List Access} (reads : OnlyReads registers polls)
    (within : registers ⊆ more) : OnlyReads more polls := by
  intro poll there
  obtain ⟨register, listed, value⟩ := reads poll there
  exact ⟨register, within listed, value⟩

theorem OnlyReads.not_issues {registers : List Register} {polls : List Access} (reads : OnlyReads registers polls) :
    ¬ Issues polls := by
  rintro ⟨value, there⟩
  obtain ⟨_, _, _, same⟩ := reads _ there
  exact Access.noConfusion same

theorem OnlyReads.readsOf_eq_zero {registers : List Register} {polls : List Access} {register : Register}
    (reads : OnlyReads registers polls) (other : register ∉ registers) : readsOf register polls = 0 := by
  refine List.countP_eq_zero.mpr fun access there => ?_
  obtain ⟨read, listed, value, rfl⟩ := reads access there
  have different : read ≠ register := by
    rintro rfl
    exact other listed
  simpa using different

section Sent

variable {hhdm : UInt64} {word : UInt64 → UInt32} {port : Port} {request : CommandRequest} {slot : Nat}

theorem length_prdtLoop (virt : UInt64) (room : Nat) (offset totalBytes : UInt32) :
    (prdtLoop hhdm virt room offset totalBytes).1.length ≤ room := by
  induction room generalizing offset totalBytes with
  | zero => exact Nat.le_refl 0
  | succ room ih =>
      unfold prdtLoop
      split_ifs
      · exact Nat.zero_le _
      · exact Nat.succ_le_succ (ih _ _)

theorem not_mem_prdtStores {table : UInt64} {entries : List PrdtEntry} {register : Register} {value : UInt32} :
    Access.write register value ∉ prdtStores table entries ∧ Access.read register value ∉ prdtStores table entries := by
  unfold prdtStores
  constructor <;> intro there <;> simp [List.mem_mapIdx] at there

theorem waitReady_eq (turns spin : Nat) (log : List Access) :
    ∃ polls, (waitReady port turns spin log).2 = log ++ polls ∧ OnlyReads [.tfd] polls ∧ polls.length ≤ turns + 1 ∧
      ((waitReady port turns spin log).1 = spin + turns ↔
        ∀ turn < turns, port .tfd (readsOf .tfd log + turn) &&& deviceBusy ≠ 0) := by
  induction turns generalizing spin log with
  | zero =>
      refine ⟨_, rfl, .singleton _, Nat.le_refl _, ?_⟩
      exact iff_of_true rfl fun turn before => absurd before (Nat.not_lt_zero _)
  | succ turns ih =>
      unfold waitReady
      dsimp only [Port.read]
      by_cases busy : port .tfd (readsOf .tfd log) &&& deviceBusy ≠ 0
      · rw [if_pos busy]
        obtain ⟨polls, same, ready, short, spins⟩ := ih (spin + 1) (log ++ [.read .tfd (port .tfd (readsOf .tfd log))])
        rw [readsOf_snoc_read, if_pos rfl] at spins
        refine ⟨.read .tfd (port .tfd (readsOf .tfd log)) :: polls, ?_, ?_, Nat.succ_le_succ short, ?_⟩
        · rw [same, List.append_assoc, List.singleton_append]
        · exact (OnlyReads.singleton _).append ready
        · rw [show spin + (turns + 1) = spin + 1 + turns by omega, spins]
          constructor
          · intro later turn before
            cases turn with
            | zero => exact busy
            | succ turn =>
                have here := later turn (by omega)
                rwa [Nat.add_assoc, Nat.add_comm 1 turn] at here
          · intro all turn before
            rw [Nat.add_assoc, Nat.add_comm 1 turn]
            exact all (turn + 1) (by omega)
      · rw [if_neg busy]
        refine ⟨_, rfl, .singleton _, ?_, ?_⟩
        · rw [List.length_singleton]
          omega
        · refine iff_of_false (by dsimp only; omega) fun all => busy (all 0 (Nat.succ_pos turns))

theorem length_prdtStores (table : UInt64) : (prdtStores table (request.prdt hhdm).1).length ≤ 256 := by
  rw [prdtStores, List.length_mapIdx]
  exact length_prdtLoop _ _ _ _

/-- The preparation in terms of the two addresses. -/
theorem prepareCommand_searchLog :
    prepareCommand hhdm word port request slot (searchLog port) =
      let log := searchLog port ++ [Access.read .clbu (port .clbu 0)] ++ [Access.read .clb (port .clb 0)]
      let header := headerOf (commandList hhdm port) slot
      let table := commandTable hhdm word port slot
      if commandList hhdm port = 0 then (false, log)
      else
        let log := log ++ [Access.flags header 5 (request.write &&& 1)]
        if table = 0 then (false, log)
        else
          let log := log ++ Access.clear table 4096 :: prdtStores table (request.prdt hhdm).1
          if (request.prdt hhdm).2 = false then (false, log)
          else
            (true, log ++ [Access.prdtl header (UInt16.ofNat (request.prdt hhdm).1.length), .clear table 20,
              .fis table request.fis]) := by
  have upper : readsOf .clbu (searchLog port) = 0 := rfl
  have lower : readsOf .clb (searchLog port ++ [.read .clbu (port .clbu 0)]) = 0 := rfl
  unfold prepareCommand
  dsimp only [Port.read]
  rw [upper, lower, commandTable, commandList]

theorem prepareCommand_sent (list : commandList hhdm port ≠ 0) (table : commandTable hhdm word port slot ≠ 0)
    (room : (request.prdt hhdm).2 = true) :
    prepareCommand hhdm word port request slot (searchLog port) =
      (true, searchLog port ++ preparation hhdm word port request slot) := by
  rw [prepareCommand_searchLog]
  dsimp only
  rw [if_neg list, if_neg table, room, if_neg (by decide), preparation]
  simp only [List.append_assoc, List.cons_append, List.nil_append]

theorem prepareCommand_refused
    (refused : ¬ (commandList hhdm port ≠ 0 ∧ commandTable hhdm word port slot ≠ 0 ∧ (request.prdt hhdm).2 = true)) :
    ∃ stores, prepareCommand hhdm word port request slot (searchLog port) = (false, searchLog port ++ stores) ∧
      stores.length ≤ 260 ∧ ¬ Issues stores := by
  rw [prepareCommand_searchLog]
  dsimp only
  by_cases list : commandList hhdm port = 0
  · rw [if_pos list, List.append_assoc]
    exact ⟨_, rfl, by simp, by simp [Issues]⟩
  · rw [if_neg list]
    by_cases table : commandTable hhdm word port slot = 0
    · rw [if_pos table, List.append_assoc, List.append_assoc]
      exact ⟨_, rfl, by simp, by simp [Issues]⟩
    · have overflow : (request.prdt hhdm).2 = false :=
        Bool.eq_false_iff.mpr fun room => refused ⟨list, table, room⟩
      rw [if_neg table, overflow, if_pos rfl]
      simp only [List.append_assoc]
      refine ⟨_, rfl, ?_, ?_⟩
      · have short := @length_prdtStores hhdm request (commandTable hhdm word port slot)
        simp only [List.length_append, List.length_cons, List.length_nil]
        omega
      · simp [Issues, not_mem_prdtStores]

theorem findCMDSlot_eq :
    findCMDSlot port 32 [.write .is 0xFFFFFFFF] = (freeSlot (port .sact 0 ||| port .ci 0) 0 32, searchLog port) := rfl

/-- The log up to the write to `ci`, for these reads of `tfd`. -/
def issuedLog (hhdm : UInt64) (word : UInt64 → UInt32) (port : Port) (request : CommandRequest) (slot : Nat)
    (polls : List Access) : List Access :=
  searchLog port ++ preparation hhdm word port request slot ++ polls ++ [Access.read .ci (port .ci 1)] ++
    [Access.write .ci (port .ci 1 ||| slotBit slot)]

theorem readsOf_prdtStores (register : Register) (table : UInt64) (entries : List PrdtEntry) :
    readsOf register (prdtStores table entries) = 0 := by
  refine List.countP_eq_zero.mpr fun access there => ?_
  cases access <;> simp
  rintro rfl
  exact not_mem_prdtStores.2 there

theorem length_preparation : (preparation hhdm word port request slot).length ≤ 263 := by
  have short := @length_prdtStores hhdm request (commandTable hhdm word port slot)
  unfold preparation
  simp only [List.length_append, List.length_cons, List.length_nil]
  omega

theorem length_issuedLog {polls : List Access} (few : polls.length ≤ waitTurns + 1) :
    (issuedLog hhdm word port request slot polls).length ≤ waitTurns + 269 := by
  have short := @length_preparation hhdm word port request slot
  simp only [issuedLog, searchLog, List.length_append, List.length_cons, List.length_nil]
  omega

theorem readsOf_preparation (register : Register) (other : register ≠ .clbu ∧ register ≠ .clb) :
    readsOf register (preparation hhdm word port request slot) = 0 := by
  unfold preparation
  dsimp only
  rw [readsOf_append, readsOf_append, readsOf_prdtStores]
  simp [readsOf, other.1.symm, other.2.symm]

theorem readsOf_issuedLog {polls : List Access} (ready : OnlyReads [.tfd] polls) :
    readsOf .ci (issuedLog hhdm word port request slot polls) = 2 ∧
      readsOf .is (issuedLog hhdm word port request slot polls) = 0 := by
  simp only [issuedLog, readsOf_append]
  rw [ready.readsOf_eq_zero (by decide), ready.readsOf_eq_zero (by decide), readsOf_preparation _ (by decide),
    readsOf_preparation _ (by decide)]
  exact ⟨rfl, rfl⟩

theorem issues_append (log more : List Access) : Issues (log ++ more) ↔ Issues log ∨ Issues more := by
  simp only [Issues, List.mem_append, exists_or]

theorem not_issues_searchLog : ¬ Issues (searchLog port) := by simp [Issues, searchLog]

theorem not_issues_preparation : ¬ Issues (preparation hhdm word port request slot) := by
  simp [Issues, preparation, not_mem_prdtStores]

/-- A call does not send a command, or it sends one and waits for it. -/
theorem runCommand_cases (hhdm : UInt64) (word : UInt64 → UInt32) (port : Port) (request : CommandRequest) :
    (∃ log, runCommand hhdm word (some port) request = (false, log) ∧ log.length ≤ waitTurns + 268 ∧ ¬ Issues log ∧
        ¬ ∃ slot, Sends hhdm word port request slot) ∨
      ∃ slot polls, Sends hhdm word port request slot ∧ OnlyReads [.tfd] polls ∧ polls.length ≤ waitTurns + 1 ∧
        runCommand hhdm word (some port) request =
          finishCommand port (slotBit slot) (issuedLog hhdm word port request slot polls) := by
  unfold runCommand
  dsimp only
  rw [findCMDSlot_eq]
  cases free : freeSlot (port .sact 0 ||| port .ci 0) 0 32 with
  | none =>
      refine .inl ⟨_, rfl, by simp [searchLog], by simp [Issues, searchLog], fun ⟨slot, sends⟩ => ?_⟩
      exact absurd (free.symm.trans sends.free) (Option.some_ne_none slot).symm
  | some slot =>
      dsimp only
      have one : ∀ other, Sends hhdm word port request other → other = slot := fun other sends =>
        Option.some.inj (sends.free.symm.trans free)
      by_cases prepared : commandList hhdm port ≠ 0 ∧ commandTable hhdm word port slot ≠ 0 ∧ (request.prdt hhdm).2 = true
      · obtain ⟨list, table, room⟩ := prepared
        rw [prepareCommand_sent list table room]
        dsimp only
        have short := @length_preparation hhdm word port request slot
        have unread : readsOf .tfd (searchLog port ++ preparation hhdm word port request slot) = 0 := by
          rw [readsOf_append, readsOf_preparation _ (by decide)]
          rfl
        obtain ⟨polls, waited, ready, few, spins⟩ :=
          @waitReady_eq port waitTurns 0 (searchLog port ++ preparation hhdm word port request slot)
        rw [unread, Nat.zero_add] at spins
        simp only [Nat.zero_add] at spins
        by_cases hung : ∀ turn < waitTurns, port .tfd turn &&& deviceBusy ≠ 0
        · rw [if_pos (spins.mpr hung), waited]
          refine .inl ⟨_, rfl, ?_, ?_, fun ⟨other, sends⟩ => ?_⟩
          · simp only [List.length_append, searchLog, List.length_cons, List.length_nil]
            omega
          · simp only [issues_append, not_issues_searchLog, not_issues_preparation, ready.not_issues, or_self,
              not_false_eq_true]
          · obtain ⟨turn, before, idle⟩ := sends.ready
            exact hung turn before idle
        · rw [if_neg (fun same => hung (spins.mp same)), waited]
          have idle : ∃ turn < waitTurns, port .tfd turn &&& deviceBusy = 0 := by
            push Not at hung
            exact hung
          have next : readsOf .ci (searchLog port ++ preparation hhdm word port request slot ++ polls) = 1 := by
            rw [readsOf_append, readsOf_append, readsOf_preparation _ (by decide),
              ready.readsOf_eq_zero (by decide)]
            rfl
          refine .inr ⟨slot, polls, ⟨free, list, table, room, idle⟩, ready, few, ?_⟩
          dsimp only [Port.read]
          rw [next, issuedLog]
      · obtain ⟨stores, same, short, unsent⟩ := prepareCommand_refused prepared
        rw [same]
        refine .inl ⟨_, rfl, ?_, ?_, fun ⟨other, sends⟩ => ?_⟩
        · simp only [List.length_append, searchLog, List.length_cons, List.length_nil]
          omega
        · simp only [issues_append, not_issues_searchLog, unsent, or_self, not_false_eq_true]
        · obtain rfl := one other sends
          exact prepared ⟨sends.list, sends.table, sends.room⟩

end Sent

end KeblaOS.Ahci
