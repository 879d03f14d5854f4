import KeblaOS.Ahci.Sending

/-!
# Whether a command is done

`runCommand` waits while the bit of the command is set and `timeout` is not 0, and tells by `timeout == 0`
that it has waited too long. But `timeout--` leaves -1 behind when the loop ends that way; 0 is what is left
when the port clears the bit in the last turn.
-/

namespace KeblaOS.Ahci

/-! ## The wait for completion -/

/-- The port shows the bit of the command in all turns of the wait and the one behind it, and no error. -/
def StaysPending (port : Port) (bit : UInt32) (ci is turns : Nat) : Prop :=
  ∀ turn ≤ turns, port .ci (ci + turn) &&& bit ≠ 0 ∧ port .is (is + turn) &&& taskFileError = 0

/-- What the wait for completion has seen: the bit of the command cleared, and no error. -/
structure SeenDone (bit : UInt32) (polls : List Access) : Prop where
  cleared : ∃ value, Access.read .ci value ∈ polls ∧ value &&& bit = 0
  noError : ∀ value, Access.read .is value ∈ polls → value &&& taskFileError = 0

/-- How the wait can end, with what it reads, when the next reads of `ci` and `is` are these. -/
inductive WaitOutcome (port : Port) (bit : UInt32) (timeout ci is : Nat) : Option Int → List Access → Prop where
  | failed {polls turn} (within : turn < timeout) (error : port .is (is + turn) &&& taskFileError ≠ 0) :
      WaitOutcome port bit timeout ci is none polls
  | done {polls turn} {left : Nat} (within : turn ≤ timeout) (cleared : port .ci (ci + turn) &&& bit = 0)
      (seen : SeenDone bit polls) : WaitOutcome port bit timeout ci is (some left) polls
  | expired {polls} (pending : ∀ turn ≤ timeout, port .ci (ci + turn) &&& bit ≠ 0)
      (noError : ∀ turn < timeout, port .is (is + turn) &&& taskFileError = 0)
      (values : ∀ value, Access.read .ci value ∈ polls → value &&& bit ≠ 0)
      (reads : readsOf .is polls = timeout) : WaitOutcome port bit timeout ci is (some (-1)) polls

section Wait

variable {port : Port} {bit : UInt32} {timeout ci is : Nat}

/-- One turn in front of the wait. -/
theorem WaitOutcome.turn {answer : Option Int} {polls : List Access} (pending : port .ci ci &&& bit ≠ 0)
    (noError : port .is is &&& taskFileError = 0) (rest : WaitOutcome port bit timeout (ci + 1) (is + 1) answer polls) :
    WaitOutcome port bit (timeout + 1) ci is answer
      (.read .ci (port .ci ci) :: .read .is (port .is is) :: polls) := by
  have shift : ∀ start turn : Nat, start + 1 + turn = start + (turn + 1) := fun start turn => by omega
  cases rest with
  | @failed polls turn within error =>
      rw [shift] at error
      exact .failed (by omega) error
  | @done polls turn left within cleared seen =>
      rw [shift] at cleared
      refine .done (by omega) cleared ⟨?_, ?_⟩
      · obtain ⟨value, there, zero⟩ := seen.cleared
        exact ⟨value, List.mem_cons_of_mem _ (List.mem_cons_of_mem _ there), zero⟩
      · intro value there
        rcases List.mem_cons.mp there with impossible | there
        · exact Access.noConfusion impossible (by simp)
        · rcases List.mem_cons.mp there with same | there
          · obtain ⟨-, rfl⟩ := Access.read.inj same
            exact noError
          · exact seen.noError value there
  | @expired polls pendings noErrors values reads =>
      refine .expired (fun turn within => ?_) (fun turn within => ?_) (fun value there => ?_) ?_
      · cases turn with
        | zero => exact pending
        | succ turn =>
            rw [← shift]
            exact pendings turn (by omega)
      · cases turn with
        | zero => exact noError
        | succ turn =>
            rw [← shift]
            exact noErrors turn (by omega)
      · rcases List.mem_cons.mp there with same | there
        · obtain ⟨-, rfl⟩ := Access.read.inj same
          exact pending
        · exact values value (by simpa using there)
      · simp [readsOf] at reads ⊢
        exact reads

/-- The bit is cleared at the next read. -/
theorem WaitOutcome.done_now {left : Nat} (cleared : port .ci ci &&& bit = 0) :
    WaitOutcome port bit timeout ci is (some left) [.read .ci (port .ci ci)] := by
  refine @WaitOutcome.done port bit timeout ci is _ 0 left (Nat.zero_le _) cleared ⟨⟨_, List.mem_cons_self, cleared⟩, ?_⟩
  intro value there
  exact Access.noConfusion (List.mem_singleton.mp there) (by simp)

theorem turnReads (ciValue isValue : UInt32) : OnlyReads [.ci, .is] [.read .ci ciValue, .read .is isValue] :=
  ((OnlyReads.singleton ciValue).mono (by simp)).append ((OnlyReads.singleton isValue).mono (by simp))

theorem waitDone_outcome (log : List Access) :
    ∃ answer polls, waitDone port bit timeout log = (answer, log ++ polls) ∧ polls.length ≤ 2 * timeout + 1 ∧
      OnlyReads [.ci, .is] polls ∧ WaitOutcome port bit timeout (readsOf .ci log) (readsOf .is log) answer polls := by
  induction timeout generalizing log with
  | zero =>
      unfold waitDone
      dsimp only [Port.read]
      by_cases pending : port .ci (readsOf .ci log) &&& bit ≠ 0
      · rw [if_pos pending]
        refine ⟨_, _, rfl, Nat.le_refl _, (OnlyReads.singleton _).mono (by simp), .expired (fun turn first => ?_) (fun turn before => ?_) (fun value there => ?_) rfl⟩
        · obtain rfl := Nat.le_zero.mp first
          exact pending
        · exact absurd before (Nat.not_lt_zero _)
        · obtain ⟨-, rfl⟩ := Access.read.inj (List.mem_singleton.mp there)
          exact pending
      · rw [if_neg pending]
        exact ⟨_, _, rfl, Nat.le_refl _, (OnlyReads.singleton _).mono (by simp), .done_now (not_not.mp pending)⟩
  | succ timeout ih =>
      unfold waitDone
      dsimp only [Port.read]
      by_cases pending : port .ci (readsOf .ci log) &&& bit ≠ 0
      · rw [if_pos pending]
        have unread : readsOf .is (log ++ [.read .ci (port .ci (readsOf .ci log))]) = readsOf .is log := by
          rw [readsOf_snoc_read, if_neg (by decide), Nat.add_zero]
        rw [unread]
        by_cases error : port .is (readsOf .is log) &&& taskFileError ≠ 0
        · rw [if_pos error, List.append_assoc]
          refine ⟨_, _, rfl, ?_, turnReads _ _, .failed (Nat.succ_pos timeout) error⟩
          simp only [List.length_append, List.length_singleton]
          omega
        · rw [if_neg error]
          obtain ⟨answer, polls, same, short, reads, outcome⟩ := ih (log ++ [.read .ci (port .ci (readsOf .ci log))] ++
            [.read .is (port .is (readsOf .is log))])
          simp only [readsOf_snoc_read, reduceCtorEq, if_true, if_false, Nat.add_zero] at outcome
          refine ⟨answer, _, ?_, ?_, ?_, outcome.turn pending (not_not.mp error)⟩
          · rw [same]
            simp only [List.append_assoc, List.cons_append, List.nil_append]
          · simp only [List.length_cons]
            omega
          · exact (turnReads _ _).append reads
      · rw [if_neg pending]
        exact ⟨_, _, rfl, by simp, (OnlyReads.singleton _).mono (by simp), .done_now (not_not.mp pending)⟩

/-- One more read of `is` without an error. -/
theorem SeenDone.snoc {polls : List Access} {value : UInt32} (seen : SeenDone bit polls)
    (noError : value &&& taskFileError = 0) : SeenDone bit (polls ++ [.read .is value]) where
  cleared := by
    obtain ⟨value, there, zero⟩ := seen.cleared
    exact ⟨value, List.mem_append_left _ there, zero⟩
  noError value' there := by
    rcases List.mem_append.mp there with before | last
    · exact seen.noError value' before
    · obtain ⟨-, rfl⟩ := Access.read.inj (List.mem_singleton.mp last)
      exact noError

/-- Behind the issue of a command: `true` is right unless the command stays pending. -/
theorem finishCommand_cases (log : List Access) :
    ∃ answer polls, finishCommand port bit log = (answer, log ++ polls) ∧ polls.length ≤ 2 * waitTurns + 2 ∧
      OnlyReads [.ci, .is] polls ∧
      (StaysPending port bit (readsOf .ci log) (readsOf .is log) waitTurns → answer = true ∧ ¬ SeenDone bit polls) ∧
      (¬ StaysPending port bit (readsOf .ci log) (readsOf .is log) waitTurns → answer = true → SeenDone bit polls) := by
  obtain ⟨timeout, polls, waited, short, reads, outcome⟩ := @waitDone_outcome port bit waitTurns log
  unfold finishCommand
  rw [waited]
  cases outcome with
  | @failed polls turn within error =>
      refine ⟨_, _, rfl, Nat.le_succ_of_le short, reads, fun pending => ?_, fun _ reported => Bool.noConfusion reported⟩
      exact absurd (pending turn (Nat.le_of_lt within)).2 error
  | @done polls turn left within cleared seen =>
      dsimp only
      by_cases last : (left : Int) = 0
      · rw [if_pos last]
        refine ⟨_, _, rfl, Nat.le_succ_of_le short, reads, fun pending => ?_, fun _ reported => Bool.noConfusion reported⟩
        exact absurd cleared (pending turn within).1
      · rw [if_neg last]
        dsimp only [Port.read]
        rw [List.append_assoc]
        refine ⟨_, _, rfl, ?_, ?_, fun pending => ?_, fun _ reported => seen.snoc (of_decide_eq_true reported)⟩
        · rw [List.length_append, List.length_singleton]
          exact Nat.succ_le_succ short
        · exact reads.append ((OnlyReads.singleton _).mono (by simp))
        · exact absurd cleared (pending turn within).1
  | @expired polls pending noError values errors =>
      dsimp only
      rw [if_neg (by decide)]
      dsimp only [Port.read]
      rw [List.append_assoc]
      have next : readsOf .is (log ++ polls) = readsOf .is log + waitTurns := by rw [readsOf_append, errors]
      refine ⟨_, _, rfl, ?_, ?_, fun stays => ⟨decide_eq_true ?_, fun seen => ?_⟩, fun ends reported => ?_⟩
      · rw [List.length_append, List.length_singleton]
        exact Nat.succ_le_succ short
      · exact reads.append ((OnlyReads.singleton _).mono (by simp))
      · rw [next]
        exact (stays waitTurns (Nat.le_refl _)).2
      · obtain ⟨value, there, zero⟩ := seen.cleared
        rcases List.mem_append.mp there with before | last
        · exact values value before zero
        · exact Access.noConfusion (List.mem_singleton.mp last) (by simp)
      · -- behind the wait the port shows no error either
        have last := of_decide_eq_true reported
        rw [next] at last
        refine absurd (fun turn within => ⟨pending turn within, ?_⟩) ends
        rcases Nat.lt_or_eq_of_le within with before | rfl
        · exact noError turn before
        · exact last

end Wait

/-! ## Whole calls -/

/-- A call that returns `true` has sent a command in the free slot, and behind that it has seen it done. -/
def ReportsDone (port : Option Port) (answer : Bool × List Access) : Prop :=
  answer.1 = true → ∃ some_port slot before value polls, port = some some_port ∧
    freeSlot (some_port .sact 0 ||| some_port .ci 0) 0 32 = some slot ∧
    answer.2 = before ++ .write .ci (value ||| slotBit slot) :: polls ∧ SeenDone (slotBit slot) polls

/-- A log with one write to `ci` falls apart there in one way only. -/
theorem polls_unique {front front' polls polls' : List Access} {value value' : UInt32} (before : ¬ Issues front)
    (behind : ¬ Issues polls) (same : front ++ .write .ci value :: polls = front' ++ .write .ci value' :: polls') :
    polls = polls' := by
  rcases List.append_eq_append_iff.mp same with ⟨middle, _, rest⟩ | ⟨middle, whole, rest⟩
  · cases middle with
    | nil => exact (List.cons.inj rest).2
    | cons first middle =>
        refine absurd ⟨value', ?_⟩ behind
        rw [(List.cons.inj rest).2]
        exact List.mem_append_right _ List.mem_cons_self
  · cases middle with
    | nil => exact (List.cons.inj rest).2.symm
    | cons first middle =>
        refine absurd ⟨value', ?_⟩ before
        rw [whole, ← (List.cons.inj rest).1]
        exact List.mem_append_right _ List.mem_cons_self

section Calls

variable {hhdm : UInt64} {word : UInt64 → UInt32} {port : Port} {request : CommandRequest} {slot : Nat}

/-- A call that sends a command: the log up to the write to `ci`, and what is read behind it. -/
theorem runCommand_sent (sends : Sends hhdm word port request slot) :
    ∃ answer waits polls, OnlyReads [.tfd] waits ∧ OnlyReads [.ci, .is] polls ∧
      runCommand hhdm word (some port) request = (answer, issuedLog hhdm word port request slot waits ++ polls) ∧
      (issuedLog hhdm word port request slot waits).length + polls.length ≤ 3 * waitTurns + 271 ∧
      (StaysPending port (slotBit slot) 2 0 waitTurns → answer = true ∧ ¬ SeenDone (slotBit slot) polls) ∧
      (¬ StaysPending port (slotBit slot) 2 0 waitTurns → answer = true → SeenDone (slotBit slot) polls) := by
  rcases runCommand_cases hhdm word port request with ⟨_, _, _, _, unsent⟩ | ⟨slot', waits, sends', ready, few, same⟩
  · exact absurd ⟨slot, sends⟩ unsent
  · obtain rfl := Option.some.inj (sends.free.symm.trans sends'.free)
    obtain ⟨answer, polls, finished, short, reads, stays, ends⟩ :=
      @finishCommand_cases port (slotBit slot) (issuedLog hhdm word port request slot waits)
    have length := @length_issuedLog hhdm word port request slot waits few
    rw [(readsOf_issuedLog ready).1, (readsOf_issuedLog ready).2] at stays ends
    exact ⟨answer, waits, polls, ready, reads, same.trans finished, by omega, stays, ends⟩

/-- Such a log split at the write to `ci`, the only one there is. -/
theorem issuedLog_split {waits : List Access} (ready : OnlyReads [.tfd] waits) (polls : List Access) :
    ∃ before, ¬ Issues before ∧ issuedLog hhdm word port request slot waits ++ polls =
      before ++ .write .ci (port .ci 1 ||| slotBit slot) :: polls := by
  refine ⟨searchLog port ++ preparation hhdm word port request slot ++ waits ++ [.read .ci (port .ci 1)], ?_, ?_⟩
  · simp only [issues_append, not_issues_searchLog, not_issues_preparation, ready.not_issues, false_or]
    simp [Issues]
  · rw [issuedLog, List.append_assoc _ [_] polls, List.singleton_append]

/-- A command sent is reported rightly unless it stays pending. -/
theorem reportsDone_iff_of_sends (sends : Sends hhdm word port request slot) :
    ReportsDone (some port) (runCommand hhdm word (some port) request) ↔
      ¬ StaysPending port (slotBit slot) 2 0 waitTurns := by
  obtain ⟨answer, waits, polls, ready, reads, same, _, stays, ends⟩ := runCommand_sent sends
  obtain ⟨before, unissued, split⟩ := @issuedLog_split hhdm word port request slot waits ready polls
  rw [same, split]
  constructor
  · intro reports pending
    obtain ⟨_, slot', before', value, polls', ⟨⟩, free, log, seen⟩ := reports (stays pending).1
    obtain rfl := Option.some.inj (sends.free.symm.trans free)
    rw [← polls_unique unissued reads.not_issues log] at seen
    exact (stays pending).2 seen
  · intro moves reported
    exact ⟨port, slot, before, port .ci 1, polls, rfl, sends.free, rfl, ends moves reported⟩

end Calls

/-- Every call comes to an end, after three accesses a turn at the most; and it is right about the command unless
it has sent one that stays pending, without an error, until the turns are used up. -/
theorem runCommand_reportsDone_iff (hhdm : UInt64) (word : UInt64 → UInt32) (port : Option Port)
    (request : CommandRequest) :
    (runCommand hhdm word port request).2.length ≤ 3 * waitTurns + 271 ∧
      (ReportsDone port (runCommand hhdm word port request) ↔
        ∀ some_port slot, port = some some_port → Sends hhdm word some_port request slot →
          ¬ StaysPending some_port (slotBit slot) 2 0 waitTurns) := by
  cases port with
  | none =>
      refine ⟨Nat.zero_le _, iff_of_true (fun reported => Bool.noConfusion reported) fun _ _ impossible => ?_⟩
      exact absurd impossible (Option.some_ne_none _).symm
  | some port =>
      by_cases sent : ∃ slot, Sends hhdm word port request slot
      · obtain ⟨slot, sends⟩ := sent
        obtain ⟨answer, waits, polls, _, _, same, short, _⟩ := runCommand_sent sends
        refine ⟨?_, ?_⟩
        · rw [same, List.length_append]
          exact short
        · rw [reportsDone_iff_of_sends sends]
          constructor
          · rintro moves _ other ⟨⟩ sends'
            obtain rfl := Option.some.inj (sends.free.symm.trans sends'.free)
            exact moves
          · exact fun moves => moves port slot rfl sends
      · rcases runCommand_cases hhdm word port request with ⟨log, same, short, _, _⟩ | ⟨slot, _, sends, _⟩
        · rw [same]
          refine ⟨by dsimp only; omega, iff_of_true (fun reported => Bool.noConfusion reported) ?_⟩
          rintro _ slot ⟨⟩ sends
          exact absurd ⟨slot, sends⟩ sent
        · exact absurd ⟨slot, sends⟩ sent

/-- A port that is ready and takes a command, but never clears its bit. -/
def stuckPort : Port
  | .ci, n => if n = 0 then 0 else 1
  | _, _ => 0

/-- One sector is read to address 0x1000. -/
def oneSector : CommandRequest := ⟨0x25, 0, 0, 0, 1, 0x1000⟩

/-- `runCommand` returns `true` although the port has never shown the bit of the command cleared. -/
theorem runCommand_true_when_pending :
    (∀ n, 1 ≤ n → stuckPort .ci n &&& slotBit 0 ≠ 0) ∧
      (runCommand 0xFFFF800000000000 (fun _ => 0) (some stuckPort) oneSector).1 = true ∧
      ¬ ReportsDone (some stuckPort) (runCommand 0xFFFF800000000000 (fun _ => 0) (some stuckPort) oneSector) := by
  have sends : Sends 0xFFFF800000000000 (fun _ => 0) stuckPort oneSector 0 :=
    ⟨by decide, by decide, by decide, by decide +kernel, 0, by decide, by decide⟩
  have shown : ∀ n, 1 ≤ n → stuckPort .ci n &&& slotBit 0 ≠ 0 := by
    intro n later
    have one : stuckPort .ci n = 1 := if_neg (by omega)
    rw [one]
    decide
  have noError : (0 : UInt32) &&& taskFileError = 0 := by decide
  have pending : StaysPending stuckPort (slotBit 0) 2 0 waitTurns := fun turn _ => ⟨shown _ (by omega), noError⟩
  obtain ⟨answer, _, _, _, _, same, _, stays, _⟩ := runCommand_sent sends
  refine ⟨shown, ?_, fun reports => (reportsDone_iff_of_sends sends).mp reports pending⟩
  rw [same]
  exact (stays pending).1

end KeblaOS.Ahci
