import NxMemTest.Reference

/-! Two passes side by side, one of which folds the CPU pressure: the folds read
single words and leave no other trace. -/

namespace NxMemTest
open Interaction Program

/-- What surrounds a pass. `strike k` befalls the memory before operation number
`k`, a chunk or a single word being stored or a chunk being verified; during that
operation the memory behaves as `device k`. A single word reads as `view` has it. -/
structure Surroundings (σ : Type) where
  strike : Nat → σ → σ
  device : Nat → Device σ
  view : Nat → σ → Nat → Word
  stops : Nat → Bool

structure Site (σ : Type) where
  memory : σ
  operations : Nat
  polls : Nat
  progress : Word

namespace Surroundings
variable {σ : Type}

def serve (env : Surroundings σ) : (c : Call) → Site σ → Call.Answer c × Site σ
  | .stopRequested, b => (env.stops b.polls, { b with polls := b.polls + 1 })
  | .writeChunk p n s phase seed pass, b =>
    ((), { b with
      memory := nxmtWriteChunk (env.device b.operations) p n (BitVec.ofNat 64 s) phase seed pass
        (env.strike b.operations b.memory)
      operations := b.operations + 1 })
  | .verifyChunk p n s phase config, b =>
    let (calls, memory) := nxmtVerifyChunk (env.device b.operations) p n (BitVec.ofNat 64 s) phase
      config (env.strike b.operations b.memory)
    (calls, { b with memory := memory, operations := b.operations + 1 })
  | .load p, b => (env.view b.operations b.memory p, b)
  | .store p value, b =>
    ((), { b with
      memory := (env.device b.operations).store (env.strike b.operations b.memory) p value
      operations := b.operations + 1 })
  | .progressAdd delta, b => ((), { b with progress := b.progress + delta })

end Surroundings

def NxmtRunConfig.inMode (config : NxmtRunConfig) (mode : NxmtMode) : NxmtRunConfig :=
  { config with mode := mode }

def RecordCall.inMode (c : RecordCall) (mode : NxmtMode) : RecordCall := { c with mode := mode }

def NxmtReport.inMode (report : NxmtReport) (mode : NxmtMode) : NxmtReport :=
  { report with first := { report.first with mode := mode } }

/-- The two reports, each built up from `report`, are the same but for the mode in a
first error recorded on the way. -/
def SameButMode (report extreme load : NxmtReport) : Prop :=
  (extreme = load ∧ load.hasFirstError = report.hasFirstError) ∨
    (report.hasFirstError = false ∧ load.hasFirstError = true ∧
      load.first.mode = .memoryLoad ∧ extreme = load.inMode .extreme)

namespace SameButMode
variable {report extreme load : NxmtReport}

theorem errorCount (same : SameButMode report extreme load) :
    extreme.errorCount = load.errorCount := by
  rcases same with ⟨eq, _⟩ | ⟨_, _, _, eq⟩ <;> rw [eq]
  rfl

theorem record (same : SameButMode report extreme load) (c : RecordCall) :
    SameButMode report (extreme.record (c.inMode .extreme))
      (load.record (c.inMode .memoryLoad)) := by
  rcases same with ⟨rfl, none⟩ | ⟨fresh, found, mode, rfl⟩
  · cases found : extreme.hasFirstError with
    | false =>
      refine .inr ⟨none.symm.trans found, ?_⟩
      simp only [NxmtReport.record, nxmtReportRecordError, found, Bool.not_false, if_true]
      exact ⟨trivial, rfl, rfl⟩
    | true =>
      refine .inl ?_
      simp only [NxmtReport.record, nxmtReportRecordError, found, Bool.not_true,
        Bool.false_eq_true, if_false]
      exact ⟨rfl, found.symm.trans none⟩
  · have found' : (load.inMode .extreme).hasFirstError = true := found
    refine .inr ⟨fresh, ?_⟩
    simp only [NxmtReport.record, nxmtReportRecordError, found, found', Bool.not_true,
      Bool.false_eq_true, if_false]
    exact ⟨trivial, mode, rfl⟩

theorem recordAll (calls : List RecordCall) (same : SameButMode report extreme load) :
    SameButMode report (extreme.recordAll (calls.map (·.inMode .extreme)))
      (load.recordAll (calls.map (·.inMode .memoryLoad))) := by
  induction calls generalizing extreme load with
  | nil => exact same
  | cons c calls ih => exact ih (same.record c)

end SameButMode

/-! ### One verify call -/

section
variable {σ : Type} (d : Device σ) (p n : Nat) (config : NxmtRunConfig) (mode : NxmtMode)

theorem walkWords_inMode (baseOff : Word) (phase : NxmtPhase) (expected : Nat → Word) (m : σ) :
    walkWords d p n baseOff phase (config.inMode mode) expected m =
      ((walkWords d p n baseOff phase config expected m).1.map (·.inMode mode),
        (walkWords d p n baseOff phase config expected m).2) := by
  rw [walkWords, walkWords, Loop.run_one, Loop.run_one]
  induction n with
  | zero => rfl
  | succ n ih =>
    rw [List.range_succ, List.foldl_append, List.foldl_append, ih]
    simp only [List.foldl_cons, List.foldl_nil, walkWord]
    split
    · simp [RecordCall.inMode, NxmtRunConfig.inMode]
    · rfl

theorem nxmtVerifyChunk_inMode (startWord : Word) (phase : NxmtPhase) (m : σ) :
    nxmtVerifyChunk d p n startWord phase (config.inMode mode) m =
      ((nxmtVerifyChunk d p n startWord phase config m).1.map (·.inMode mode),
        (nxmtVerifyChunk d p n startWord phase config m).2) := by
  have stage : fastStage d p n startWord phase (config.inMode mode) m =
      fastStage d p n startWord phase config m := by cases phase <;> rfl
  have values : walkExpected startWord phase (config.inMode mode) =
      walkExpected startWord phase config := by cases phase <;> rfl
  rw [nxmtVerifyChunk_stages, nxmtVerifyChunk_stages, stage, values, walkWords_inMode]
  split <;> rfl

end

/-! ### The two passes -/

section
variable {σ : Type} {env : Surroundings σ} {start count : Nat} {config : NxmtRunConfig}
  {phase : NxmtPhase}

theorem foldPressure_agree (p chunk : Nat) (folded plain : Word) :
    Agree env.serve (fun _ pressure => pressure = plain)
      (foldPressure (config.inMode .extreme) p chunk folded)
      (foldPressure (config.inMode .memoryLoad) p chunk plain) := by
  have skip : foldPressure (config.inMode .memoryLoad) p chunk plain = pure plain :=
    if_neg (by simp [NxmtRunConfig.inMode])
  have loads : (foldPressure (config.inMode .extreme) p chunk folded).Uses
      fun c => ∃ w, c = .load w := foldPressure_loads _ (fun _ _ => ⟨_, rfl⟩) _
  rw [skip]
  refine Agree.of_quiet (fun b => ?_) fun _ => rfl
  refine loads.exec_inv (I := fun b' => b' = b) ?_ rfl
  rintro _ b' ⟨w, rfl⟩ same
  exact same

theorem writeChunks_agree (processed : Nat) (folded plain : Word) :
    Agree env.serve (fun x y => x.1 = y.1 ∧ y.2 = plain)
      (writeChunks start count phase (config.inMode .extreme) processed folded)
      (writeChunks start count phase (config.inMode .memoryLoad) processed plain) := by
  induction processed, folded using writeChunks.induct count with
  | case1 processed folded more ih =>
    rw [writeChunks, writeChunks.eq_def start count phase (config.inMode .memoryLoad),
      if_pos more, if_pos more]
    refine (Agree.refl (nxmtRunnerStopRequested config)).bind fun stop _ same => ?_
    subst same
    refine Agree.ite (fun _ => Agree.of_pure ⟨rfl, rfl⟩) fun _ => ?_
    refine (Agree.refl _).bind fun _ _ _ => ?_
    refine (foldPressure_agree _ _ folded plain).bind fun folded' _ same => ?_
    subst same
    exact (Agree.refl (nxmtProgressAdd config _)).bind fun _ _ _ => ih folded'
  | case2 processed folded stop =>
    rw [writeChunks, writeChunks.eq_def start count phase (config.inMode .memoryLoad),
      if_neg stop, if_neg stop]
    exact Agree.of_pure ⟨rfl, rfl⟩

theorem nxmtWritePhase_agree (folded plain : Word) :
    Agree env.serve (fun x y => x.1 = y.1 ∧ y.2 = plain)
      (nxmtWritePhase start count phase (config.inMode .extreme) folded)
      (nxmtWritePhase start count phase (config.inMode .memoryLoad) plain) := by
  refine (writeChunks_agree 0 folded plain).bind ?_
  rintro ⟨written, _⟩ ⟨_, _⟩ ⟨rfl, rfl⟩
  refine Agree.ite (fun _ => Agree.of_pure ⟨rfl, rfl⟩) fun _ => ?_
  refine Agree.ite (fun _ => ?_) fun _ => Agree.of_pure ⟨rfl, rfl⟩
  refine (Agree.refl (Runner.load start)).bind fun value _ same => ?_
  subst same
  exact (Agree.refl _).bind fun _ _ _ => Agree.of_pure ⟨rfl, rfl⟩

theorem verifyChunk_agree (p chunk s : Nat) :
    Agree env.serve (fun x y => ∃ calls : List RecordCall, x = calls.map (·.inMode .extreme) ∧
        y = calls.map (·.inMode .memoryLoad))
      (Runner.verifyChunk p chunk s phase (config.inMode .extreme))
      (Runner.verifyChunk p chunk s phase (config.inMode .memoryLoad)) := by
  intro b
  have verified := fun mode => nxmtVerifyChunk_inMode (env.device b.operations) p chunk config mode
    (BitVec.ofNat 64 s) phase (env.strike b.operations b.memory)
  simp only [Runner.verifyChunk, exec_call, Surroundings.serve, verified]
  exact ⟨⟨_, rfl, rfl⟩, trivial⟩

theorem verifyChunks_agree {report : NxmtReport} (processed : Nat) (extreme load : NxmtReport)
    (folded plain : Word) (same : SameButMode report extreme load) :
    Agree env.serve (fun x y => x.1 = y.1 ∧ SameButMode report x.2.1 y.2.1 ∧ y.2.2 = plain)
      (verifyChunks start count phase (config.inMode .extreme) processed extreme folded)
      (verifyChunks start count phase (config.inMode .memoryLoad) processed load plain) := by
  induction processed, extreme, folded using verifyChunks.induct count generalizing load with
  | case1 processed extreme folded more ih =>
    rw [verifyChunks, verifyChunks.eq_def start count phase (config.inMode .memoryLoad),
      if_pos more, if_pos more]
    refine (Agree.refl (nxmtRunnerStopRequested config)).bind fun stop _ eq => ?_
    subst eq
    refine Agree.ite (fun _ => Agree.of_pure ⟨rfl, same, rfl⟩) fun _ => ?_
    refine (verifyChunk_agree _ _ _).bind fun _ _ recorded => ?_
    obtain ⟨calls, rfl, rfl⟩ := recorded
    refine (foldPressure_agree _ _ folded plain).bind fun folded' _ eq => ?_
    subst eq
    refine (Agree.refl (nxmtProgressAdd config _)).bind fun _ _ _ => ?_
    exact ih _ folded' _ (same.recordAll calls)
  | case2 processed extreme folded stop =>
    rw [verifyChunks, verifyChunks.eq_def start count phase (config.inMode .memoryLoad),
      if_neg stop, if_neg stop]
    exact Agree.of_pure ⟨rfl, same, rfl⟩

/-- Two passes ended alike: the reports are the same but for the mode of a first
error, and only the checksums of the statistics differ. -/
structure SameOutcome (report : NxmtReport) (checksum : Word) (extreme load : PassResult) :
    Prop where
  status : extreme.status = load.status
  reports : ∃ r r', extreme.report = some r ∧ load.report = some r' ∧ SameButMode report r r'
  stats : ∃ s s', extreme.stats = some s ∧ load.stats = some s' ∧
    s.bytesWritten = s'.bytesWritten ∧ s.bytesVerified = s'.bytesVerified ∧
    s.currentPhase = s'.currentPhase ∧ s'.pressureChecksum = checksum

theorem finishPass_same {report extreme load : NxmtReport}
    (same : SameButMode report extreme load) (stats : NxmtRunStats) (folded plain : Word)
    (status : NxmtReport → NxmtStatus) (alike : status extreme = status load) :
    SameOutcome report plain (finishPass (status extreme) extreme stats folded)
      (finishPass (status load) load stats plain) :=
  ⟨alike, ⟨_, _, rfl, rfl, same⟩, ⟨_, _, rfl, rfl, rfl, rfl, rfl, rfl⟩⟩

theorem runPhases_agree {report : NxmtReport} (initialErrors : Word) (phases : List NxmtPhase)
    (extreme load : NxmtReport) (stats : NxmtRunStats) (folded plain : Word)
    (same : SameButMode report extreme load) :
    Agree env.serve (SameOutcome report plain)
      (runPhases start count (config.inMode .extreme) initialErrors phases extreme stats folded)
      (runPhases start count (config.inMode .memoryLoad) initialErrors phases load stats plain) := by
  have stopped : ∀ {extreme load : NxmtReport}, SameButMode report extreme load →
      ∀ (stats : NxmtRunStats) (folded : Word), Agree env.serve (SameOutcome report plain)
        (pure (finishPass (nxmtRunnerAbortStatus extreme initialErrors) extreme stats folded) :
          Runner PassResult)
        (pure (finishPass (nxmtRunnerAbortStatus load initialErrors) load stats plain)) := by
    intro extreme load same stats folded
    refine Agree.of_pure (finishPass_same same stats folded plain
      (nxmtRunnerAbortStatus · initialErrors) ?_)
    simp only [nxmtRunnerAbortStatus, same.errorCount]
  induction phases generalizing extreme load stats folded with
  | nil =>
    refine Agree.of_pure (finishPass_same same stats folded plain
      (fun r => if r.errorCount ≠ initialErrors then .fail else .pass) ?_)
    simp only [same.errorCount]
  | cons phase phases ih =>
    rw [runPhases, runPhases]
    refine (Agree.refl (nxmtRunnerStopRequested config)).bind fun stop _ eq => ?_
    subst eq
    refine Agree.ite (fun _ => stopped same stats folded) fun _ => ?_
    refine (nxmtWritePhase_agree folded plain).bind ?_
    rintro ⟨written, folded⟩ ⟨_, _⟩ ⟨rfl, rfl⟩
    refine Agree.ite (fun _ => stopped same _ folded) fun _ => ?_
    refine (verifyChunks_agree 0 extreme load folded _ same).bind ?_
    rintro ⟨verified, extreme, folded⟩ ⟨_, load, _⟩ ⟨rfl, same, rfl⟩
    exact Agree.ite (fun _ => stopped same _ folded) fun _ => ih extreme load _ folded same

/-- CPU pressure does not disturb the memory test: an `EXTREME` pass leaves the same
memory, polls and progress behind as a `MEMORY_LOAD` pass and reports the same. -/
theorem pressure_undisturbing (base size : Word) (env : Surroundings σ) (config : NxmtRunConfig)
    (report : NxmtReport) (stats : NxmtRunStats) (b : Site σ)
    (hbase : (nxmtArenaFromRange base size).base ≠ 0)
    (hwords : (nxmtArenaFromRange base size).words ≠ 0)
    (worker : config.workerId < config.workerCount) :
    let run := fun mode => exec env.serve (nxmtRunnerRunPass
      (some (nxmtArenaFromRange base size)) (some (config.inMode mode)) (some report)
      (some stats)) b
    (run .extreme).2 = (run .memoryLoad).2 ∧
      SameOutcome report (config.seed ^^^ config.workerId.setWidth 64) (run .extreme).1
        (run .memoryLoad).1 := by
  intro run
  have accepts : ∀ mode, nxmtRunnerRunPass (some (nxmtArenaFromRange base size))
      (some (config.inMode mode)) (some report) (some stats) =
        runPhases (sliceStart (nxmtArenaFromRange base size) config)
          (sliceCount (nxmtArenaFromRange base size) config) (config.inMode mode) report.errorCount
          (nxmtPhasesForMode mode) report ⟨0, 0, 0, .fixedA⟩
          (config.seed ^^^ config.workerId.setWidth 64) :=
    fun mode => nxmtRunnerRunPass_accepts report stats
      (@fromRange_accepts _ _ (config.inMode mode) hbase hwords worker)
  have alike := @runPhases_agree σ env (sliceStart (nxmtArenaFromRange base size) config)
    (sliceCount (nxmtArenaFromRange base size) config) config report report.errorCount
    memoryLoadPhases report report ⟨0, 0, 0, .fixedA⟩
    (config.seed ^^^ config.workerId.setWidth 64) (config.seed ^^^ config.workerId.setWidth 64)
    (.inl ⟨rfl, rfl⟩) b
  simp only [run, accepts]
  exact ⟨alike.2, alike.1⟩

end

/-- Working memory in which a word of the second worker is lost before the second operation. -/
def lostWord : Surroundings Ram :=
  ⟨fun k m => if k = 1 then Function.update m 259 0 else m, fun _ => ram, fun _ m w => m w,
    fun _ => false⟩

theorem pressure_undisturbing_page :
    let config : NxmtRunConfig := ⟨.quick, 0x1234, 0, 1, 2, false, false, true⟩
    let run := fun mode => exec lostWord.serve (nxmtRunnerRunPass
      (some (nxmtArenaFromRange 0x1000 0x1000)) (some (config.inMode mode)) (some zeroReport)
      (some ⟨0, 0, 0, .fixedA⟩)) ⟨fun _ => 0, 0, 0, 0⟩
    (run .extreme).2 = (run .memoryLoad).2 ∧
      SameOutcome zeroReport 0x1235 (run .extreme).1 (run .memoryLoad).1 :=
  pressure_undisturbing 0x1000 0x1000 lostWord ⟨.quick, 0x1234, 0, 1, 2, false, false, true⟩
    zeroReport ⟨0, 0, 0, .fixedA⟩ ⟨fun _ => 0, 0, 0, 0⟩ (by decide) (by decide) (by decide)
end NxMemTest
