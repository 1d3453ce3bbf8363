import NxMemTest.PassTrace

/-! A pass asks for nothing outside its worker's slice. -/

namespace NxMemTest
open Interaction Program

def Call.Within (start count : Nat) : Call → Prop
  | .writeChunk p n s phase _ _ =>
    s = p ∧ start ≤ p ∧ p + n ≤ start + count ∧ phase ≠ .narrow
  | .verifyChunk p n s phase _ => s = p ∧ start ≤ p ∧ p + n ≤ start + count ∧ phase ≠ .narrow
  | .load p => start ≤ p ∧ p < start + count
  | .store p _ => start ≤ p ∧ p < start + count
  | .stopRequested | .progressAdd _ => True

/-- The calls of a pass over that slice in the listed phases: its own chunks under its
own configuration, and a single word stored only to inject a mismatch. -/
def Call.OfPass (start count : Nat) (config : NxmtRunConfig) (phases : List NxmtPhase) : Call → Prop
  | .writeChunk p n s phase seed pass => s = p ∧ start ≤ p ∧ p + n ≤ start + count ∧
    phase ∈ phases ∧ seed = config.seed ∧ pass = config.pass
  | .verifyChunk p n s phase c => s = p ∧ start ≤ p ∧ p + n ≤ start + count ∧
    phase ∈ phases ∧ c = config
  | .load p => start ≤ p ∧ p < start + count
  | .store p _ => config.injectMismatch = true ∧ p = start ∧ 0 < count
  | .stopRequested | .progressAdd _ => True

theorem Call.OfPass.within {start count : Nat} {config : NxmtRunConfig} {phases : List NxmtPhase}
    (wide : ∀ phase ∈ phases, phase ≠ .narrow) {c : Call} (h : c.OfPass start count config phases) :
    c.Within start count := by
  cases c with
  | writeChunk p n s phase seed pass =>
    obtain ⟨same, low, high, listed, -⟩ := h
    exact ⟨same, low, high, wide phase listed⟩
  | verifyChunk p n s phase c =>
    obtain ⟨same, low, high, listed, -⟩ := h
    exact ⟨same, low, high, wide phase listed⟩
  | load p => exact h
  | store p value =>
    obtain ⟨-, rfl, some⟩ := h
    exact ⟨le_rfl, Nat.lt_add_of_pos_right some⟩
  | stopRequested | progressAdd => trivial

section
variable {start count : Nat} {phase : NxmtPhase} {config : NxmtRunConfig} {phases : List NxmtPhase}

theorem nxmtRunnerStopRequested_uses :
    (nxmtRunnerStopRequested config).Uses (Call.OfPass start count config phases) := by
  unfold nxmtRunnerStopRequested
  split
  · exact uses_call.2 trivial
  · exact uses_pure _

theorem nxmtProgressAdd_uses (delta : Word) :
    (nxmtProgressAdd config delta).Uses (Call.OfPass start count config phases) := by
  unfold nxmtProgressAdd
  split
  · exact uses_call.2 trivial
  · exact uses_pure _

theorem foldPressure_uses {p chunk : Nat} (low : start ≤ p) (high : p + chunk ≤ start + count)
    (pressure : Word) :
    (foldPressure config p chunk pressure).Uses (Call.OfPass start count config phases) :=
  foldPressure_loads config (fun _ _ => ⟨by omega, by omega⟩) pressure

theorem writeChunks_uses (listed : phase ∈ phases) (processed : Nat) (pressure : Word) :
    (writeChunks start count phase config processed pressure).Uses
      (Call.OfPass start count config phases) := by
  induction processed, pressure using writeChunks.induct count with
  | case1 processed pressure more ih =>
    have fits := chunkAt_le (Nat.le_of_lt more)
    rw [writeChunks, if_pos more]
    refine uses_bind nxmtRunnerStopRequested_uses fun stop => ?_
    split
    · exact uses_pure _
    · refine uses_bind (uses_call.2 ⟨rfl, by omega, by omega, listed, rfl, rfl⟩) fun _ => ?_
      refine uses_bind (foldPressure_uses (by omega) (by omega) _) fun pressure => ?_
      exact uses_bind (nxmtProgressAdd_uses _) fun _ => ih pressure
  | case2 processed pressure done =>
    rw [writeChunks, if_neg done]
    exact uses_pure _

theorem verifyChunks_uses (listed : phase ∈ phases) (processed : Nat) (report : NxmtReport)
    (pressure : Word) :
    (verifyChunks start count phase config processed report pressure).Uses
      (Call.OfPass start count config phases) := by
  induction processed, report, pressure using verifyChunks.induct count with
  | case1 processed report pressure more ih =>
    have fits := chunkAt_le (Nat.le_of_lt more)
    rw [verifyChunks, if_pos more]
    refine uses_bind nxmtRunnerStopRequested_uses fun stop => ?_
    split
    · exact uses_pure _
    · refine uses_bind (uses_call.2 ⟨rfl, by omega, by omega, listed, rfl⟩) fun calls => ?_
      refine uses_bind (foldPressure_uses (by omega) (by omega) _) fun pressure => ?_
      exact uses_bind (nxmtProgressAdd_uses _) fun _ => ih calls pressure
  | case2 processed report pressure done =>
    rw [verifyChunks, if_neg done]
    exact uses_pure _

theorem nxmtWritePhase_uses (listed : phase ∈ phases) (pressure : Word) :
    (nxmtWritePhase start count phase config pressure).Uses
      (Call.OfPass start count config phases) := by
  refine uses_bind (writeChunks_uses listed 0 pressure) fun ⟨finished, pressure⟩ => ?_
  dsimp only
  split
  · exact uses_pure _
  · split
    · rename_i inject
      have inside : start ≤ start ∧ start < start + count := ⟨le_rfl, by omega⟩
      exact uses_bind (uses_call.2 inside) fun _ =>
        uses_bind (uses_call.2 ⟨inject.1, rfl, inject.2⟩) fun _ => uses_pure _
    · exact uses_pure _

theorem runPhases_uses (initialErrors : Word) {rest : List NxmtPhase}
    (listed : ∀ phase ∈ rest, phase ∈ phases) (report : NxmtReport) (stats : NxmtRunStats)
    (pressure : Word) :
    (runPhases start count config initialErrors rest report stats pressure).Uses
      (Call.OfPass start count config phases) := by
  induction rest generalizing report stats pressure with
  | nil => exact uses_pure _
  | cons phase rest ih =>
    have listed' := fun phase h => listed phase (List.mem_cons_of_mem _ h)
    have listed₀ := listed phase List.mem_cons_self
    refine uses_bind nxmtRunnerStopRequested_uses fun stop => ?_
    split
    · exact uses_pure _
    · refine uses_bind (nxmtWritePhase_uses listed₀ pressure) fun ⟨written, pressure⟩ => ?_
      dsimp only
      split
      · exact uses_pure _
      · refine uses_bind (verifyChunks_uses listed₀ 0 report pressure)
          fun ⟨verified, report, pressure⟩ => ?_
        dsimp only
        split
        · exact uses_pure _
        · exact ih listed' _ _ _

end

theorem nxmtPhasesForMode_wide (mode : NxmtMode) :
    ∀ phase ∈ nxmtPhasesForMode mode, phase ≠ .narrow := by
  cases mode <;> decide

theorem nxmtRunnerRunPass_uses {arena : NxmtArena} {config : NxmtRunConfig}
    (ok : Accepts arena config) (report : NxmtReport) (stats : NxmtRunStats) :
    (nxmtRunnerRunPass (some arena) (some config) (some report) (some stats)).Uses
      (Call.OfPass (sliceStart arena config) (sliceCount arena config) config
        (nxmtPhasesForMode config.mode)) := by
  rw [nxmtRunnerRunPass_accepts report stats ok]
  exact runPhases_uses _ (fun _ h => h) _ _ _

theorem nxmtRunnerRunPass_within {arena : NxmtArena} {config : NxmtRunConfig}
    (ok : Accepts arena config) (report : NxmtReport) (stats : NxmtRunStats) :
    (nxmtRunnerRunPass (some arena) (some config) (some report) (some stats)).Uses
      (Call.Within (sliceStart arena config) (sliceCount arena config)) :=
  (nxmtRunnerRunPass_uses ok report stats).mono fun _ =>
    Call.OfPass.within (nxmtPhasesForMode_wide config.mode)

theorem slice_le {arena : NxmtArena} {config : NxmtRunConfig} (ok : Accepts arena config) :
    sliceStart arena config + sliceCount arena config ≤ arena.words.toNat := by
  rw [sliceStart, sliceCount, nxmtSplitBlockSize_toNat _ _ _ ok.worker,
    nxmtSplitBlockStart_toNat _ _ _ ok.workers (BitVec.le_of_lt ok.worker)]
  exact Partition.end_le (BitVec.lt_def.1 ok.worker)

end NxMemTest
