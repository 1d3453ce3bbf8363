import NxMemTest.Board
import NxMemTest.Confinement

/-! What an uninterrupted pass does to a memory whose loads change nothing: each
phase stores the expected words, suffers its corruption, and records exactly the
words that then differ. -/

namespace NxMemTest
open Interaction Program

def Env.Uninterrupted {σ : Type} (env : Env σ) (config : NxmtRunConfig) : Prop :=
  config.stopRequested = true → ∀ k, env.stops k = false

def phaseMemory {σ : Type} (env : Env σ) (start count : Nat) (config : NxmtRunConfig)
    (phase : NxmtPhase) (m : σ) : σ :=
  let m := storeWords env.device (List.range' start count)
    (expectedWord config.seed phase config.pass) m
  let m := if config.injectMismatch ∧ count > 0 then
    env.device.store m start (env.device.view m start ^^^ 0x100) else m
  if count > 0 then env.corrupt phase m else m

def passCalls {σ : Type} (env : Env σ) (start count : Nat) (config : NxmtRunConfig) :
    List NxmtPhase → σ → List RecordCall × σ
  | [], m => ([], m)
  | phase :: phases, m =>
    let m := phaseMemory env start count config phase m
    let rest := passCalls env start count config phases m
    (wrongWords config phase (List.range' start count) (env.device.view m) ++ rest.1, rest.2)

def foldedPressure (config : NxmtRunConfig) (ws : List Nat) (f : Nat → Word) (pressure : Word) :
    Word :=
  if config.mode = .extreme then
    ws.foldl (fun pressure w => nxmtExtremeCpuPressure pressure (f w)) pressure
  else pressure

theorem foldedPressure_append (config : NxmtRunConfig) (ws ws' : List Nat) (f : Nat → Word)
    (pressure : Word) : foldedPressure config (ws ++ ws') f pressure =
      foldedPressure config ws' f (foldedPressure config ws f pressure) := by
  simp only [foldedPressure, List.foldl_append]
  split <;> rfl

theorem foldedPressure_congr {config : NxmtRunConfig} {ws : List Nat} {f g : Nat → Word}
    (h : ∀ w ∈ ws, f w = g w) (pressure : Word) :
    foldedPressure config ws f pressure = foldedPressure config ws g pressure := by
  simp only [foldedPressure]
  rw [List.foldl_ext _ _ pressure fun pressure w hw =>
    congrArg (nxmtExtremeCpuPressure pressure) (h w hw)]

theorem nxmtExtremeCpuPressure_xor (state value : Word) :
    nxmtExtremeCpuPressure state value = state ^^^ nxmtExtremeCpuPressure 0 value := by
  simp [nxmtExtremeCpuPressure]

theorem foldedPressure_twice (config : NxmtRunConfig) (ws : List Nat) (f : Nat → Word)
    (pressure : Word) :
    foldedPressure config ws f (foldedPressure config ws f pressure) = pressure := by
  simp only [foldedPressure]
  split
  · have xor : (fun pressure w => nxmtExtremeCpuPressure pressure (f w)) =
        fun pressure w => pressure ^^^ nxmtExtremeCpuPressure 0 (f w) :=
      funext fun pressure => funext fun w => nxmtExtremeCpuPressure_xor pressure (f w)
    rw [xor]
    exact BitWord.foldl_xor_twice _ _ _
  · rfl

structure Env.Clean {σ : Type} (env : Env σ) (config : NxmtRunConfig) : Prop where
  readsBack : env.device.ReadsBack fun _ v => v
  corrupt : ∀ phase m, env.corrupt phase m = m
  inject : config.injectMismatch = false

section
variable {σ : Type} {env : Env σ} {config : NxmtRunConfig}
  (still : ∀ m, env.device.Stable m) (go : env.Uninterrupted config)

include go in
theorem exec_stopRequested (b : Board σ) :
    ∃ b', exec env.serve (nxmtRunnerStopRequested config) b = (false, b') ∧
      b'.memory = b.memory ∧ b'.seat.dirty = b.seat.dirty := by
  unfold nxmtRunnerStopRequested
  split
  · rename_i flag
    exact ⟨(env.serve .stopRequested b).2, Prod.ext (go flag b.seat.polls) rfl, rfl, rfl⟩
  · exact ⟨b, rfl, rfl, rfl⟩

include still in
theorem exec_foldPressure (config : NxmtRunConfig) (p chunk : Nat) (pressure : Word) (b : Board σ) :
    exec env.serve (foldPressure config p chunk pressure) b =
      (foldedPressure config (List.range' p chunk) (env.device.view b.memory) pressure, b) := by
  have fold : ∀ (l : List Nat) (pressure : Word),
      exec env.serve (l.foldlM (fun pressure k => do
        let value ← Runner.load (p + k)
        pure (nxmtExtremeCpuPressure pressure value)) pressure) b =
      ((l.map (p + ·)).foldl (fun pressure w =>
        nxmtExtremeCpuPressure pressure (env.device.view b.memory w)) pressure, b) := by
    intro l
    induction l with
    | nil => exact fun pressure => rfl
    | cons k l ih =>
      intro pressure
      rw [List.foldlM_cons, exec_bind, Runner.load, exec_call_bind, exec_pure]
      simp only [Env.serve, still b.memory (p + k)]
      exact ih _
  unfold foldPressure foldedPressure
  split
  · rw [fold, List.range'_eq_map_range]
  · rfl

theorem exec_progressAdd (env : Env σ) (config : NxmtRunConfig) (delta : Word) (b : Board σ) :
    ∃ b', exec env.serve (nxmtProgressAdd config delta) b = ((), b') ∧
      b'.memory = b.memory ∧ b'.seat.dirty = b.seat.dirty := by
  unfold nxmtProgressAdd
  split <;> exact ⟨_, rfl, rfl, rfl⟩

theorem storeWords_chunk (d : Device σ) {start count processed : Nat} (more : processed < count)
    (f : Nat → Word) (m : σ) :
    storeWords d (List.range' (start + (processed + chunkAt count processed))
        (count - (processed + chunkAt count processed))) f
      (storeWords d (List.range' (start + processed) (chunkAt count processed)) f m) =
      storeWords d (List.range' (start + processed) (count - processed)) f m := by
  rw [range'_chunk more, storeWords_append]

include still go in
theorem exec_writeChunks {start count : Nat} (room : 8 * (start + count) ≤ 2 ^ 64)
    {phase : NxmtPhase} (wide : phase ≠ .narrow) (processed : Nat) (pressure : Word)
    (b : Board σ) :
    ∃ pressure' b', exec env.serve (writeChunks start count phase config processed pressure) b =
        ((true, pressure'), b') ∧
      b'.memory = storeWords env.device (List.range' (start + processed) (count - processed))
        (expectedWord config.seed phase config.pass) b.memory ∧
      b'.seat.dirty = (b.seat.dirty || decide (processed < count)) ∧
      ((config.mode = .extreme → env.Clean config) → pressure' = foldedPressure config
        (List.range' (start + processed) (count - processed))
        (expectedWord config.seed phase config.pass) pressure) := by
  induction processed, pressure using writeChunks.induct count generalizing b with
  | case1 processed pressure more ih =>
    have fits := chunkAt_le (Nat.le_of_lt more)
    obtain ⟨b₁, run₁, memory₁, dirty₁⟩ := exec_stopRequested go b
    let b₂ : Board σ := ⟨nxmtWriteChunk env.device (start + processed) (chunkAt count processed)
      (BitVec.ofNat 64 (start + processed)) phase config.seed config.pass b₁.memory,
      { b₁.seat with dirty := true }⟩
    have run₂ : exec env.serve (Runner.writeChunk (start + processed) (chunkAt count processed)
        (start + processed) phase config.seed config.pass) b₁ = ((), b₂) := rfl
    have memory₂ : b₂.memory = storeWords env.device
        (List.range' (start + processed) (chunkAt count processed))
        (expectedWord config.seed phase config.pass) b.memory := by
      rw [← memory₁]
      refine (nxmtWriteChunk_eq _ _ _ _ (by omega) phase wide _ _ _).trans ?_
      exact storeWords_congr _ (fun w hw => by
        rw [Nat.add_sub_cancel' (List.mem_range'_1.1 hw).1]) _
    have run₃ := exec_foldPressure still config (start + processed) (chunkAt count processed)
      pressure b₂
    obtain ⟨b₄, run₄, memory₄, dirty₄⟩ := exec_progressAdd env config
      (BitVec.ofNat 64 (chunkAt count processed) * wordBytes) b₂
    obtain ⟨pressure', b', run', memory', dirty', folded'⟩ := ih (foldedPressure config
      (List.range' (start + processed) (chunkAt count processed)) (env.device.view b₂.memory)
      pressure) b₄
    refine ⟨pressure', b', ?_, ?_, ?_, fun clean => ?_⟩
    · rw [writeChunks, if_pos more, exec_bind_of _ run₁]
      simp only [Bool.false_eq_true, if_false]
      rw [exec_bind_of _ run₂, exec_bind_of _ run₃, exec_bind_of _ run₄]
      exact run'
    · rw [memory', memory₄, memory₂, storeWords_chunk env.device more]
    · simp [dirty', dirty₄, b₂, more]
    · have folded : foldedPressure config (List.range' (start + processed) (chunkAt count processed))
          (env.device.view b₂.memory) pressure = foldedPressure config
          (List.range' (start + processed) (chunkAt count processed))
          (expectedWord config.seed phase config.pass) pressure := by
        by_cases extreme : config.mode = .extreme
        · refine foldedPressure_congr (fun w hw => ?_) pressure
          rw [memory₂, view_storeWords _ (clean extreme).readsBack, if_pos hw]
        · simp only [foldedPressure, if_neg extreme]
      rw [folded' clean, range'_chunk more, foldedPressure_append, folded]
  | case2 processed pressure done =>
    refine ⟨pressure, b, ?_, ?_, ?_, fun _ => ?_⟩
    · rw [writeChunks, if_neg done, exec_pure]
    · rw [Nat.sub_eq_zero_of_le (Nat.le_of_not_lt done)]
      rfl
    · simp [done]
    · rw [Nat.sub_eq_zero_of_le (Nat.le_of_not_lt done)]
      simp [foldedPressure]

def writtenMemory (env : Env σ) (start count : Nat) (config : NxmtRunConfig)
    (phase : NxmtPhase) (m : σ) : σ :=
  let m := storeWords env.device (List.range' start count)
    (expectedWord config.seed phase config.pass) m
  if config.injectMismatch ∧ count > 0 then
    env.device.store m start (env.device.view m start ^^^ 0x100) else m

theorem phaseMemory_eq (start count : Nat) (phase : NxmtPhase) (m : σ) :
    phaseMemory env start count config phase m =
      if count > 0 then env.corrupt phase (writtenMemory env start count config phase m)
      else writtenMemory env start count config phase m := rfl

include still go in
theorem exec_nxmtWritePhase {start count : Nat} (room : 8 * (start + count) ≤ 2 ^ 64)
    {phase : NxmtPhase} (wide : phase ≠ .narrow) (pressure : Word) (b : Board σ) :
    ∃ pressure' b', exec env.serve (nxmtWritePhase start count phase config pressure) b =
        ((true, pressure'), b') ∧
      b'.memory = writtenMemory env start count config phase b.memory ∧
      b'.seat.dirty = (b.seat.dirty || decide (0 < count)) ∧
      ((config.mode = .extreme → env.Clean config) → pressure' = foldedPressure config
        (List.range' start count) (expectedWord config.seed phase config.pass) pressure) := by
  obtain ⟨pressure', b₁, run₁, memory₁, dirty₁, folded₁⟩ :=
    exec_writeChunks still go room wide 0 pressure b
  rw [Nat.add_zero, Nat.sub_zero] at memory₁ folded₁
  rw [nxmtWritePhase, exec_bind_of _ run₁]
  simp only [Bool.not_true, Bool.false_eq_true, if_false, writtenMemory, ← memory₁]
  split
  · let b₂ : Board σ := ⟨env.device.store b₁.memory start (env.device.view b₁.memory start ^^^ 0x100),
      b₁.seat⟩
    have run₂ : exec env.serve (Runner.load start) b₁ = (env.device.view b₁.memory start, b₁) :=
      Prod.ext rfl (congrArg (Board.mk · b₁.seat) (still b₁.memory start))
    have run₃ : exec env.serve (Runner.store start (env.device.view b₁.memory start ^^^ 0x100)) b₁ =
        ((), b₂) := rfl
    exact ⟨pressure', b₂, by rw [exec_bind_of _ run₂, exec_bind_of _ run₃, exec_pure], rfl, dirty₁,
      folded₁⟩
  · exact ⟨pressure', b₁, rfl, rfl, dirty₁, folded₁⟩

theorem foldedPressure_phase {start count : Nat} (clean : config.mode = .extreme → env.Clean config)
    (phase : NxmtPhase) (m : σ) (pressure : Word) :
    foldedPressure config (List.range' start count)
      (env.device.view (phaseMemory env start count config phase m))
      (foldedPressure config (List.range' start count)
        (expectedWord config.seed phase config.pass) pressure) = pressure := by
  by_cases extreme : config.mode = .extreme
  · obtain ⟨readsBack, corrupt, inject⟩ := clean extreme
    have stored : phaseMemory env start count config phase m =
        storeWords env.device (List.range' start count)
          (expectedWord config.seed phase config.pass) m := by
      simp [phaseMemory, corrupt, inject]
    have same : ∀ w ∈ List.range' start count,
        env.device.view (phaseMemory env start count config phase m) w =
          expectedWord config.seed phase config.pass w := by
      intro w hw
      rw [stored, view_storeWords _ readsBack, if_pos hw]
    rw [foldedPressure_congr same]
    exact foldedPressure_twice _ _ _ _
  · simp only [foldedPressure, if_neg extreme]

include still go in
theorem exec_verifyChunks {start count : Nat} (room : 8 * (start + count) ≤ 2 ^ 64)
    (phase : NxmtPhase) (processed : Nat) (report : NxmtReport) (pressure : Word) (b : Board σ)
    (m : σ) (hm : m = if processed < count ∧ b.seat.dirty then env.corrupt phase b.memory
      else b.memory) :
    ∃ report' b',
      exec env.serve (verifyChunks start count phase config processed report pressure) b =
        ((true, report', foldedPressure config
          (List.range' (start + processed) (count - processed)) (env.device.view m) pressure), b') ∧
      b'.memory = m ∧ b'.seat.dirty = (b.seat.dirty && decide (¬ processed < count)) ∧
      records (trace env.serve (verifyChunks start count phase config processed report pressure) b) =
        wrongWords config phase (List.range' (start + processed) (count - processed))
          (env.device.view m) := by
  induction processed, report, pressure using verifyChunks.induct count generalizing b with
  | case1 processed report pressure more ih =>
    have fits := chunkAt_le (Nat.le_of_lt more)
    obtain ⟨b₁, run₁, memory₁, dirty₁⟩ := exec_stopRequested go b
    have found : (if b₁.seat.dirty then env.corrupt phase b₁.memory else b₁.memory) = m := by
      rw [hm, memory₁, dirty₁]
      simp [more]
    let calls := wrongWords config phase
      (List.range' (start + processed) (chunkAt count processed)) (env.device.view m)
    let b₂ : Board σ := ⟨m, { b₁.seat with dirty := false }⟩
    have run₂ : exec env.serve (Runner.verifyChunk (start + processed) (chunkAt count processed)
        (start + processed) phase config) b₁ = (calls, b₂) := by
      rw [Runner.verifyChunk, exec_call, Env.serve, found]
      dsimp only
      rw [nxmtVerifyChunk_stable _ (still m) _ _ _ (by omega)]
      refine Prod.ext ?_ rfl
      exact wrongWords_congr fun w hw => by rw [Nat.add_sub_cancel' (List.mem_range'_1.1 hw).1]
    have run₃ := exec_foldPressure still config (start + processed) (chunkAt count processed)
      pressure b₂
    obtain ⟨b₄, run₄, memory₄, dirty₄⟩ := exec_progressAdd env config
      (BitVec.ofNat 64 (chunkAt count processed) * wordBytes) b₂
    obtain ⟨report', b', run', memory', dirty', records'⟩ :=
      ih calls (foldedPressure config (List.range' (start + processed) (chunkAt count processed))
        (env.device.view m) pressure) b₄ (by simp [dirty₄, memory₄, b₂])
    rw [verifyChunks, if_pos more, exec_bind_of _ run₁, trace_bind_of _ run₁]
    simp only [Bool.false_eq_true, if_false]
    rw [exec_bind_of _ run₂, exec_bind_of _ run₃, exec_bind_of _ run₄,
      trace_bind_of _ run₂, trace_bind_of _ run₃, trace_bind_of _ run₄]
    rw [← foldedPressure_append, ← range'_chunk more] at run'
    refine ⟨report', b', run', memory', by simp [dirty', dirty₄, b₂, more], ?_⟩
    obtain ⟨records₁, -, -, -⟩ := path_stopRequested
      (path_trace env.serve (nxmtRunnerStopRequested config) b)
    obtain ⟨records₃, -, -, -⟩ := plain_silent
      ((path_trace env.serve _ b₂).asked (foldPressure_plain config (start + processed)
        (chunkAt count processed) pressure))
    obtain ⟨records₄, -, -, -⟩ := plain_silent
      ((path_trace env.serve _ b₂).asked (nxmtProgressAdd_plain config
        (BitVec.ofNat 64 (chunkAt count processed) * wordBytes)))
    have answer : (env.serve (.verifyChunk (start + processed) (chunkAt count processed)
        (start + processed) phase config) b₁).1 = calls := congrArg Prod.fst run₂
    rw [range'_chunk more, wrongWords_append, ← records', Runner.verifyChunk, trace_call, answer]
    exact flatMap_turn recorded records₁ records₃ records₄ ⟨.verifyChunk .., calls⟩ _
  | case2 processed report pressure done =>
    rw [verifyChunks, if_neg done]
    have stay : m = b.memory := by simpa [done] using hm
    rw [Nat.sub_eq_zero_of_le (Nat.le_of_not_lt done)]
    exact ⟨report, b, by simp [foldedPressure], stay.symm, by simp [done], rfl⟩

include still go in
theorem exec_runPhases {start count : Nat} (room : 8 * (start + count) ≤ 2 ^ 64)
    (initialErrors : Word) {phases : List NxmtPhase} (wide : ∀ phase ∈ phases, phase ≠ .narrow)
    (report : NxmtReport) (stats : NxmtRunStats) (pressure : Word) (b : Board σ) :
    let pass := runPhases start count config initialErrors phases report stats pressure
    (exec env.serve pass b).2.memory = (passCalls env start count config phases b.memory).2 ∧
      records (trace env.serve pass b) = (passCalls env start count config phases b.memory).1 ∧
      Quiet (trace env.serve pass b) ∧
      ((config.mode = .extreme → env.Clean config) → ∃ stats,
        (exec env.serve pass b).1.stats = some stats ∧ stats.pressureChecksum = pressure) := by
  induction phases generalizing report stats pressure b with
  | nil => exact ⟨rfl, rfl, quiet_nil, fun _ => ⟨_, rfl, rfl⟩⟩
  | cons phase phases ih =>
    obtain ⟨b₁, run₁, memory₁, dirty₁⟩ := exec_stopRequested go b
    obtain ⟨pressure₂, b₂, run₂, memory₂, dirty₂, folded₂⟩ := exec_nxmtWritePhase still go room
      (wide phase List.mem_cons_self) pressure b₁
    let m := phaseMemory env start count config phase b.memory
    let pressure₃ := foldedPressure config (List.range' start count) (env.device.view m) pressure₂
    obtain ⟨report₃, b₃, run₃, memory₃, dirty₃, records₃⟩ :=
      exec_verifyChunks still go room phase 0 report pressure₂ b₂ m (by
        simp only [m]
        rw [phaseMemory_eq, memory₂, dirty₂, memory₁]
        by_cases some : 0 < count <;> simp [some])
    rw [Nat.add_zero, Nat.sub_zero] at run₃ records₃
    have poll := path_stopRequested (path_trace env.serve (nxmtRunnerStopRequested config) b)
    have half := path_nxmtWritePhase
      (path_trace env.serve (nxmtWritePhase start count phase config pressure) b₁)
    have check := path_verifyChunks
      (path_trace env.serve (verifyChunks start count phase config 0 report pressure₂) b₂)
    rw [run₁] at poll
    rw [run₂] at half
    rw [run₃] at check
    obtain ⟨records₁, -, -, quiet₁⟩ := poll
    obtain ⟨records₂, -, quiet₂, -⟩ := half
    obtain ⟨-, -, quiet₃, -⟩ := check
    obtain ⟨memory', records', quiet', pressure'⟩ :=
      ih (fun phase h => wide phase (List.mem_cons_of_mem _ h)) report₃
        ⟨stats.bytesWritten + BitVec.ofNat 64 count * wordBytes,
          stats.bytesVerified + BitVec.ofNat 64 count * wordBytes, stats.pressureChecksum, phase⟩
        pressure₃ b₃
    rw [runPhases]
    dsimp only
    rw [exec_bind_of _ run₁, trace_bind_of _ run₁]
    simp only [Bool.false_eq_true, if_false]
    rw [exec_bind_of _ run₂, trace_bind_of _ run₂]
    simp only [Bool.not_true, Bool.false_eq_true, if_false]
    rw [nxmtVerifyPhase, exec_bind_of _ run₃, trace_bind_of _ run₃]
    simp only [Bool.not_true, Bool.false_eq_true, if_false]
    refine ⟨?_, ?_, ?_, fun clean => ?_⟩
    · rw [memory', memory₃]
      rfl
    · rw [records_append, records_append, records_append, records₁, records₂, records₃, records',
        memory₃]
      rfl
    · rw [quiet_append, quiet_append, quiet_append]
      exact ⟨quiet₁, quiet₂, quiet₃, quiet'⟩
    · -- the verify half folds in the words that the write half folded in
      have cancel : pressure₃ = pressure := by
        simp only [pressure₃, folded₂ clean]
        exact foldedPressure_phase clean phase b.memory pressure
      rw [← cancel]
      exact pressure' clean

include still go in
/-- An uninterrupted pass: its events record the mismatches of every phase in
table order, and status, report and byte counts follow from them. -/
theorem nxmtRunnerRunPass_uninterrupted {arena : NxmtArena} (ok : Accepts arena config)
    (small : arena.words.toNat < 2 ^ 61) (report : NxmtReport) (stats : NxmtRunStats)
    (b : Board σ) :
    let start := sliceStart arena config
    let count := sliceCount arena config
    let phases := nxmtPhasesForMode config.mode
    let reference := passCalls env start count config phases b.memory
    let pass := nxmtRunnerRunPass (some arena) (some config) (some report) (some stats)
    let out := exec env.serve pass b
    records (trace env.serve pass b) = reference.1 ∧
      out.2.memory = reference.2 ∧
      out.1.report = some (report.recordAll reference.1) ∧
      out.1.status = (if reference.1 = [] then .pass else .fail) ∧
      ∃ last pressure, out.1.stats = some
        ⟨BitVec.ofNat 64 phases.length * (BitVec.ofNat 64 count * wordBytes),
          BitVec.ofNat 64 phases.length * (BitVec.ofNat 64 count * wordBytes), pressure, last⟩ := by
  intro start count phases reference pass out
  have room : 8 * (start + count) ≤ 2 ^ 64 := by
    have := slice_le ok
    omega
  obtain ⟨memory, recs, quiet, -⟩ := exec_runPhases still go room report.errorCount
    (nxmtPhasesForMode_wide config.mode) report ⟨0, 0, 0, .fixedA⟩
    (config.seed ^^^ config.workerId.setWidth 64) b
  rw [← nxmtRunnerRunPass_accepts report stats ok] at memory recs quiet
  obtain ⟨finished, ran⟩ := path_nxmtRunnerRunPass report stats ok (path_trace env.serve pass b)
  have few := ran.few (env.serve_honest pass b) (sliceCount_lt ok small)
  have whole : finished = true := by
    cases finished with
    | true => rfl
    | false => exact absurd quiet ran.ends.not_quiet
  have report_eq := ran.report_eq
  have status_eq := ran.status_eq
  have bytes := ran.bytes whole
  rw [recs] at few report_eq status_eq
  rw [whole, verdict_finished] at status_eq
  simp only [ne_eq, NxmtReport.recordAll_errorCount_eq report few, ite_not] at status_eq
  refine ⟨recs, memory, report_eq, status_eq, ?_⟩
  obtain ⟨last, pressure, stats_eq⟩ := bytes
  exact ⟨last, pressure, by rw [stats_eq]; simp [phases, count]⟩

end
end NxMemTest
