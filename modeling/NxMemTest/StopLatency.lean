import NxMemTest.ThreadedWorld
import NxMemTest.Interaction.Budget

/-! How soon a worker stops. Once the stop flag is up, the words that a pass still names
in its calls are bounded by one chunk, wherever in the pass it happens. -/

namespace NxMemTest
open Interaction Program

/-- The words that a call names, each once; a verify may read them twice. -/
def Call.words : Call → Nat
  | .writeChunk _ chunkWords .. | .verifyChunk _ chunkWords .. => chunkWords
  | .load _ | .store .. => 1
  | .stopRequested | .progressAdd _ => 0

theorem writeChunk_words (p n startWord : Nat) (phase : NxmtPhase) (seed pass : Word) :
    (Call.writeChunk p n startWord phase seed pass).words = n := rfl

theorem verifyChunk_words (p n startWord : Nat) (phase : NxmtPhase) (config : NxmtRunConfig) :
    (Call.verifyChunk p n startWord phase config).words = n := rfl

/-- What the calls of one turn of a chunk loop name at most: a chunk, and in `EXTREME` the
same chunk again for the pressure. -/
def chunkWork (config : NxmtRunConfig) : Nat :=
  checkChunk + if config.mode = .extreme then checkChunk else 0

/-- A turn, and the load and the store of an injection. -/
def stopLatency (config : NxmtRunConfig) : Nat :=
  chunkWork config + if config.injectMismatch then 2 else 0

theorem chunkAt_le_checkChunk (count processed : Nat) : chunkAt count processed ≤ checkChunk := by
  unfold chunkAt
  dsimp only
  split <;> omega

/-! ### What the parts of a turn cost -/

theorem foldPressure_costs (config : NxmtRunConfig) (p chunk : Nat) (pressure : Word) :
    (foldPressure config p chunk pressure).Costs Call.words
      (if config.mode = .extreme then chunk else 0) := by
  unfold foldPressure
  split
  · have each : ∀ (v : Word) (k : Nat), Costs Call.words 1 (do
        let value ← Runner.load (p + k)
        pure (nxmtExtremeCpuPressure v value) : Runner Word) := fun v k =>
      costs_bind (d := 0) (costs_call le_rfl) fun _ => costs_pure 0 _
    have all := costs_foldlM each (List.range chunk) pressure
    rwa [List.length_range, Nat.mul_one] at all
  · exact costs_pure 0 pressure

theorem nxmtProgressAdd_costs (config : NxmtRunConfig) (delta : Word) :
    (nxmtProgressAdd config delta).Costs Call.words 0 := by
  unfold nxmtProgressAdd
  split
  · exact costs_call le_rfl
  · exact costs_pure 0 ()

theorem turn_costs {α : Type} (config : NxmtRunConfig) {c : Call} {chunk : Nat}
    (words : c.words = chunk) (small : chunk ≤ checkChunk) (p : Nat) (pressure delta : Word)
    (f : c.Answer → Word → α) :
    Costs Call.words (chunkWork config) (do
      let answer ← Program.call c
      let pressure ← foldPressure config p chunk pressure
      nxmtProgressAdd config delta
      pure (f answer pressure) : Runner α) := by
  have fold : (if config.mode = .extreme then chunk else 0) ≤
      if config.mode = .extreme then checkChunk else 0 := by
    split <;> omega
  refine costs_bind (costs_call (words.trans_le small)) fun _ => ?_
  refine costs_bind (d := 0) ((foldPressure_costs config p chunk pressure).mono fold) fun _ => ?_
  exact costs_bind (d := 0) (nxmtProgressAdd_costs config delta) fun _ => costs_pure 0 _

theorem injection_costs (start count : Nat) (config : NxmtRunConfig) (r : Bool × Word) :
    Costs Call.words (if config.injectMismatch then 2 else 0) (
      if !r.1 then pure (false, r.2)
      else if config.injectMismatch ∧ count > 0 then do
        let value ← Runner.load start
        Runner.store start (value ^^^ 0x100)
        pure (true, r.2)
      else pure (true, r.2) : Runner (Bool × Word)) := by
  by_cases inject : config.injectMismatch = true
  · rw [if_pos inject]
    split
    · exact costs_pure _ _
    split
    · have stores : ∀ value : Word, Costs Call.words 1
          (Runner.store start value >>= fun _ => pure (true, r.2)) := fun value =>
        costs_bind (d := 0) (costs_call le_rfl) fun _ => costs_pure 0 (true, r.2)
      exact costs_bind (c := 1) (costs_call (e := .load start) le_rfl) fun value =>
        stores (value ^^^ 0x100)
    · exact costs_pure _ _
  · rw [if_neg inject]
    split
    · exact costs_pure _ _
    · rw [if_neg fun both => inject both.1]
      exact costs_pure _ _

/-! ### Along a pass -/

abbrev Spares {α : Type} (n : Nat) (Q : Nat → α → Prop) (p : Runner α) : Prop :=
  Affords (Heard true) Call.words n Q p

section
variable {config : NxmtRunConfig} (polled : config.stopRequested = true)
include polled

theorem poll_spares {α : Type} {n : Nat} {Q : Nat → α → Prop} {f : Bool → Runner α}
    (stopped : Spares n Q (f true)) : Spares n Q (nxmtRunnerStopRequested config >>= f) := by
  rw [nxmtRunnerStopRequested, if_pos polled]
  refine affords_bind.2 (affords_call.2 ⟨Nat.zero_le n, fun r heard => ?_⟩)
  obtain rfl : r = true := heard
  exact stopped

theorem poll_always {α : Type} {n : Nat} {Q : Nat → α → Prop} {f : Bool → Runner α}
    (each : ∀ stop, Always (Spares n Q) (f stop)) :
    Always (Spares n Q) (nxmtRunnerStopRequested config >>= f) := by
  have start := poll_spares polled (each true).here
  rw [nxmtRunnerStopRequested, if_pos polled] at start ⊢
  exact ⟨start, each⟩

variable {n start count : Nat} {phase : NxmtPhase}

theorem writeChunks_spares {Q : Nat → Bool × Word → Prop} {processed : Nat} {pressure : Word}
    (ends : ∀ r, Q n r) :
    Spares n Q (writeChunks start count phase config processed pressure) := by
  rw [writeChunks]
  split
  · refine poll_spares polled ?_
    rw [if_pos rfl]
    exact ends _
  · exact ends _

theorem verifyChunks_spares {Q : Nat → Bool × NxmtReport × Word → Prop} {processed : Nat}
    {report : NxmtReport} {pressure : Word} (ends : ∀ r, Q n r) :
    Spares n Q (verifyChunks start count phase config processed report pressure) := by
  rw [verifyChunks]
  split
  · refine poll_spares polled ?_
    rw [if_pos rfl]
    exact ends _
  · exact ends _

theorem writeChunks_always {Q : Nat → Bool × Word → Prop} (enough : chunkWork config ≤ n)
    (left : ∀ k r, n - chunkWork config ≤ k → Q k r) (processed : Nat) (pressure : Word) :
    Always (Spares n Q) (writeChunks start count phase config processed pressure) := by
  induction rest : count - processed using Nat.strong_induction_on generalizing processed pressure with
  | h rest' ih =>
    subst rest
    rw [writeChunks]
    split
    · rename_i more
      refine poll_always polled fun stop => ?_
      cases stop with
      | true =>
        rw [if_pos rfl]
        exact left n _ (Nat.sub_le _ _)
      | false =>
        -- a chunk, and the loop goes on
        have pos := chunkAt_pos more
        have turn := turn_costs config (writeChunk_words (start + processed)
          (chunkAt count processed) (start + processed) phase config.seed config.pass)
          (chunkAt_le_checkChunk count processed) (start + processed) pressure
          (BitVec.ofNat 64 (chunkAt count processed) * wordBytes) fun _ pressure => pressure
        have whole : Always (Spares n Q) (_ >>= fun pressure => writeChunks start count phase config
            (processed + chunkAt count processed) pressure) := always_affords_bind
          (turn.always enough fun k _ le => writeChunks_spares polled fun r => left k r le)
          fun pressure => ih _ (by omega) _ pressure rfl
        simp only [LawfulMonad.bind_assoc, LawfulMonad.pure_bind] at whole
        rw [if_neg Bool.false_ne_true]
        exact whole
    · exact left n _ (Nat.sub_le _ _)

theorem verifyChunks_always {Q : Nat → Bool × NxmtReport × Word → Prop}
    (enough : chunkWork config ≤ n) (left : ∀ k r, n - chunkWork config ≤ k → Q k r)
    (processed : Nat) (report : NxmtReport) (pressure : Word) :
    Always (Spares n Q) (verifyChunks start count phase config processed report pressure) := by
  induction rest : count - processed using Nat.strong_induction_on
    generalizing processed report pressure with
  | h rest' ih =>
    subst rest
    rw [verifyChunks]
    split
    · rename_i more
      refine poll_always polled fun stop => ?_
      cases stop with
      | true =>
        rw [if_pos rfl]
        exact left n _ (Nat.sub_le _ _)
      | false =>
        have pos := chunkAt_pos more
        have turn := turn_costs config (verifyChunk_words (start + processed)
          (chunkAt count processed) (start + processed) phase config)
          (chunkAt_le_checkChunk count processed) (start + processed) pressure
          (BitVec.ofNat 64 (chunkAt count processed) * wordBytes) Prod.mk
        have whole : Always (Spares n Q) (_ >>= fun found : List RecordCall × Word =>
            verifyChunks start count phase config
            (processed + chunkAt count processed) (report.recordAll found.1) found.2) :=
          always_affords_bind
          (turn.always enough fun k _ le => verifyChunks_spares polled fun r => left k r le)
          fun found => ih _ (by omega) _ _ found.2 rfl
        simp only [LawfulMonad.bind_assoc, LawfulMonad.pure_bind] at whole
        rw [if_neg Bool.false_ne_true]
        exact whole
    · exact left n _ (Nat.sub_le _ _)

theorem nxmtWritePhase_always {Q : Nat → Bool × Word → Prop} (enough : stopLatency config ≤ n)
    (left : ∀ k r, n - stopLatency config ≤ k → Q k r) (pressure : Word) :
    Always (Spares n Q) (nxmtWritePhase start count phase config pressure) := by
  have latency : stopLatency config = chunkWork config + if config.injectMismatch then 2 else 0 := rfl
  refine always_affords_bind (writeChunks_always polled (by omega) (fun k r le => ?_) 0 pressure)
    fun r => (injection_costs start count config r).always (by omega) fun k _ le => ?_
  · refine (injection_costs start count config r).affords (by omega) fun k' _ le' => ?_
    exact left k' _ (by omega)
  · exact left k _ (by omega)

theorem runPhases_spares (phases : List NxmtPhase) (initialErrors : Word) (report : NxmtReport)
    (stats : NxmtRunStats) (pressure : Word) :
    Spares n (fun _ _ => True)
      (runPhases start count config initialErrors phases report stats pressure) := by
  cases phases with
  | nil => trivial
  | cons phase phases =>
    rw [runPhases]
    refine poll_spares polled ?_
    rw [if_pos rfl]
    trivial

theorem runPhases_always (phases : List NxmtPhase) (initialErrors : Word) (report : NxmtReport)
    (stats : NxmtRunStats) (pressure : Word) :
    Always (Spares (stopLatency config) fun _ _ => True)
      (runPhases start count config initialErrors phases report stats pressure) := by
  induction phases generalizing report stats pressure with
  | nil => trivial
  | cons phase phases ih =>
    rw [runPhases]
    refine poll_always polled fun stop => ?_
    cases stop with
    | true => trivial
    | false =>
      refine always_affords_bind (nxmtWritePhase_always polled le_rfl (fun k r _ => ?_) pressure) ?_
      · -- the verifying half asks before it does anything
        dsimp only
        split
        · trivial
        · refine affords_bind.2 (verifyChunks_spares polled fun r => ?_)
          split
          · trivial
          · exact runPhases_spares polled _ _ _ _ _
      · rintro ⟨written, pressure⟩
        dsimp only
        split
        · trivial
        · refine always_affords_bind (verifyChunks_always polled (Nat.le_add_right _ _)
            (fun k r _ => ?_) 0 report pressure) ?_
          · split
            · trivial
            · exact runPhases_spares polled _ _ _ _ _
          · rintro ⟨verified, report, pressure⟩
            dsimp only
            split
            · trivial
            · exact ih report _ pressure

theorem nxmtRunnerRunPass_always (arena : Option NxmtArena) (report : Option NxmtReport)
    (stats : Option NxmtRunStats) :
    Always (Spares (stopLatency config) fun _ _ => True)
      (nxmtRunnerRunPass arena (some config) report stats) := by
  cases stats with
  | none => trivial
  | some stats =>
  cases arena with
  | none => trivial
  | some arena =>
  cases report with
  | none => trivial
  | some report =>
  unfold nxmtRunnerRunPass
  dsimp only
  split
  · trivial
  split
  · trivial
  exact runPhases_always polled _ _ _ _ _

end

abbrev touched (t : List (Event Call.Answer)) : Nat := spent Call.words t

/-- Wherever a pass is when the stop flag goes up, its calls from there on name the words of
at most one chunk (twice over in `EXTREME`, which folds them too), and one word twice for an
injection; whatever the arena, the report, memory and the polls before. -/
theorem nxmtRunnerRunPass_stopsSoon (arena : Option NxmtArena) (config : NxmtRunConfig)
    (report : Option NxmtReport) (stats : Option NxmtRunStats)
    (polled : config.stopRequested = true) {t u : List (Event Call.Answer)} {r : PassResult}
    (path : Path (nxmtRunnerRunPass arena (some config) report stats) (t ++ u) r)
    (up : ∀ e ∈ u, Heard true e) : touched u ≤ stopLatency config := by
  obtain ⟨q, spares, later⟩ := (nxmtRunnerRunPass_always polled arena report stats).after path
  exact spares.spent_le later up

/-- The flag goes up while a page is being written. -/
theorem nxmtRunnerRunPass_stopsSoon_page :
    let config : NxmtRunConfig := ⟨.quick, 0, 0, 0, 1, false, true, false⟩
    touched [⟨.writeChunk 0 512 0 .fixedA 0 0, ()⟩, ⟨.stopRequested, true⟩] ≤ stopLatency config := by
  refine nxmtRunnerRunPass_stopsSoon (some ⟨0x1000, 4096, 512⟩) _ (some zeroReport)
    (some ⟨0, 0, 0, .fixedA⟩) rfl (t := [⟨.stopRequested, false⟩, ⟨.stopRequested, false⟩])
    (r := ⟨.aborted, some zeroReport, some ⟨4096, 0, 0, .fixedA⟩⟩) ?_ ?_
  · change Path (runPhases 0 512 _ 0 (.fixedA :: [.address, .random]) zeroReport ⟨0, 0, 0, .fixedA⟩ 0) _ _
    rw [runPhases]
    refine path_call_bind.2 ⟨false, _, rfl, ?_⟩
    rw [if_neg Bool.false_ne_true]
    refine path_bind.2 ⟨(true, 0), [_, _], [_], rfl, ?_, ?_⟩
    · refine path_bind.2 ⟨(true, 0), _, [], (List.append_nil _).symm, ?_, .done _⟩
      rw [writeChunks, if_pos (by decide)]
      refine path_call_bind.2 ⟨false, _, rfl, ?_⟩
      rw [if_neg Bool.false_ne_true]
      refine path_call_bind.2 ⟨(), _, rfl, ?_⟩
      change Path (writeChunks 0 512 .fixedA _ 512 0) _ _
      rw [writeChunks]
      exact .done _
    · refine path_bind.2 ⟨(false, zeroReport, 0), _, [], (List.append_nil _).symm, ?_, .done _⟩
      rw [nxmtVerifyPhase, verifyChunks, if_pos (by decide)]
      exact .ask (.done _)
  · simp [Heard]

end NxMemTest
