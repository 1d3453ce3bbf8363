import NxMemTest.Reference

/-! The pressure checksum of a clean pass. Both halves of a phase fold the same
words into one XOR accumulator, so each phase takes out what it put in. -/

namespace NxMemTest
open Interaction Program

section
variable {σ : Type} {env : Env σ} {config : NxmtRunConfig} {arena : NxmtArena}

theorem nxmtRunnerRunPass_pressure (still : ∀ m, env.device.Stable m)
    (go : env.Uninterrupted config) (clean : config.mode = .extreme → env.Clean config)
    (ok : Accepts arena config) (small : arena.words.toNat < 2 ^ 61) (report : NxmtReport)
    (stats : NxmtRunStats) (b : Board σ) :
    ∃ final, (exec env.serve (nxmtRunnerRunPass (some arena) (some config) (some report)
        (some stats)) b).1.stats = some final ∧
      final.pressureChecksum = config.seed ^^^ config.workerId.setWidth 64 := by
  have room : 8 * (sliceStart arena config + sliceCount arena config) ≤ 2 ^ 64 := by
    have := slice_le ok
    omega
  rw [nxmtRunnerRunPass_accepts report stats ok]
  obtain ⟨-, -, -, pressure⟩ := exec_runPhases still go room report.errorCount
    (nxmtPhasesForMode_wide config.mode) report ⟨0, 0, 0, .fixedA⟩
    (config.seed ^^^ config.workerId.setWidth 64) b
  exact pressure clean

theorem nxmtRunnerRunPass_pressure_only (still : ∀ m, env.device.Stable m)
    (go : env.Uninterrupted config) (clean : config.mode = .extreme → env.Clean config)
    (ok : Accepts arena config) (small : arena.words.toNat < 2 ^ 61) (report : NxmtReport)
    (stats : NxmtRunStats) (b : Board σ) :
    ¬ ∃ final, (exec env.serve (nxmtRunnerRunPass (some arena) (some config) (some report)
        (some stats)) b).1.stats = some final ∧
      final.pressureChecksum ≠ config.seed ^^^ config.workerId.setWidth 64 := by
  rintro ⟨other, other_eq, changed⟩
  obtain ⟨final, final_eq, untouched⟩ :=
    nxmtRunnerRunPass_pressure still go clean ok small report stats b
  rw [other_eq, Option.some.injEq] at final_eq
  rw [final_eq] at changed
  exact changed untouched

end

theorem ram_clean {config : NxmtRunConfig} (noInject : config.injectMismatch = false)
    (stops : Nat → Bool) : (Env.mk ram (fun _ m => m) stops).Clean config :=
  ⟨ram_readsBack, fun _ _ => rfl, noInject⟩

/-- A clean pass ends with the checksum it started from, `EXTREME` or not. -/
theorem pressureChecksum_untouched (base size : Word) (config : NxmtRunConfig)
    (report : NxmtReport) (stats : NxmtRunStats) (stops : Nat → Bool) (b : Board Ram)
    (hbase : (nxmtArenaFromRange base size).base ≠ 0)
    (hwords : (nxmtArenaFromRange base size).words ≠ 0)
    (worker : config.workerId < config.workerCount) (noInject : config.injectMismatch = false)
    (go : config.stopRequested = true → ∀ k, stops k = false) :
    let out := exec (Env.serve ⟨ram, fun _ m => m, stops⟩)
      (nxmtRunnerRunPass (some (nxmtArenaFromRange base size)) (some config) (some report)
        (some stats)) b
    (∃ final, out.1.stats = some final ∧
        final.pressureChecksum = config.seed ^^^ config.workerId.setWidth 64) ∧
      ¬ ∃ final, out.1.stats = some final ∧
        final.pressureChecksum ≠ config.seed ^^^ config.workerId.setWidth 64 := by
  intro out
  have still : ∀ m, (Env.mk ram (fun _ m => m) stops).device.Stable m := ram_stable
  have clean := fun _ : config.mode = .extreme => ram_clean noInject stops
  have ok := fromRange_accepts hbase hwords worker
  have small := (nxmtArenaFromRange_wellFormed hwords).words_lt
  exact ⟨nxmtRunnerRunPass_pressure still go clean ok small report stats b,
    nxmtRunnerRunPass_pressure_only still go clean ok small report stats b⟩

theorem pressureChecksum_untouched_page :
    let config : NxmtRunConfig := ⟨.extreme, 0x1234, 0, 1, 2, false, false, false⟩
    let out := exec (Env.serve ⟨ram, fun _ m => m, fun _ => false⟩)
      (nxmtRunnerRunPass (some (nxmtArenaFromRange 0x1000 0x1000)) (some config)
        (some zeroReport) (some ⟨0, 0, 0, .fixedA⟩)) ⟨fun _ => 0, ⟨0, 0, false⟩⟩
    ∃ final, out.1.stats = some final ∧
      final.pressureChecksum = config.seed ^^^ config.workerId.setWidth 64 :=
  (pressureChecksum_untouched 0x1000 0x1000 ⟨.extreme, 0x1234, 0, 1, 2, false, false, false⟩
    zeroReport ⟨0, 0, 0, .fixedA⟩ (fun _ => false) ⟨fun _ => 0, ⟨0, 0, false⟩⟩
    (by decide) (by decide) (by decide) rfl (fun _ _ => rfl)).1

/-- An `EXTREME` pass folds 256 words twice a phase and ends with a checksum no
different from that of a pass that folds none. -/
theorem extreme_checksum_blind :
    let arena := nxmtArenaFromRange 0x1000 0x1000
    let config : NxmtRunConfig := ⟨.extreme, 0x1234, 0, 1, 2, false, false, false⟩
    let out := exec (Env.serve ⟨ram, fun _ m => m, fun _ => false⟩)
      (nxmtRunnerRunPass (some arena) (some config) (some zeroReport) (some ⟨0, 0, 0, .fixedA⟩))
      ⟨fun _ => 0, ⟨0, 0, false⟩⟩
    sliceCount arena config = 256 ∧
      ¬ ∃ final, out.1.stats = some final ∧
        final.pressureChecksum ≠ config.seed ^^^ config.workerId.setWidth 64 := by
  have still : ∀ m, (Env.mk ram (fun _ m => m) fun _ => false).device.Stable m := ram_stable
  exact ⟨by decide, nxmtRunnerRunPass_pressure_only still (fun _ _ => rfl)
    (fun _ => ram_clean rfl _) (fromRange_accepts (by decide) (by decide) (by decide)) (by decide)
    zeroReport ⟨0, 0, 0, .fixedA⟩ ⟨fun _ => 0, ⟨0, 0, false⟩⟩⟩

end NxMemTest
