import NxMemTest.Runner

/-! The workers of `source/nx/main.c`: their contexts, their thread body, and how
the main thread merges what they found. -/

namespace NxMemTest

structure NxmtWorkerContext where
  arena : NxmtArena
  config : NxmtRunConfig
  report : NxmtReport
  stats : NxmtRunStats
  status : NxmtStatus
  deriving DecidableEq

def nxmtWorkerEntry (ctx : NxmtWorkerContext) : Runner NxmtWorkerContext := do
  let report := nxmtReportInit ctx.report
  let out ← nxmtRunnerRunPass (some ctx.arena) (some ctx.config) (some report) (some ctx.stats)
  pure { ctx with
    report := out.report.getD report
    stats := out.stats.getD ctx.stats
    status := out.status }

def combineWorkerStatus (current workerStatus : NxmtStatus) : NxmtStatus :=
  if current = .fail ∨ workerStatus = .fail then .fail
  else if current = .aborted ∨ workerStatus = .aborted then .aborted
  else if current = .unsupported ∨ workerStatus = .unsupported then .unsupported
  else .pass

def initWorkerContext (arena : NxmtArena) (mode : NxmtMode) (seed : Word)
    (worker workers : BitVec 32) (stopRequested : Bool) : NxmtWorkerContext where
  arena := arena
  config := ⟨mode, seed, 0, worker, workers, false, stopRequested, false⟩
  report := zeroReport
  stats := ⟨0, 0, 0, .fixedA⟩
  status := .unsupported

structure Totals where
  report : NxmtReport
  totalStats : NxmtRunStats
  status : NxmtStatus
  completedWorkers : BitVec 32
  deriving DecidableEq

def mergeWorkerContext (ctx : NxmtWorkerContext) (t : Totals) : Totals where
  report := nxmtReportMerge t.report ctx.report
  totalStats :=
    { t.totalStats with
      bytesWritten := t.totalStats.bytesWritten + ctx.stats.bytesWritten
      bytesVerified := t.totalStats.bytesVerified + ctx.stats.bytesVerified
      pressureChecksum := t.totalStats.pressureChecksum ^^^ ctx.stats.pressureChecksum }
  status := combineWorkerStatus t.status ctx.status
  completedWorkers :=
    if ctx.status ≠ .unsupported ∧ ctx.status ≠ .aborted then t.completedWorkers + 1
    else t.completedWorkers

/-- The totals before the first pass; `report` is an uninitialized local. -/
def initTotals (report : NxmtReport) : Totals :=
  ⟨nxmtReportInit report, ⟨0, 0, 0, .fixedA⟩, .pass, 0⟩

theorem combineWorkerStatus_fail (current workerStatus : NxmtStatus) :
    combineWorkerStatus current workerStatus = .fail ↔ current = .fail ∨ workerStatus = .fail := by
  cases current <;> cases workerStatus <;> decide

theorem combineWorkerStatus_unsupported {current workerStatus : NxmtStatus}
    (hc : current ≠ .unsupported) (hw : workerStatus ≠ .unsupported) :
    combineWorkerStatus current workerStatus ≠ .unsupported := by
  cases current <;> cases workerStatus <;> revert hc hw <;> decide

theorem combineWorkerStatus_pass (current workerStatus : NxmtStatus) :
    combineWorkerStatus current workerStatus = .pass ↔ current = .pass ∧ workerStatus = .pass := by
  cases current <;> cases workerStatus <;> decide

theorem combineWorkerStatus_ite (p q : Prop) [Decidable p] [Decidable q] :
    combineWorkerStatus (if p then .pass else .fail) (if q then .pass else .fail) =
      if p ∧ q then .pass else .fail := by
  by_cases hp : p <;> by_cases hq : q <;> simp [hp, hq, combineWorkerStatus]

end NxMemTest
