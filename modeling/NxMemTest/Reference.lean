import NxMemTest.PassSpec

/-! The naive pass: word by word over the slice, with neither chunks nor fast
stages, for memory that is corrupted between the halves of each phase. It says
what a pass is for; `nxmt_runner_run_pass` refines it. -/

namespace NxMemTest
open Interaction Program

def referenceMemory (corrupt : NxmtPhase → Ram → Ram) (start count : Nat)
    (config : NxmtRunConfig) (phase : NxmtPhase) (m : Ram) : Ram :=
  let m := (List.range' start count).foldl (fun m w => Function.update m w
    (nxmtExpectedValue config.seed phase config.pass (BitVec.ofNat 64 (8 * w)))) m
  let m := if config.injectMismatch ∧ count > 0 then
    Function.update m start (m start ^^^ 0x100) else m
  corrupt phase m

def referenceCalls (start count : Nat) (config : NxmtRunConfig) (phase : NxmtPhase)
    (m : Ram) : List RecordCall :=
  (List.range' start count).flatMap fun w =>
    let offset := BitVec.ofNat 64 (8 * w)
    let expected := nxmtExpectedValue config.seed phase config.pass offset
    if m w ≠ expected then
      [⟨config.mode, phase, config.seed, config.pass, config.workerId, offset, expected, m w⟩]
    else []

/-- The recordings of the listed phases in order, and the memory left behind. -/
def referencePass (corrupt : NxmtPhase → Ram → Ram) (start count : Nat)
    (config : NxmtRunConfig) : List NxmtPhase → Ram → List RecordCall × Ram
  | [], m => ([], m)
  | phase :: phases, m =>
    let m := referenceMemory corrupt start count config phase m
    let rest := referencePass corrupt start count config phases m
    (referenceCalls start count config phase m ++ rest.1, rest.2)

theorem referenceCalls_eq (start count : Nat) (config : NxmtRunConfig) (phase : NxmtPhase)
    (m : Ram) : referenceCalls start count config phase m =
      wrongWords config phase (List.range' start count) m := by
  simp only [referenceCalls, wrongWords, errorCall, expectedWord]
  induction List.range' start count with
  | nil => rfl
  | cons w ws ih =>
    rw [List.flatMap_cons, ih, List.filter_cons]
    by_cases right : m w = nxmtExpectedValue config.seed phase config.pass (BitVec.ofNat 64 (8 * w))
    · simp [right]
    · simp [right]

section
variable {start count : Nat} {corrupt : NxmtPhase → Ram → Ram}
  (inSlice : ∀ phase m w, w ∉ List.range' start count → corrupt phase m w = m w)
include inSlice

theorem referenceMemory_eq (stops : Nat → Bool) (config : NxmtRunConfig) (phase : NxmtPhase)
    (m : Ram) : phaseMemory ⟨ram, corrupt, stops⟩ start count config phase m =
      referenceMemory corrupt start count config phase m := by
  rw [phaseMemory]
  dsimp only
  split
  · rfl
  · rename_i empty
    have zero : count = 0 := Nat.eq_zero_of_not_pos empty
    subst zero
    funext w
    exact (inSlice phase _ w (by simp)).symm

theorem referencePass_eq (stops : Nat → Bool) (config : NxmtRunConfig) (phases : List NxmtPhase)
    (m : Ram) : passCalls ⟨ram, corrupt, stops⟩ start count config phases m =
      referencePass corrupt start count config phases m := by
  induction phases generalizing m with
  | nil => rfl
  | cons phase phases ih =>
    rw [passCalls, referencePass]
    dsimp only
    rw [referenceMemory_eq inSlice, ih, referenceCalls_eq]
    rfl

end

theorem NxmtArena.WellFormed.accepts {arena : NxmtArena} {config : NxmtRunConfig}
    (wf : arena.WellFormed) (hbase : arena.base ≠ 0) (hwords : arena.words ≠ 0)
    (worker : config.workerId < config.workerCount) : Accepts arena config := by
  refine ⟨hbase, hwords, ?_, worker, ?_⟩
  · intro none
    rw [none] at worker
    bv_omega
  · have page := wf.base_page
    apply BitVec.eq_of_toNat_eq
    have eight : (8 : Word).toNat = 8 := rfl
    rw [BitVec.toNat_umod, eight]
    simp only [BitVec.ofNat_eq_ofNat, BitVec.toNat_ofNat]
    omega

theorem fromRange_accepts {base size : Word} {config : NxmtRunConfig}
    (hbase : (nxmtArenaFromRange base size).base ≠ 0)
    (hwords : (nxmtArenaFromRange base size).words ≠ 0)
    (worker : config.workerId < config.workerCount) :
    Accepts (nxmtArenaFromRange base size) config :=
  (nxmtArenaFromRange_wellFormed hwords).accepts hbase hwords worker

/-- The chunked pass with its fast stages is the naive one. -/
theorem nxmtRunnerRunPass_refines (base size : Word) (config : NxmtRunConfig)
    (report : NxmtReport) (stats : NxmtRunStats) (m : Ram) (seat : Seat) (stops : Nat → Bool)
    (corrupt : NxmtPhase → Ram → Ram)
    (hbase : (nxmtArenaFromRange base size).base ≠ 0)
    (hwords : (nxmtArenaFromRange base size).words ≠ 0)
    (worker : config.workerId < config.workerCount) (noFlag : config.stopRequested = false)
    (inSlice : ∀ phase m w,
      w ∉ List.range' (sliceStart (nxmtArenaFromRange base size) config)
        (sliceCount (nxmtArenaFromRange base size) config) → corrupt phase m w = m w) :
    let arena := nxmtArenaFromRange base size
    let count := sliceCount arena config
    let phases := nxmtPhasesForMode config.mode
    let reference := referencePass corrupt (sliceStart arena config) count config phases m
    let out := exec (Env.serve ⟨ram, corrupt, stops⟩)
      (nxmtRunnerRunPass (some arena) (some config) (some report) (some stats)) ⟨m, seat⟩
    out.1.report = some (report.recordAll reference.1) ∧
      out.1.status = (if reference.1 = [] then .pass else .fail) ∧
      out.2.memory = reference.2 ∧
      ∃ last pressure, out.1.stats = some
        ⟨BitVec.ofNat 64 phases.length * (BitVec.ofNat 64 count * wordBytes),
          BitVec.ofNat 64 phases.length * (BitVec.ofNat 64 count * wordBytes), pressure, last⟩ := by
  intro arena count phases reference out
  have ok : Accepts arena config := fromRange_accepts hbase hwords worker
  have small := (nxmtArenaFromRange_wellFormed hwords).words_lt
  let env : Env Ram := ⟨ram, corrupt, stops⟩
  have go : env.Uninterrupted config := fun flag => absurd (noFlag.symm.trans flag) (by decide)
  have still : ∀ m, env.device.Stable m := ram_stable
  obtain ⟨-, memory, report_eq, status_eq, stats_eq⟩ :=
    nxmtRunnerRunPass_uninterrupted still go ok small report stats ⟨m, seat⟩
  rw [referencePass_eq inSlice] at memory report_eq status_eq
  exact ⟨report_eq, status_eq, memory, stats_eq⟩

/-- One page, one worker, and a word that loses its value in the `ADDRESS` phase. -/
theorem nxmtRunnerRunPass_refines_page :
    let corrupt : NxmtPhase → Ram → Ram := fun phase m =>
      if phase = .address then Function.update m 7 0 else m
    let config : NxmtRunConfig := ⟨.quick, 1, 0, 0, 1, false, false, false⟩
    let out := exec (Env.serve ⟨ram, corrupt, fun _ => false⟩)
      (nxmtRunnerRunPass (some (nxmtArenaFromRange 0x1000 0x1000)) (some config)
        (some (nxmtReportInit zeroReport)) (some ⟨0, 0, 0, .fixedA⟩)) ⟨fun _ => 0, ⟨0, 0, false⟩⟩
    out.2.memory = (referencePass corrupt 0 512 config quickPhases fun _ => 0).2 := by
  intro corrupt config out
  have start : sliceStart (nxmtArenaFromRange 0x1000 0x1000) config = 0 := by decide
  have count : sliceCount (nxmtArenaFromRange 0x1000 0x1000) config = 512 := by decide
  have refines := nxmtRunnerRunPass_refines 0x1000 0x1000 config
    (nxmtReportInit zeroReport) ⟨0, 0, 0, .fixedA⟩ (fun _ => 0) ⟨0, 0, false⟩ (fun _ => false) corrupt
    (by decide) (by decide) (by decide) rfl (by
      rw [start, count]
      intro phase m w outside
      have other : w ≠ 7 := by
        rintro rfl
        exact outside (by decide)
      simp only [corrupt]
      split
      · exact Function.update_of_ne other _ _
      · rfl)
  dsimp only at refines
  rw [start, count] at refines
  exact refines.2.2.1

end NxMemTest
