import NxMemTest.Reference
import NxMemTest.CellFaults

/-! Stores that disturb other words. The writer goes upwards through its slice, so a
phase overwrites what stores below a word have done to it, and sees only what those
above it do. -/

namespace NxMemTest
open Interaction Program

/-- Memory in which a store of `v` in word `p` makes `disturb p v q x` of an `x` in any
other word `q`. -/
def disturbed (disturb : Effect) : Device Ram where
  load m p := (m p, m)
  store m p v := fun q => if q = p then v else disturb p v q (m q)
  storeByte m b byte := fun q =>
    if q = b / 8 then m.storeByte b byte q else disturb (b / 8) (m.storeByte b byte (b / 8)) q (m q)

def usesMemset (phase : NxmtPhase) : Bool := phase = .fixedA ∨ phase = .fixed5

/-- `memset` may go through a chunk in any order: what its phases leave in memory is `memset`. -/
def disturbedEnv (disturb : Effect) (memset : NxmtPhase → Ram → Ram) (stops : Nat → Bool) : Env Ram :=
  ⟨disturbed disturb, fun phase m => if usesMemset phase then memset phase m else m, stops⟩

section
variable {disturb : Effect}

theorem disturbed_stable (m : Ram) : (disturbed disturb).Stable m := fun _ => rfl

theorem disturbed_pointwise : Sweep.Pointwise (disturbed disturb).view (disturbed disturb).store
    fun p v q x => if q = p then v else disturb p v q x := fun _ _ _ _ => rfl

/-- What is left of word `w` of the slice once all the words above it have been stored. -/
def residue (disturb : Effect) (start count : Nat) (config : NxmtRunConfig) (phase : NxmtPhase)
    (w : Nat) (v : Word) : Word :=
  Sweep.fold disturb (expectedWord config.seed phase config.pass)
    (List.range' (w + 1) (start + count - (w + 1))) w v

theorem view_phaseMemory_disturbed (memset : NxmtPhase → Ram → Ram) {config : NxmtRunConfig}
    (noInject : config.injectMismatch = false) (stops : Nat → Bool) {start count : Nat}
    {phase : NxmtPhase} (loops : usesMemset phase = false) (m : Ram) {w : Nat}
    (hw : w ∈ List.range' start count) :
    (disturbed disturb).view
        (phaseMemory (disturbedEnv disturb memset stops) start count config phase m) w =
      residue disturb start count config phase w (expectedWord config.seed phase config.pass w) := by
  obtain ⟨low, high⟩ := List.mem_range'_1.1 hw
  have loop : phaseMemory (disturbedEnv disturb memset stops) start count config phase m =
      phaseMemory ⟨disturbed disturb, fun _ m => m, stops⟩ start count config phase m := by
    simp only [phaseMemory, disturbedEnv, loops, Bool.false_eq_true, if_false]
  rw [loop, view_phaseMemory disturbed_pointwise noInject, Effect.phase, Sweep.range'_around low high,
    Sweep.fold_append, Sweep.fold_cons, if_pos rfl]
  refine List.foldl_ext _ _ _ fun x q hq => if_neg ?_
  have := List.mem_range'_1.1 hq
  omega

theorem residue_untouched {start count : Nat} {config : NxmtRunConfig} {phase : NxmtPhase} {w : Nat}
    (alone : ∀ p, w < p → p < start + count → ∀ v x, disturb p v w x = x) (v : Word) :
    residue disturb start count config phase w v = v := by
  refine Sweep.fold_untouched (fun p hp x => ?_) v
  have := List.mem_range'_1.1 hp
  exact alone p (by omega) (by omega) _ x

theorem residue_single {start count : Nat} {config : NxmtRunConfig} {phase : NxmtPhase} {w a : Nat}
    (low : w < a) (high : a < start + count)
    (alone : ∀ p ≠ a, w < p → p < start + count → ∀ v x, disturb p v w x = x) (v : Word) :
    residue disturb start count config phase w v =
      disturb a (expectedWord config.seed phase config.pass a) w v := by
  have around : List.range' (w + 1) (start + count - (w + 1)) = _ :=
    Sweep.range'_around low (by omega)
  rw [residue, around, Sweep.fold_append, Sweep.fold_cons, Sweep.fold_untouched,
    Sweep.fold_untouched]
  · intro p hp x
    have := List.mem_range'_1.1 hp
    exact alone p (by omega) (by omega) (by omega) _ x
  · intro p hp x
    have := List.mem_range'_1.1 hp
    exact alone p (by omega) (by omega) (by omega) _ x

end

/-- What a pass records in the phases that are written by loops is exactly, phase by phase,
the words that the stores to the words above them, up to the end of the slice, have left
changed. Stores that disturb only words above them are never seen there; a word that one
word above it always changes is recorded in each of these phases. -/
theorem nxmtRunnerRunPass_disturbed (disturb : Effect) (memset : NxmtPhase → Ram → Ram)
    (base size : Word) (config : NxmtRunConfig) (report : NxmtReport) (stats : NxmtRunStats)
    (b : Board Ram) (stops : Nat → Bool)
    (hbase : (nxmtArenaFromRange base size).base ≠ 0)
    (hwords : (nxmtArenaFromRange base size).words ≠ 0)
    (worker : config.workerId < config.workerCount) (noInject : config.injectMismatch = false)
    (go : config.stopRequested = true → ∀ k, stops k = false) :
    let arena := nxmtArenaFromRange base size
    let start := sliceStart arena config
    let count := sliceCount arena config
    let expected := fun phase w => expectedWord config.seed phase config.pass w
    let loops := fun phase => !usesMemset phase
    let phases := (nxmtPhasesForMode config.mode).filter loops
    let serve := (disturbedEnv disturb memset stops).serve
    let pass := nxmtRunnerRunPass (some arena) (some config) (some report) (some stats)
    let calls := (records (trace serve pass b)).filter fun c => loops c.phase
    let status := (exec serve pass b).1.status
    calls = faultCalls (residue disturb start count config) config phases
        (List.range' start count) ∧
      ((∃ phase ∈ phases, ∃ w ∈ List.range' start count,
        residue disturb start count config phase w (expected phase w) ≠ expected phase w) →
          status = .fail) ∧
      ((∀ p v w x, w < p → disturb p v w x = x) → calls = []) ∧
      ∀ w a, start ≤ w → w < a → a < start + count → (∀ v x, disturb a v w x ≠ x) →
        (∀ p ≠ a, w < p → p < start + count → ∀ v x, disturb p v w x = x) →
        ∀ phase ∈ phases, ∃ c ∈ calls, c.phase = phase ∧ c.offset = BitVec.ofNat 64 (8 * w) := by
  intro arena start count expected loops phases serve pass calls status
  have ok : Accepts arena config := fromRange_accepts hbase hwords worker
  let env : Env Ram := disturbedEnv disturb memset stops
  have go' : env.Uninterrupted config := go
  have still : ∀ m, env.device.Stable m := disturbed_stable
  have small := (nxmtArenaFromRange_wellFormed hwords).words_lt
  obtain ⟨recs, -, -, status_eq, -⟩ := nxmtRunnerRunPass_uninterrupted still go' ok small report stats b
  have found : calls = faultCalls (residue disturb start count config) config phases
      (List.range' start count) := by
    refine (congrArg (List.filter _) recs).trans (passCalls_filter ?_ _ _)
    intro phase kept m w hw
    exact view_phaseMemory_disturbed memset noInject stops (by simpa [loops] using kept) m hw
  refine ⟨found, ?_, fun upwards => ?_, fun w a low above high changes alone phase hphase => ?_⟩
  · rintro ⟨phase, hphase, w, hw, wrong⟩
    have mem : errorCall config phase w (residue disturb start count config phase w
        (expected phase w)) ∈ calls := by
      rw [found]
      exact mem_faultCalls.2 ⟨phase, hphase, w, hw, wrong, rfl⟩
    have some : (passCalls env start count config (nxmtPhasesForMode config.mode) b.memory).1 ≠ [] := by
      rw [← recs]
      exact List.ne_nil_of_mem (List.mem_of_mem_filter mem)
    exact status_eq.trans (if_neg some)
  · rw [found, List.eq_nil_iff_forall_not_mem]
    intro c hc
    obtain ⟨phase, -, w, -, wrong, -⟩ := mem_faultCalls.1 hc
    exact wrong (residue_untouched (fun p above _ v x => upwards p v w x above) _)
  · refine ⟨errorCall config phase w (residue disturb start count config phase w (expected phase w)),
      ?_, rfl, rfl⟩
    rw [found]
    refine mem_faultCalls.2 ⟨phase, hphase, w, List.mem_range'_1.2 ⟨low, by omega⟩, ?_, rfl⟩
    rw [residue_single above high alone]
    exact changes _ _

/-- One page in which storing word 7 inverts word 3; `memset` leaves zeros. -/
theorem nxmtRunnerRunPass_disturbed_page :
    let disturb : Effect := fun p _ q x => if p = 7 ∧ q = 3 then ~~~x else x
    let config : NxmtRunConfig := ⟨.quick, 7, 0, 0, 1, false, false, false⟩
    let serve := (disturbedEnv disturb (fun _ _ _ => 0) fun _ => false).serve
    let pass := nxmtRunnerRunPass (some (nxmtArenaFromRange 0x1000 0x1000)) (some config)
      (some zeroReport) (some ⟨0, 0, 0, .fixedA⟩)
    let start : Board Ram := ⟨fun _ => 0, ⟨0, 0, false⟩⟩
    (exec serve pass start).1.status = .fail ∧
      ∃ c ∈ records (trace serve pass start), c.phase = .random ∧ c.offset = 24 := by
  intro disturb config serve pass board
  have start : sliceStart (nxmtArenaFromRange 0x1000 0x1000) config = 0 := by decide
  have count : sliceCount (nxmtArenaFromRange 0x1000 0x1000) config = 512 := by decide
  have found := nxmtRunnerRunPass_disturbed disturb (fun _ _ _ => 0) 0x1000 0x1000 config zeroReport
    ⟨0, 0, 0, .fixedA⟩ board (fun _ => false) (by decide) (by decide) (by decide) rfl fun _ _ => rfl
  dsimp only at found
  rw [start, count] at found
  obtain ⟨exact_calls, fails, -, single⟩ := found
  have inverted : ∀ v x : Word, disturb 7 v 3 x ≠ x := by
    intro v x same
    have bit := congrArg (fun y => BitVec.getLsbD y 0) same
    simp [disturb] at bit
  have alone : ∀ p ≠ 7, 3 < p → p < 0 + 512 → ∀ v x, disturb p v 3 x = x :=
    fun p other _ _ v x => if_neg fun here => other here.1
  obtain ⟨c, mem, phase, offset⟩ := single 3 7 (by decide) (by decide) (by decide) inverted alone
    .random (by decide)
  refine ⟨fails ⟨.random, by decide, 3, by decide, ?_⟩, c, List.mem_of_mem_filter mem, phase, offset⟩
  have left : residue disturb 0 512 config .random 3 (expectedWord config.seed .random config.pass 3) =
      _ := residue_single (by decide) (by decide) alone _
  exact fun same => inverted (expectedWord config.seed .random config.pass 7) _ (left.symm.trans same)

end NxMemTest
