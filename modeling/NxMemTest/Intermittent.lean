import NxMemTest.Confinement
import NxMemTest.StopSemantics

/-! Intermittent faults: memory that may answer each load differently. The fast
stage reads a chunk once and the walk reads it again, and only what the walk
reads is recorded. -/

namespace NxMemTest
open Interaction Program

def logged {σ : Type} (d : Device σ) : Device (σ × List (Nat × Word)) where
  load s p := ((d.load s.1 p).1, (d.load s.1 p).2, s.2 ++ [(p, (d.load s.1 p).1)])
  store s p v := (d.store s.1 p v, s.2)
  storeByte s q b := (d.storeByte s.1 q b, s.2)

section
variable {σ : Type} (d : Device σ)

def readings (p : Nat) (m : σ) (k : Nat) : List (Nat × Word) :=
  (List.range k).map fun j => (p + j, d.reading p m j)

theorem readings_succ (p : Nat) (m : σ) (k : Nat) :
    readings d p m (k + 1) = readings d p m k ++ [(p + k, d.reading p m k)] := by
  simp [readings, List.range_succ]

theorem mem_readings {p : Nat} {m : σ} {k : Nat} {l : Nat × Word} :
    l ∈ readings d p m k ↔ ∃ j < k, l = (p + j, d.reading p m j) := by
  simp [readings, eq_comm]

theorem logged_after (p : Nat) (m : σ) (log : List (Nat × Word)) (k : Nat) :
    (logged d).after p (m, log) k = (d.after p m k, log ++ readings d p m k) := by
  induction k with
  | zero => simp [Device.after, readings]
  | succ k ih =>
    rw [Device.after, ih, readings_succ, ← List.append_assoc]
    rfl

theorem logged_reading (p : Nat) (m : σ) (log : List (Nat × Word)) (k : Nat) :
    (logged d).reading p (m, log) k = d.reading p m k := by
  rw [Device.reading, logged_after]
  rfl

theorem logged_fastLoads (phase : NxmtPhase) (p n : Nat) (expected : Nat → Word) (m : σ)
    (log : List (Nat × Word)) :
    fastLoads (logged d) phase p n expected (m, log) = fastLoads d phase p n expected m := by
  simp only [fastLoads, firstWrong, logged_reading]

/-- Every load of `p[k]` that `nxmt_verify_chunk` performs, with its answer. -/
def verifyLoads (p n s : Nat) (phase : NxmtPhase) (config : NxmtRunConfig) (m : σ) :
    List (Nat × Word) :=
  (nxmtVerifyChunk (logged d) p n (BitVec.ofNat 64 s) phase config (m, [])).2.2

def WrongRead (p n s : Nat) (phase : NxmtPhase) (config : NxmtRunConfig) (m : σ) : Prop :=
  ∃ l ∈ verifyLoads d p n s phase config m,
    l.2 ≠ expectedWord config.seed phase config.pass (s + (l.1 - p))

/-- The oracle answers so that the walk confirms what the fast stage saw: there is
no fast stage, or it reads every word right, or the loads that follow it read
some word wrong as well. -/
def Confirmed (p n s : Nat) (phase : NxmtPhase) (config : NxmtRunConfig) (m : σ) : Prop :=
  let expected := fun k => expectedWord config.seed phase config.pass (s + k)
  phase = .walking ∨ (∀ k < n, d.reading p m k = expected k) ∨
    ∃ k < n, d.reading p (d.after p m (fastLoads d phase p n expected m)) k ≠ expected k

theorem walked_eq_nil {config : NxmtRunConfig} {phase : NxmtPhase} {s n : Nat} (f : Nat → Word) :
    wrongWords config phase (List.range' s n) (fun w => f (w - s)) ≠ [] ↔
      ∃ k < n, f k ≠ expectedWord config.seed phase config.pass (s + k) := by
  rw [ne_eq, wrongWords_eq_nil]
  push Not
  constructor
  · rintro ⟨w, hw, wrong⟩
    obtain ⟨low, high⟩ := List.mem_range'_1.1 hw
    exact ⟨w - s, by omega, by rwa [Nat.add_sub_cancel' low]⟩
  · rintro ⟨k, hk, wrong⟩
    exact ⟨s + k, List.mem_range'_1.2 ⟨by omega, by omega⟩, by rwa [Nat.add_sub_cancel_left]⟩

theorem wrong_reading {p n : Nat} {m : σ} {expected : Nat → Word} :
    (∃ l ∈ readings d p m n, l.2 ≠ expected (l.1 - p)) ↔
      ∃ k < n, d.reading p m k ≠ expected k := by
  constructor
  · rintro ⟨l, hl, wrong⟩
    obtain ⟨j, hj, rfl⟩ := (mem_readings d).1 hl
    exact ⟨j, hj, by simpa using wrong⟩
  · rintro ⟨k, hk, wrong⟩
    exact ⟨_, (mem_readings d).2 ⟨k, hk, rfl⟩, by simpa using wrong⟩

theorem fastLoads_wrong {phase : NxmtPhase} (fast : phase ≠ .walking) {p n : Nat} {m : σ}
    {expected : Nat → Word} (dirty : ¬ ∀ k < n, d.reading p m k = expected k) :
    ∃ k < fastLoads d phase p n expected m, d.reading p m k ≠ expected k := by
  have all : ∃ k < n, d.reading p m k ≠ expected k := by
    push Not at dirty
    exact dirty
  cases phase with
  | walking => exact absurd rfl fast
  | stream =>
    have lt := (firstWrong_lt d p n expected m).2 dirty
    have length : firstWrong d p n expected m < (List.range n).length := by simpa using lt
    refine ⟨firstWrong d p n expected m, Nat.lt_succ_self _, ?_⟩
    have wrong := List.findIdx_getElem (w := length)
    simpa [firstWrong] using wrong
  | _ => exact all

theorem wrongRead_recorded_iff (p n s : Nat) (hs : 8 * (s + n) ≤ 2 ^ 64) (phase : NxmtPhase)
    (config : NxmtRunConfig) (m : σ) :
    (WrongRead d p n s phase config m →
        (nxmtVerifyChunk d p n (BitVec.ofNat 64 s) phase config m).1 ≠ []) ↔
      Confirmed d p n s phase config m := by
  let expected := fun k => expectedWord config.seed phase config.pass (s + k)
  let loads := fastLoads d phase p n expected m
  have run := nxmtVerifyChunk_eq d p n s hs phase config m
  have log := nxmtVerifyChunk_eq (logged d) p n s hs phase config (m, [])
  simp only [logged_after, logged_reading, logged_fastLoads, List.nil_append] at log
  rw [WrongRead, verifyLoads, run, log]
  by_cases clean : phase ≠ .walking ∧ ∀ k < n, d.reading p m k = expected k
  · -- nothing wrong was read
    rw [if_pos clean, if_pos clean]
    refine iff_of_true (fun wrong => ?_) (.inr (.inl clean.2))
    have misread : ∃ l ∈ readings d p m n, l.2 ≠ expected (l.1 - p) := wrong
    obtain ⟨k, hk, differs⟩ := (wrong_reading d).1 misread
    exact absurd (clean.2 k hk) differs
  · rw [if_neg clean, if_neg clean]
    dsimp only
    rw [walked_eq_nil]
    have split : (∃ l ∈ readings d p m loads ++ readings d p (d.after p m loads) n,
        l.2 ≠ expected (l.1 - p)) ↔ (∃ k < loads, d.reading p m k ≠ expected k) ∨
          ∃ k < n, d.reading p (d.after p m loads) k ≠ expected k := by
      rw [← wrong_reading d, ← wrong_reading d]
      simp only [List.mem_append, or_and_right, exists_or]
    have logged : (∃ l ∈ readings d p m loads ++ readings d p (d.after p m loads) n,
        l.2 ≠ expectedWord config.seed phase config.pass (s + (l.1 - p))) ↔ _ := split
    rw [logged]
    by_cases walking : phase = .walking
    · -- the walk reads first, so what it reads wrong it records
      have none : loads = 0 := by simp only [loads, walking, fastLoads]
      refine iff_of_true (fun wrong => ?_) (.inl walking)
      refine wrong.resolve_left ?_
      rintro ⟨k, hk, -⟩
      omega
    · have dirty : ¬ ∀ k < n, d.reading p m k = expected k := fun right => clean ⟨walking, right⟩
      have seen := fastLoads_wrong d walking dirty
      constructor
      · exact fun kept => .inr (.inr (kept (.inl seen)))
      · rintro (h | h | h) _
        · exact absurd h walking
        · exact absurd h dirty
        · exact h

end

def Env.found {σ : Type} (env : Env σ) (phase : NxmtPhase) (b : Board σ) : σ :=
  if b.seat.dirty then env.corrupt phase b.memory else b.memory

/-- Chunk by chunk, a wrong read is recorded exactly where the walk confirms the
fast stage; a pass that meets this at every chunk turns a wrong read into `FAIL`. -/
theorem wrongRead_recorded {σ : Type} (d : Device σ) :
    (∀ (p n s : Nat) (phase : NxmtPhase) (config : NxmtRunConfig) (m : σ),
      8 * (s + n) ≤ 2 ^ 64 →
      ((WrongRead d p n s phase config m →
          (nxmtVerifyChunk d p n (BitVec.ofNat 64 s) phase config m).1 ≠ []) ↔
        Confirmed d p n s phase config m)) ∧
    ∀ (corrupt : NxmtPhase → σ → σ) (stops : Nat → Bool) (b : Board σ) (arena : NxmtArena)
      (config : NxmtRunConfig) (report : NxmtReport) (stats : NxmtRunStats),
      Accepts arena config → arena.words.toNat < 2 ^ 61 →
      let env : Env σ := ⟨d, corrupt, stops⟩
      let pass := nxmtRunnerRunPass (some arena) (some config) (some report) (some stats)
      (∀ p n s phase cfg b', (Call.verifyChunk p n s phase cfg, b') ∈ visits env.serve pass b →
        Confirmed d p n s phase cfg (env.found phase b')) →
      (∃ p n s phase cfg b', (Call.verifyChunk p n s phase cfg, b') ∈ visits env.serve pass b ∧
        WrongRead d p n s phase cfg (env.found phase b')) →
      (exec env.serve pass b).1.status = .fail := by
  refine ⟨fun p n s phase config m hs => wrongRead_recorded_iff d p n s hs phase config m, ?_⟩
  intro corrupt stops b arena config report stats ok small env pass confirmed
  rintro ⟨p, n, s, phase, cfg, b', visit, wrong⟩
  obtain ⟨rfl, low, high, -⟩ :=
    (nxmtRunnerRunPass_within ok report stats).visited b _ visit
  have inside := slice_le ok
  have kept := (wrongRead_recorded_iff d s n s (by omega) phase cfg (env.found phase b')).2
    (confirmed _ _ _ _ _ _ visit) wrong
  obtain ⟨finished, ran⟩ := path_nxmtRunnerRunPass report stats ok (path_trace env.serve pass b)
  have few := ran.few (env.serve_honest pass b) (sliceCount_lt ok small)
  refine (ran.fail_iff few).2 fun none => kept ?_
  have silent := List.flatMap_eq_nil_iff.1 none
  rw [trace_eq_visits] at silent
  exact silent _ (List.mem_map_of_mem visit)

def Call.onVerify (other : Bool) (test : Nat → Nat → Nat → NxmtPhase → NxmtRunConfig → Bool) :
    Call → Bool
  | .verifyChunk p n s phase config => test p n s phase config
  | _ => other

/-- Where every word is read as zero, zeros are read twice and recorded, and a pass fails. -/
theorem wrongRead_recorded_blank :
    let blank : Device Unit := ⟨fun _ _ => (0, ()), fun _ _ _ => (), fun _ _ _ => ()⟩
    let config : NxmtRunConfig := ⟨.quick, 1, 0, 0, 1, false, false, false⟩
    let env : Env Unit := ⟨blank, fun _ m => m, fun _ => false⟩
    (nxmtVerifyChunk blank 0 1 0 .fixedA config ()).1 ≠ [] ∧
      (exec env.serve (nxmtRunnerRunPass (some (nxmtArenaFromRange 0x1000 0x1000)) (some config)
        (some zeroReport) (some ⟨0, 0, 0, .fixedA⟩)) ⟨(), ⟨0, 0, false⟩⟩).1.status = .fail := by
  intro blank config env
  obtain ⟨chunk, run⟩ := wrongRead_recorded blank
  constructor
  · refine (chunk 0 1 0 .fixedA config () (by decide)).2 ?_ ⟨(0, 0), by decide, by decide⟩
    exact .inr (.inr ⟨0, by decide, by decide⟩)
  · have ok : Accepts (nxmtArenaFromRange 0x1000 0x1000) config :=
      ⟨by decide, by decide, by decide, by decide, by decide⟩
    let visited := visits env.serve (nxmtRunnerRunPass (some (nxmtArenaFromRange 0x1000 0x1000))
      (some config) (some zeroReport) (some ⟨0, 0, 0, .fixedA⟩)) ⟨(), ⟨0, 0, false⟩⟩
    have nonzero : ∀ v ∈ visited, v.1.onVerify true fun _ n s phase config =>
        1 < n && expectedWord config.seed phase config.pass (s + 1) != 0 := by decide +kernel
    have first : ∃ v ∈ visited, v.1.onVerify false fun p n s phase cfg =>
        p = 0 && n = 512 && s = 0 && phase = .fixedA && cfg = config := by decide +kernel
    refine run (fun _ m => m) (fun _ => false) ⟨(), ⟨0, 0, false⟩⟩ _ config zeroReport
      ⟨0, 0, 0, .fixedA⟩ ok (by decide) (fun p n s phase cfg b' visit => ?_) ?_
    · have asked := nonzero _ visit
      simp only [Call.onVerify, Bool.and_eq_true, decide_eq_true_eq, bne_iff_ne] at asked
      exact .inr (.inr ⟨1, asked.1, asked.2.symm⟩)
    · obtain ⟨⟨c, b'⟩, visit, asked⟩ := first
      cases c with
      | verifyChunk p n s phase cfg =>
        simp only [Call.onVerify, Bool.and_eq_true, decide_eq_true_eq] at asked
        obtain ⟨⟨⟨⟨rfl, rfl⟩, rfl⟩, rfl⟩, rfl⟩ := asked
        have loads : ∀ m, (0, 0) ∈ verifyLoads blank 0 512 0 .fixedA config m := by decide +kernel
        exact ⟨0, 512, 0, .fixedA, config, b', visit, (0, 0), loads _, by decide⟩
      | _ => cases asked

/-- A word that reads wrong once and right after that: the OR reduction sees it,
the walk does not, and nothing is recorded. -/
theorem wrongRead_dropped :
    let flaky : Device Bool :=
      ⟨fun fresh _ => (if fresh then 0 else kFixedA, false), fun _ _ _ => true, fun _ _ _ => true⟩
    let config : NxmtRunConfig := ⟨.quick, 1, 0, 0, 1, false, false, false⟩
    (∃ l ∈ verifyLoads flaky 0 1 0 .fixedA config true,
        l.2 ≠ nxmtExpectedValue config.seed .fixedA config.pass (BitVec.ofNat 64 (8 * l.1))) ∧
      (nxmtVerifyChunk flaky 0 1 0 .fixedA config true).1 = [] := by
  intro flaky config
  exact ⟨⟨(0, 0), by decide, by decide⟩, by decide⟩

end NxMemTest
