import NxMemTest.SharedMemory
import NxMemTest.Aliasing
import NxMemTest.Accounting

/-! The workers of a pass side by side at one memory whose words share cells. No
barrier keeps one worker from running ahead of another, so whether a shared cell
is found out depends on who stored to it last before it is verified. -/

namespace NxMemTest
open Interaction Program

/-! ### One memory of cells -/

structure SharedCells (ι κ : Type) where
  memory : κ → Word
  seat : ι → Seat

section
variable {ι κ : Type} [DecidableEq ι] [DecidableEq κ] (φ : Nat → κ)

def aliasedEnv (stops : ι → Nat → Bool) (i : ι) : Env (κ → Word) :=
  ⟨aliasing φ, fun _ m => m, stops i⟩

/-- Worker `i` makes a call; its polls are answered by `stops i`. -/
def serveAliased (stops : ι → Nat → Bool) (i : ι) (c : Call) (s : SharedCells ι κ) :
    Call.Answer c × SharedCells ι κ :=
  let out := (aliasedEnv φ stops i).serve c ⟨s.memory, s.seat i⟩
  (out.1, ⟨out.2.memory, Function.update s.seat i out.2.seat⟩)

theorem exec_serveAliased {α : Type} (stops : ι → Nat → Bool) (i : ι) (p : Runner α)
    (s : SharedCells ι κ) : (p.exec (serveAliased φ stops i) s).1 =
      (p.exec (aliasedEnv φ stops i).serve ⟨s.memory, s.seat i⟩).1 := by
  induction p generalizing s with
  | done a => rfl
  | ask c next ih =>
    simp only [exec, serveAliased]
    rw [ih]
    simp only [Function.update_self]

def stored (t : List (ι × Event Call.Answer)) : List (NxmtPhase × Nat) :=
  t.flatMap fun q => written q.2

/-- The last store into the cell of `w`: in which phase, and for which word. -/
def lastStore (t : List (ι × Event Call.Answer)) (w : Nat) : Option (NxmtPhase × Nat) :=
  ((stored t).filter fun s => φ s.2 = φ w).getLast?

omit [DecidableEq ι] in
theorem stored_cons (q : ι × Event Call.Answer) (t : List (ι × Event Call.Answer)) :
    stored (q :: t) = written q.2 ++ stored t := List.flatMap_cons

theorem writtenWords_eventsOf {i : ι} {t : List (ι × Event Call.Answer)} {s : NxmtPhase × Nat}
    (h : s ∈ writtenWords (Pool.eventsOf i t)) : s ∈ stored t := by
  obtain ⟨e, he, hs⟩ := List.mem_flatMap.1 h
  obtain ⟨q, hq, rfl⟩ := List.mem_map.1 he
  exact List.mem_flatMap.2 ⟨q, (List.mem_filter.1 hq).1, hs⟩

def storeAll (value : NxmtPhase × Nat → Word) (l : List (NxmtPhase × Nat)) (m : κ → Word) :
    κ → Word := l.foldl (fun m s => Function.update m (φ s.2) (value s)) m

theorem storeAll_last (value : NxmtPhase × Nat → Word) (l : List (NxmtPhase × Nat))
    (m : κ → Word) (c : κ) : storeAll φ value l m c =
      (((l.filter fun s => φ s.2 = c).getLast?.map value).getD (m c)) := by
  induction l using List.reverseRecOn with
  | nil => rfl
  | append_singleton l s ih =>
    have last : storeAll φ value (l ++ [s]) m =
        Function.update (storeAll φ value l m) (φ s.2) (value s) := List.foldl_append
    rw [last]
    by_cases here : φ s.2 = c
    · subst here
      simp
    · rw [Function.update_of_ne (Ne.symm here), ih]
      simp [here]

variable {W : Nat} {start count : Fin W → Nat} {config : NxmtRunConfig}
  {configs : Fin W → NxmtRunConfig} {phases : List NxmtPhase}

theorem Call.OfPass.bounds {start count : Nat} {c : Call} (h : c.OfPass start count config phases)
    {r : Call.Answer c} {s : NxmtPhase × Nat} (hs : s ∈ written ⟨c, r⟩ ∨ s ∈ verified ⟨c, r⟩) :
    start ≤ s.2 ∧ s.2 < start + count := by
  cases c with
  | writeChunk p n start' phase seed pass =>
    obtain ⟨-, low, high, -⟩ := h
    obtain ⟨w, hw, rfl⟩ := List.mem_map.1 (hs.resolve_right (by simp [verified]))
    have := List.mem_range'_1.1 hw
    dsimp only
    omega
  | verifyChunk p n start' phase c =>
    obtain ⟨-, low, high, -⟩ := h
    obtain ⟨w, hw, rfl⟩ := List.mem_map.1 (hs.resolve_left (by simp [written]))
    have := List.mem_range'_1.1 hw
    dsimp only
    omega
  | stopRequested | load | store | progressAdd => simp [written, verified] at hs

def OfWorkers (start count : Fin W → Nat) (configs : Fin W → NxmtRunConfig)
    (phases : List NxmtPhase) (i : Fin W) (c : Call) : Prop :=
  c.OfPass (start i) (count i) (configs i) phases

section
variable (room : ∀ i, 8 * (start i + count i) ≤ 2 ^ 64) (wide : ∀ phase ∈ phases, phase ≠ .narrow)
  (seed : ∀ i, (configs i).seed = config.seed) (pass : ∀ i, (configs i).pass = config.pass)
  (noInject : ∀ i, (configs i).injectMismatch = false)
include room wide seed pass noInject

theorem serveAliased_memory (stops : Fin W → Nat → Bool) (i : Fin W) (e : Event Call.Answer)
    (he : OfWorkers start count configs phases i e.1) (s : SharedCells (Fin W) κ) :
    (serveAliased φ stops i e.1 s).2.memory = storeAll φ
      (fun s => expectedWord config.seed s.1 config.pass s.2) (written e) s.memory := by
  obtain ⟨c, r⟩ := e
  have fits := room i
  cases c with
  | writeChunk p n start' phase seed' pass' =>
    obtain ⟨rfl, low, high, listed, rfl, rfl⟩ := he
    refine (nxmtWriteChunk_eq (aliasing φ) start' n start' (by omega) phase (wide phase listed)
      (configs i).seed (configs i).pass s.memory).trans ?_
    rw [storeAll, written, List.foldl_map, seed, pass, storeWords]
    refine List.foldl_ext _ _ _ fun m w hw => ?_
    rw [Nat.add_sub_cancel' (List.mem_range'_1.1 hw).1]
    rfl
  | verifyChunk p n start' phase c =>
    obtain ⟨rfl, low, high, listed, rfl⟩ := he
    have stay := nxmtVerifyChunk_stable (aliasing φ) (aliasing_stable φ s.memory) start' n start'
      (by omega) phase (configs i)
    simp only [serveAliased, aliasedEnv, Env.serve, ite_self, stay]
    rfl
  | store p value => exact absurd he.1 (by rw [noInject]; decide)
  | stopRequested | load | progressAdd => rfl

theorem replay_memory (stops : Fin W → Nat → Bool) (t : List (Fin W × Event Call.Answer))
    (calls : ∀ q ∈ t, OfWorkers start count configs phases q.1 q.2.1) (s : SharedCells (Fin W) κ) :
    (Pool.replay (serveAliased φ stops) t s).memory = storeAll φ
      (fun s => expectedWord config.seed s.1 config.pass s.2) (stored t) s.memory := by
  induction t generalizing s with
  | nil => rfl
  | cons q t ih =>
    have step := serveAliased_memory φ room wide seed pass noInject stops q.1 q.2
      (calls q List.mem_cons_self) s
    have rest := ih (fun q hq => calls q (List.mem_cons_of_mem _ hq))
      (serveAliased φ stops q.1 q.2.1 s).2
    rw [stored_cons, storeAll, List.foldl_append, ← storeAll, ← storeAll, ← step]
    exact rest

theorem recorded_verify (stops : Fin W → Nat → Bool) {before : List (Fin W × Event Call.Answer)}
    (calls : ∀ q ∈ before, OfWorkers start count configs phases q.1 q.2.1)
    {i : Fin W} {e : Event Call.Answer} (he : OfWorkers start count configs phases i e.1)
    {s : SharedCells (Fin W) κ}
    (answer : e.2 = (serveAliased φ stops i e.1 (Pool.replay (serveAliased φ stops) before s)).1)
    (written_before : ∀ s ∈ verified e, s ∈ stored before) :
    recorded e ≠ [] ↔ ∃ w phase last, (phase, w) ∈ verified e ∧ lastStore φ before w = some last ∧
      expectedWord config.seed last.1 config.pass last.2 ≠
        expectedWord config.seed phase config.pass w := by
  have memory := replay_memory φ room wide seed pass noInject stops before calls s
  obtain ⟨c, r⟩ := e
  have fits := room i
  cases c with
  | verifyChunk p n start' phase c =>
    obtain ⟨rfl, low, high, listed, rfl⟩ := he
    have stay := nxmtVerifyChunk_stable (aliasing φ) (aliasing_stable φ
      (Pool.replay (serveAliased φ stops) before s).memory) start' n start' (by omega) phase (configs i)
    have found : r = wrongWords (configs i) phase (List.range' start' n)
        fun w => (Pool.replay (serveAliased φ stops) before s).memory (φ (start' + (w - start'))) := by
      simp only [serveAliased, aliasedEnv, Env.serve, ite_self, stay] at answer
      exact answer
    have cell : ∀ w ∈ List.range' start' n, ∃ last, lastStore φ before w = some last ∧
        (Pool.replay (serveAliased φ stops) before s).memory (φ (start' + (w - start'))) =
          expectedWord config.seed last.1 config.pass last.2 := by
      intro w hw
      have own := written_before (phase, w) (List.mem_map.2 ⟨w, hw, rfl⟩)
      have some_store : (stored before).filter (fun s => φ s.2 = φ w) ≠ [] :=
        List.ne_nil_of_mem (List.mem_filter.2 ⟨own, decide_eq_true rfl⟩)
      have last := List.getLast?_eq_some_getLast some_store
      refine ⟨_, last, ?_⟩
      rw [Nat.add_sub_cancel' (List.mem_range'_1.1 hw).1, memory, storeAll_last, last]
      rfl
    simp only [recorded, verified, found]
    rw [ne_eq, wrongWords_eq_nil, not_forall]
    constructor
    · rintro ⟨w, wrong⟩
      obtain ⟨hw, wrong⟩ := Classical.not_imp.1 wrong
      obtain ⟨last, hlast, value⟩ := cell w hw
      rw [value, seed, pass] at wrong
      exact ⟨w, phase, last, List.mem_map.2 ⟨w, hw, rfl⟩, hlast, wrong⟩
    · rintro ⟨w, phase', last, hw, hlast, wrong⟩
      obtain ⟨w, hw, same⟩ := List.mem_map.1 hw
      cases same
      obtain ⟨last', hlast', value⟩ := cell w hw
      cases hlast.symm.trans hlast'
      exact ⟨w, Classical.not_imp.2 ⟨hw, by rw [value, seed, pass]; exact wrong⟩⟩
  | stopRequested | writeChunk | load | store | progressAdd => simp [recorded, verified]

end

/-- Some word is verified after another value was the last to go into its cell. -/
def Clobbered (config : NxmtRunConfig) (t : List (ι × Event Call.Answer)) : Prop :=
  ∃ before q after phase w last, t = before ++ q :: after ∧ (phase, w) ∈ verified q.2 ∧
    lastStore φ before w = some last ∧
    expectedWord config.seed last.1 config.pass last.2 ≠
      expectedWord config.seed phase config.pass w

omit [DecidableEq κ] in
theorem records_eventsOf {i : ι} {t : List (ι × Event Call.Answer)} :
    records (Pool.eventsOf i t) ≠ [] ↔ ∃ q ∈ t, q.1 = i ∧ recorded q.2 ≠ [] := by
  simp [records, Pool.eventsOf]

theorem records_iff_clobbered {t : List (ι × Event Call.Answer)}
    (found : ∀ before q after, t = before ++ q :: after → (recorded q.2 ≠ [] ↔
      ∃ w phase last, (phase, w) ∈ verified q.2 ∧ lastStore φ before w = some last ∧
        expectedWord config.seed last.1 config.pass last.2 ≠
          expectedWord config.seed phase config.pass w)) :
    (∃ i, records (Pool.eventsOf i t) ≠ []) ↔ Clobbered φ config t := by
  constructor
  · rintro ⟨i, some⟩
    obtain ⟨q, hq, -, recorded_q⟩ := records_eventsOf.1 some
    obtain ⟨before, after, split⟩ := List.append_of_mem hq
    obtain ⟨w, phase, last, clobber⟩ := (found before q after split).1 recorded_q
    exact ⟨before, q, after, phase, w, last, split, clobber⟩
  · rintro ⟨before, q, after, phase, w, last, split, clobber⟩
    have recorded_q := (found before q after split).2 ⟨w, phase, last, clobber⟩
    exact ⟨q.1, records_eventsOf.2 ⟨q, by rw [split]; simp, rfl, recorded_q⟩⟩

omit [DecidableEq ι] in
theorem clobbered_addressed {t : List (ι × Event Call.Answer)}
    (bound : ∀ q ∈ t, ∀ s, s ∈ written q.2 ∨ s ∈ verified q.2 → 8 * s.2 < 2 ^ 64)
    {before after : List (ι × Event Call.Answer)} {q : ι × Event Call.Answer} {phase : NxmtPhase}
    {w w' : Nat} (addressed : phase = .address ∨ phase = .random) (split : t = before ++ q :: after)
    (hw : (phase, w) ∈ verified q.2) (last : lastStore φ before w = some (phase, w')) (ne : w' ≠ w) :
    Clobbered φ config t := by
  refine ⟨before, q, after, phase, w, (phase, w'), split, hw, last, fun same => ne ?_⟩
  have hw64 := bound q (by rw [split]; simp) _ (.inr hw)
  obtain ⟨q', hq', stored'⟩ := List.mem_flatMap.1 (List.mem_filter.1 (List.mem_of_getLast? last)).1
  have hw'64 := bound q' (by rw [split]; simp [hq']) _ (.inl stored')
  rcases addressed with rfl | rfl
  · exact expectedWord_address_injective config.seed config.pass hw'64 hw64 same
  · exact expectedWord_random_injective config.seed config.pass hw'64 hw64 same

end

theorem verified_stored {arena : NxmtArena} {config : NxmtRunConfig} {W : BitVec 32}
    {reports : Fin W.toNat → NxmtReport} {stats : Fin W.toNat → NxmtRunStats}
    (ok : ∀ i : Fin W.toNat, Accepts arena (config.forWorker W i))
    {t before after : List (Fin W.toNat × Event Call.Answer)} {out : Fin W.toNat → PassResult}
    (path : ∀ i, Path (workerPass arena config W reports stats i) (Pool.eventsOf i t) (out i))
    {q : Fin W.toNat × Event Call.Answer} (split : t = before ++ q :: after) :
    ∀ s ∈ verified q.2, s ∈ stored before := by
  intro s hs
  have own := path q.1
  have events : Pool.eventsOf q.1 t =
      Pool.eventsOf q.1 before ++ q.2 :: Pool.eventsOf q.1 after := by
    simp [Pool.eventsOf, split]
  rw [events] at own
  simp only [workerPass, nxmtRunnerRunPass_accepts (reports q.1) (stats q.1) (ok q.1)] at own
  have ordered : VerifiesWritten [] _ := runPhases_verifiesWritten own
  have mem := (verifiesWritten_append.1 ordered).2.1 s hs
  rw [List.nil_append] at mem
  exact writtenWords_eventsOf mem

def combinedStatus {W : Nat} (out : Fin W → PassResult) : NxmtStatus :=
  (List.finRange W).foldl (fun status i => combineWorkerStatus status (out i).status) .pass

theorem combinedStatus_fail {W : Nat} (out : Fin W → PassResult) :
    combinedStatus out = .fail ↔ ∃ i, (out i).status = .fail := by
  have fold : ∀ (l : List (Fin W)) (status : NxmtStatus),
      l.foldl (fun status i => combineWorkerStatus status (out i).status) status = .fail ↔
        status = .fail ∨ ∃ i ∈ l, (out i).status = .fail := by
    intro l
    induction l with
    | nil => simp
    | cons i l ih =>
      intro status
      rw [List.foldl_cons, ih, combineWorkerStatus_fail, List.exists_mem_cons_iff, or_assoc]
  rw [combinedStatus, fold]
  simp

section
variable {κ : Type} [DecidableEq κ] (φ : Nat → κ) {base size : Word} {config : NxmtRunConfig}
  {W : BitVec 32} (hbase : (nxmtArenaFromRange base size).base ≠ 0)
  (hwords : (nxmtArenaFromRange base size).words ≠ 0)
  (noInject : config.injectMismatch = false)
  (reports : Fin W.toNat → NxmtReport) (stats : Fin W.toNat → NxmtRunStats)
include hbase hwords noInject

/-- A pass of any interleaving fails exactly if some word is verified while its cell
holds another value, as it does when another word of the same `ADDRESS` or `RANDOM`
phase was the last to be stored there. -/
theorem interleaved_aliasing (stops : Fin W.toNat → Nat → Bool)
    (s : SharedCells (Fin W.toNat) κ) (schedule : List (Fin W.toNat)) :
    let arena := nxmtArenaFromRange base size
    let progs := workerPass arena config W reports stats
    let final := Pool.runSchedule (serveAliased φ stops) schedule ⟨progs, s⟩
    let t := Pool.asked (serveAliased φ stops) schedule ⟨progs, s⟩
    final.Finished → ∃ out : Fin W.toNat → PassResult,
      (∀ i, final.progs i = .done (out i)) ∧
      (∀ i, (out i).report = some ((reports i).recordAll (records (Pool.eventsOf i t)))) ∧
      ((∃ i, records (Pool.eventsOf i t) ≠ []) ↔ Clobbered φ config t) ∧
      (combinedStatus out = .fail ↔ Clobbered φ config t) ∧
      ∀ before q after phase w w', phase = .address ∨ phase = .random →
        t = before ++ q :: after → (phase, w) ∈ verified q.2 →
        lastStore φ before w = some (phase, w') → w' ≠ w → combinedStatus out = .fail := by
  intro arena progs final t fin
  have small : arena.words.toNat < 2 ^ 61 := (nxmtArenaFromRange_wellFormed hwords).words_lt
  have ok : ∀ i : Fin W.toNat, Accepts arena (config.forWorker W i) := fun i =>
    fromRange_accepts hbase hwords (forWorker_worker i.isLt)
  let start (i : Fin W.toNat) := sliceStart arena (config.forWorker W i)
  let count (i : Fin W.toNat) := sliceCount arena (config.forWorker W i)
  let configs (i : Fin W.toNat) := config.forWorker W i
  let phases := nxmtPhasesForMode config.mode
  have seed : ∀ i, (configs i).seed = config.seed := fun _ => rfl
  have pass : ∀ i, (configs i).pass = config.pass := fun _ => rfl
  have noInject' : ∀ i, (configs i).injectMismatch = false := fun _ => noInject
  have inside : ∀ i, start i + count i ≤ arena.words.toNat := fun i => slice_le (ok i)
  have room : ∀ i, 8 * (start i + count i) ≤ 2 ^ 64 := fun i => by
    have := inside i
    omega
  have uses : ∀ i, (progs i).Uses (OfWorkers start count configs phases i) := fun i =>
    nxmtRunnerRunPass_uses (ok i) (reports i) (stats i)
  obtain ⟨-, -, calls⟩ := Pool.runSchedule_inv (serveAliased φ stops)
    (OfWorkers start count configs phases) (fun _ => True) (fun _ _ _ _ _ => trivial) schedule
    ⟨progs, s⟩ uses trivial
  choose out ended using fin
  have path : ∀ i, Path (progs i) (Pool.eventsOf i t) (out i) := fun i =>
    Pool.path_of_done (serveAliased φ stops) (ended i)
  have found : ∀ before q after, t = before ++ q :: after → (recorded q.2 ≠ [] ↔
      ∃ w phase last, (phase, w) ∈ verified q.2 ∧ lastStore φ before w = some last ∧
        expectedWord config.seed last.1 config.pass last.2 ≠
          expectedWord config.seed phase config.pass w) := by
    intro before q after split
    have own : ∀ q' ∈ before ++ q :: after, OfWorkers start count configs phases q'.1 q'.2.1 := by
      rw [← split]
      exact calls
    exact recorded_verify φ room (nxmtPhasesForMode_wide config.mode) seed pass noInject' stops
      (fun q' hq' => own q' (List.mem_append_left _ hq')) (own q (by simp))
      (Pool.asked_answer (serveAliased φ stops) split) (verified_stored ok path split)
  have some_iff : (∃ i, records (Pool.eventsOf i t) ≠ []) ↔ Clobbered φ config t :=
    records_iff_clobbered φ found
  have ran : ∀ i, (out i).report = some ((reports i).recordAll (records (Pool.eventsOf i t))) ∧
      ((out i).status = .fail ↔ records (Pool.eventsOf i t) ≠ []) := by
    intro i
    obtain ⟨finished, ran⟩ := path_nxmtRunnerRunPass (reports i) (stats i) (ok i) (path i)
    have honest : ∀ e ∈ Pool.eventsOf i t, (recorded e).length ≤ (verified e).length := by
      intro e he
      obtain ⟨q, hq, rfl⟩ := List.mem_map.1 he
      obtain ⟨before, after, split⟩ := List.append_of_mem (List.mem_filter.1 hq).1
      exact (aliasedEnv φ stops q.1).serve_answer_honest _
        (Pool.asked_answer (serveAliased φ stops) split)
    have few := ran.few honest (sliceCount_lt (ok i) small)
    exact ⟨ran.report_eq, ran.fail_iff few⟩
  have fail_iff : combinedStatus out = .fail ↔ Clobbered φ config t := by
    rw [combinedStatus_fail, ← some_iff]
    exact exists_congr fun i => (ran i).2
  refine ⟨out, ended, fun i => (ran i).1, some_iff, fail_iff, ?_⟩
  intro before q after phase w w' addressed split hw last ne
  refine fail_iff.2 (clobbered_addressed φ (fun q hq s hs => ?_) addressed split hw last ne)
  have low_high := (calls q hq).bounds hs
  have := room q.1
  omega

end

/-! ### Half a page twice -/

/-- Two workers on one page whose highest word address line is broken: word 0 of the
first and word 256 of the second are one cell. -/
def halfPage : NxmtArena := nxmtArenaFromRange 0x1000 0x1000

def halfPageConfig : NxmtRunConfig := ⟨.quick, 1, 0, 0, 1, false, false, false⟩

def halfPageWorkers : Fin 2 → Runner PassResult :=
  workerPass halfPage halfPageConfig 2 (fun _ => zeroReport) fun _ => ⟨0, 0, 0, .fixedA⟩

def halfPageStart : SharedCells (Fin 2) Nat := ⟨fun _ => 0, fun _ => ⟨0, 0, false⟩⟩

abbrev serveHalfPage : Fin 2 → (c : Call) → SharedCells (Fin 2) Nat →
    Call.Answer c × SharedCells (Fin 2) Nat :=
  serveAliased (fun w => w % 256) fun _ _ => false

/-- Side by side, the second worker's addresses go over the first one's before those are
verified. -/
theorem interleaved_aliasing_halfPage :
    ∃ schedule out, (∀ i, (Pool.runSchedule serveHalfPage schedule
        ⟨halfPageWorkers, halfPageStart⟩).progs i = .done (out i)) ∧
      Clobbered (fun w => w % 256) halfPageConfig
        (Pool.asked serveHalfPage schedule ⟨halfPageWorkers, halfPageStart⟩) ∧
      combinedStatus out = .fail := by
  let begun := Pool.asked serveHalfPage [0, 1, 0, 1, 0, 1, 0] ⟨halfPageWorkers, halfPageStart⟩
  let met := Pool.runSchedule serveHalfPage [0, 1, 0, 1, 0, 1, 0] ⟨halfPageWorkers, halfPageStart⟩
  obtain ⟨rest, fin⟩ := Pool.exists_finished serveHalfPage (List.finRange 2) List.mem_finRange met
  have hbase : (nxmtArenaFromRange 0x1000 0x1000).base ≠ 0 := by decide
  have hwords : (nxmtArenaFromRange 0x1000 0x1000).words ≠ 0 := by decide
  obtain ⟨out, done, -, -, fail_iff, clobbers⟩ := interleaved_aliasing (fun w => w % 256) (W := 2)
    hbase hwords (rfl : halfPageConfig.injectMismatch = false) (fun _ => zeroReport)
    (fun _ => ⟨0, 0, 0, .fixedA⟩) (fun _ _ => false) halfPageStart ([0, 1, 0, 1, 0, 1, 0] ++ rest)
    (by rw [Pool.runSchedule_append]; exact fin)
  have seven : 6 < begun.length := by decide +kernel
  have verifies : ∀ q ∈ begun.drop 6, (.address, 0) ∈ verified q.2 := by decide +kernel
  have last : lastStore (fun w => w % 256) (begun.take 6) 0 = some (.address, 256) := by
    decide +kernel
  obtain ⟨q, more, tail⟩ : ∃ q more, begun.drop 6 = q :: more :=
    ⟨_, _, List.drop_eq_getElem_cons seven⟩
  have whole : Pool.asked serveHalfPage ([0, 1, 0, 1, 0, 1, 0] ++ rest)
      ⟨halfPageWorkers, halfPageStart⟩ =
        begun.take 6 ++ q :: (more ++ Pool.asked serveHalfPage rest met) := by
    rw [Pool.asked_append, ← List.cons_append, ← tail, ← List.append_assoc, List.take_append_drop]
  have failed := clobbers _ q _ .address 0 256 (.inl rfl) whole
    (verifies q (tail ▸ List.mem_cons_self)) last (by decide)
  exact ⟨_, out, done, fail_iff.1 failed, failed⟩

/-! ### One after the other -/

theorem passCalls_injective {κ : Type} [DecidableEq κ] (φ : Nat → κ) (stops : Nat → Bool)
    {start count : Nat} {config : NxmtRunConfig} (noInject : config.injectMismatch = false)
    (inj : ∀ w ∈ List.range' start count, ∀ w' ∈ List.range' start count, φ w = φ w' → w = w')
    (phases : List NxmtPhase) (m : κ → Word) :
    (passCalls ⟨aliasing φ, fun _ m => m, stops⟩ start count config phases m).1 = [] := by
  induction phases generalizing m with
  | nil => rfl
  | cons phase phases ih =>
    simp only [passCalls, ih, List.append_nil]
    refine wrongWords_eq_nil.2 fun w hw => ?_
    obtain ⟨w', hw', same, value⟩ := storeWords_aliasing φ
      (expectedWord config.seed phase config.pass) m (List.range' start count) w hw
    simp only [phaseMemory, noInject, Bool.false_eq_true, false_and, if_false, ite_self]
    cases inj w' hw' w hw same
    exact value

theorem halfPageWorkers_alone (i : Fin 2) (s : SharedCells (Fin 2) Nat) :
    ((halfPageWorkers i).exec (serveHalfPage i) s).1.status = .pass ∧
      ((halfPageWorkers i).exec (serveHalfPage i) s).1.report = some zeroReport := by
  have ok : ∀ i : Fin 2, Accepts halfPage (halfPageConfig.forWorker 2 i) := fun i =>
    fromRange_accepts (by decide) (by decide) (forWorker_worker i.isLt)
  have slices : ∀ i : Fin 2, sliceStart halfPage (halfPageConfig.forWorker 2 i) = 256 * i.val ∧
      sliceCount halfPage (halfPageConfig.forWorker 2 i) = 256 := by decide
  let start := sliceStart halfPage (halfPageConfig.forWorker 2 i)
  let count := sliceCount halfPage (halfPageConfig.forWorker 2 i)
  let env := aliasedEnv (fun w => w % 256) (fun (_ : Fin 2) _ => false) i
  have inj : ∀ w ∈ List.range' start count, ∀ w' ∈ List.range' start count,
      w % 256 = w' % 256 → w = w' := by
    simp only [start, count, (slices i).1, (slices i).2]
    intro w hw w' hw' same
    have := List.mem_range'_1.1 hw
    have := List.mem_range'_1.1 hw'
    omega
  have clean : ∀ m, (passCalls env start count (halfPageConfig.forWorker 2 i)
      (nxmtPhasesForMode .quick) m).1 = [] :=
    passCalls_injective (fun w => w % 256) (fun _ => false) rfl inj _
  have stable : ∀ m, env.device.Stable m := aliasing_stable fun w => w % 256
  have go : env.Uninterrupted (halfPageConfig.forWorker 2 i) := fun _ _ => rfl
  obtain ⟨-, -, report, status, -⟩ := nxmtRunnerRunPass_uninterrupted stable go (ok i) (by decide)
    zeroReport ⟨0, 0, 0, .fixedA⟩ ⟨s.memory, s.seat i⟩
  rw [exec_serveAliased]
  exact ⟨status.trans (if_pos (clean _)),
    report.trans (congrArg (fun l => some (zeroReport.recordAll l)) (clean s.memory))⟩

/-- Let the first worker end before the second begins and both pass. -/
theorem interleaved_aliasing_missed :
    (sliceStart halfPage (halfPageConfig.forWorker 2 0) = 0 ∧
      sliceStart halfPage (halfPageConfig.forWorker 2 1) = 256 ∧ 0 % 256 = 256 % 256) ∧
    ∃ schedule out, (∀ i, (Pool.runSchedule serveHalfPage schedule
        ⟨halfPageWorkers, halfPageStart⟩).progs i = .done (out i)) ∧
      (∀ i, (out i).report = some zeroReport) ∧ combinedStatus out = .pass := by
  refine ⟨by decide, ?_⟩
  obtain ⟨first, ended⟩ := Pool.exists_turns serveHalfPage 0 (halfPageWorkers 0)
    ⟨halfPageWorkers, halfPageStart⟩ rfl
  obtain ⟨second, ended'⟩ := Pool.exists_turns serveHalfPage 1 (halfPageWorkers 1)
    (Pool.runSchedule serveHalfPage first ⟨halfPageWorkers, halfPageStart⟩) (by
      rw [ended]
      rfl)
  obtain ⟨status₀, report₀⟩ := halfPageWorkers_alone 0 halfPageStart
  obtain ⟨status₁, report₁⟩ := halfPageWorkers_alone 1
    (Pool.runSchedule serveHalfPage first ⟨halfPageWorkers, halfPageStart⟩).state
  let out (i : Fin 2) : PassResult :=
    if i = 0 then ((halfPageWorkers 0).exec (serveHalfPage 0) halfPageStart).1
    else ((halfPageWorkers 1).exec (serveHalfPage 1)
      (Pool.runSchedule serveHalfPage first ⟨halfPageWorkers, halfPageStart⟩).state).1
  refine ⟨first ++ second, out, Fin.forall_fin_two.2 ⟨?_, ?_⟩,
    Fin.forall_fin_two.2 ⟨report₀, report₁⟩, ?_⟩
  · rw [Pool.runSchedule_append, ended', ended]
    rfl
  · rw [Pool.runSchedule_append, ended']
    rfl
  · have first_pass : (out 0).status = .pass := status₀
    have second_pass : (out 1).status = .pass := status₁
    simp [combinedStatus, List.finRange_succ, first_pass, second_pass, combineWorkerStatus]

end NxMemTest
