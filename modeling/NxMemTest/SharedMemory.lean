import NxMemTest.PartitionRun
import NxMemTest.Interaction.Pool

/-! The workers of a pass side by side at one working memory. Each keeps to its
own slice, so however their calls interleave they cannot be told from workers
that run one after another. -/

namespace NxMemTest
open Interaction Program

def faultFree (stops : Nat → Bool) : Env Ram := ⟨ram, fun _ m => m, stops⟩

/-! ### What one call stores -/

def storeLog : Device (List Nat) where
  load l _ := (0, l)
  store l p _ := l ++ [p]
  storeByte l q _ := l ++ [q / 8]

def Call.stores : Call → List Nat
  | .writeChunk p n s phase seed pass =>
    nxmtWriteChunk storeLog p n (BitVec.ofNat 64 s) phase seed pass []
  | .store p _ => [p]
  | .stopRequested | .verifyChunk .. | .load _ | .progressAdd _ => []

theorem storeWords_storeLog (ws : List Nat) (f : Nat → Word) (l : List Nat) :
    storeWords storeLog ws f l = l ++ ws := by
  induction ws generalizing l with
  | nil => exact (List.append_nil l).symm
  | cons w ws ih =>
    have step : storeWords storeLog (w :: ws) f l = storeWords storeLog ws f (l ++ [w]) := rfl
    rw [step, ih, List.append_assoc, List.singleton_append]

section
variable {start count : Nat} {c : Call}

theorem stores_writeChunk {p n : Nat} (room : 8 * (p + n) ≤ 2 ^ 64) {phase : NxmtPhase}
    (wide : phase ≠ .narrow) (seed pass : Word) :
    (Call.writeChunk p n p phase seed pass).stores = List.range' p n := by
  rw [Call.stores, nxmtWriteChunk_eq _ _ _ _ room phase wide, storeWords_storeLog,
    List.nil_append]

theorem stores_within (room : 8 * (start + count) ≤ 2 ^ 64) (hc : c.Within start count) :
    ∀ w ∈ c.stores, start ≤ w ∧ w < start + count := by
  cases c with
  | writeChunk p n s phase seed pass =>
    obtain ⟨rfl, low, high, wide⟩ := hc
    intro w hw
    rw [stores_writeChunk (by omega) wide, List.mem_range'_1] at hw
    omega
  | store p value =>
    intro w hw
    rw [List.mem_singleton.1 hw]
    exact hc
  | stopRequested | verifyChunk | load | progressAdd =>
    intro w hw
    exact absurd hw List.not_mem_nil

theorem writeChunk_memory {p n : Nat} (room : 8 * (p + n) ≤ 2 ^ 64) {phase : NxmtPhase}
    (wide : phase ≠ .narrow) (seed pass : Word) (m : Ram) (w : Nat) :
    nxmtWriteChunk ram p n (BitVec.ofNat 64 p) phase seed pass m w =
      if w ∈ List.range' p n then expectedWord seed phase pass w else m w := by
  have written := view_storeWords ram ram_readsBack (List.range' p n)
    (fun w => expectedWord seed phase pass (p + (w - p))) m w
  rw [← nxmtWriteChunk_eq ram p n p room phase wide, ram_view, ram_view] at written
  rw [written]
  split
  · rename_i hw
    rw [Nat.add_sub_cancel' (List.mem_range'_1.1 hw).1]
  · rfl

theorem serve_frame (room : 8 * (start + count) ≤ 2 ^ 64) (hc : c.Within start count)
    (stops : Nat → Bool) (b : Board Ram) {w : Nat} (hw : w ∉ c.stores) :
    ((faultFree stops).serve c b).2.memory w = b.memory w := by
  cases c with
  | writeChunk p n s phase seed pass =>
    obtain ⟨rfl, low, high, wide⟩ := hc
    rw [stores_writeChunk (by omega) wide] at hw
    exact (writeChunk_memory (by omega) wide seed pass b.memory w).trans (if_neg hw)
  | verifyChunk p n s phase config =>
    obtain ⟨rfl, low, high, wide⟩ := hc
    have stay := nxmtVerifyChunk_stable ram (ram_stable b.memory) s n s (by omega) phase config
    simp only [Env.serve, faultFree, ite_self, stay]
  | store p value =>
    have other : w ≠ p := fun same => hw (List.mem_singleton.2 same)
    exact Function.update_of_ne other _ _
  | stopRequested | load | progressAdd => rfl

theorem serve_local (room : 8 * (start + count) ≤ 2 ^ 64) (hc : c.Within start count)
    (stops : Nat → Bool) {b b' : Board Ram} (seat : b.seat = b'.seat)
    (slice : ∀ w, start ≤ w → w < start + count → b.memory w = b'.memory w) :
    ((faultFree stops).serve c b).1 = ((faultFree stops).serve c b').1 ∧
      ((faultFree stops).serve c b).2.seat = ((faultFree stops).serve c b').2.seat ∧
      ∀ w, start ≤ w → w < start + count →
        ((faultFree stops).serve c b).2.memory w = ((faultFree stops).serve c b').2.memory w := by
  obtain ⟨m, q⟩ := b
  obtain ⟨m', q'⟩ := b'
  dsimp only at seat slice
  subst seat
  cases c with
  | stopRequested | progressAdd => exact ⟨rfl, rfl, slice⟩
  | writeChunk p n s phase seed pass =>
    obtain ⟨rfl, low, high, wide⟩ := hc
    refine ⟨rfl, rfl, fun w hw hw' => ?_⟩
    simp only [Env.serve, faultFree]
    rw [writeChunk_memory (by omega) wide, writeChunk_memory (by omega) wide, slice w hw hw']
  | verifyChunk p n s phase config =>
    obtain ⟨rfl, low, high, wide⟩ := hc
    have stay := fun m => nxmtVerifyChunk_stable ram (ram_stable m) s n s (by omega) phase config
    simp only [Env.serve, faultFree, ite_self, stay]
    refine ⟨wrongWords_congr fun w hw => ?_, trivial, slice⟩
    obtain ⟨hw, hw'⟩ := List.mem_range'_1.1 hw
    rw [Nat.add_sub_cancel' hw]
    exact slice w (by omega) (by omega)
  | load p => exact ⟨slice p hc.1 hc.2, rfl, slice⟩
  | store p value =>
    refine ⟨rfl, rfl, fun w hw hw' => ?_⟩
    simp only [Env.serve, faultFree, ram_store]
    by_cases here : w = p
    · rw [here, Function.update_self, Function.update_self]
    · rw [Function.update_of_ne here, Function.update_of_ne here, slice w hw hw']

end

/-! ### Workers at one memory -/

structure Shared (ι : Type) where
  memory : Ram
  seat : ι → Seat

section
variable {ι : Type} [DecidableEq ι]

def Shared.board (s : Shared ι) (i : ι) : Board Ram := ⟨s.memory, s.seat i⟩

def Shared.put (s : Shared ι) (i : ι) (b : Board Ram) : Shared ι :=
  ⟨b.memory, Function.update s.seat i b.seat⟩

def serveShared (stops : ι → Nat → Bool) (i : ι) (c : Call) (s : Shared ι) :
    Call.Answer c × Shared ι :=
  let out := (faultFree (stops i)).serve c (s.board i)
  (out.1, s.put i out.2)

theorem exec_serveShared {α : Type} (stops : ι → Nat → Bool) (i : ι) (p : Runner α)
    (s : Shared ι) :
    (p.exec (serveShared stops i) s).1 = (p.exec (faultFree (stops i)).serve (s.board i)).1 := by
  induction p generalizing s with
  | done a => rfl
  | ask c next ih =>
    have board : ∀ b, (s.put i b).board i = b := fun b => by simp [Shared.put, Shared.board]
    simp only [exec, serveShared]
    rw [ih, board]

def Shared.Same {W : Nat} (n : Nat) (i : Fin W) (s s' : Shared (Fin W)) : Prop :=
  s.seat i = s'.seat i ∧ ∀ w, Partition.start n W i ≤ w →
    w < Partition.start n W i + Partition.size n W i → s.memory w = s'.memory w

def Call.Permitted {W : Nat} (n : Nat) (i : Fin W) (c : Call) : Prop :=
  c.Within (Partition.start n W i) (Partition.size n W i)

end

section
variable {n W : Nat} (small : n < 2 ^ 61)

theorem same_refl (i : Fin W) (s : Shared (Fin W)) : s.Same n i s := ⟨rfl, fun _ _ _ => rfl⟩

theorem same_trans (i : Fin W) (s t u : Shared (Fin W)) (h : s.Same n i t) (h' : t.Same n i u) :
    s.Same n i u :=
  ⟨h.1.trans h'.1, fun w low high => (h.2 w low high).trans (h'.2 w low high)⟩

include small

theorem block_room (i : Fin W) :
    8 * (Partition.start n W i + Partition.size n W i) ≤ 2 ^ 64 := by
  have inside : Partition.start n W i + Partition.size n W i ≤ n := Partition.end_le i.isLt
  omega

theorem serveShared_owned (stops : Fin W → Nat → Bool) (i : Fin W) (c : Call)
    (s s' : Shared (Fin W)) (hc : c.Permitted n i) (same : s.Same n i s') :
    (serveShared stops i c s).1 = (serveShared stops i c s').1 ∧
      (serveShared stops i c s).2.Same n i (serveShared stops i c s').2 := by
  have seats : (s.board i).seat = (s'.board i).seat := same.1
  obtain ⟨answer, seat, slice⟩ := serve_local (block_room small i) hc (stops i) seats same.2
  refine ⟨answer, ?_, slice⟩
  simpa [serveShared, Shared.put] using seat

theorem serveShared_frame (stops : Fin W → Nat → Bool) (i j : Fin W) (c : Call)
    (s : Shared (Fin W)) (ne : i ≠ j) (hc : c.Permitted n j) :
    s.Same n i (serveShared stops j c s).2 := by
  refine ⟨?_, fun w low high => ?_⟩
  · simp [serveShared, Shared.put, Function.update_of_ne ne]
  · have other : w ∉ c.stores := fun hw => by
      obtain ⟨low', high'⟩ := stores_within (block_room small j) hc w hw
      exact ne (Fin.ext (Partition.block_unique low high low' high'))
    exact (serve_frame (block_room small j) hc (stops j) (s.board j) other).symm

theorem serveShared_outside (stops : Fin W → Nat → Bool) (m : Ram) (i : Fin W) (c : Call)
    (s : Shared (Fin W)) (hc : c.Permitted n i) (hs : ∀ w, n ≤ w → s.memory w = m w) :
    ∀ w, n ≤ w → (serveShared stops i c s).2.memory w = m w := by
  intro w hw
  have other : w ∉ c.stores := fun stored => by
    have inside : Partition.start n W i + Partition.size n W i ≤ n := Partition.end_le i.isLt
    have := stores_within (block_room small i) hc w stored
    omega
  exact (serve_frame (block_room small i) hc (stops i) (s.board i) other).trans (hs w hw)

end

def workerPass (arena : NxmtArena) (config : NxmtRunConfig) (W : BitVec 32)
    (reports : Fin W.toNat → NxmtReport) (stats : Fin W.toNat → NxmtRunStats) (i : Fin W.toNat) :
    Runner PassResult :=
  nxmtRunnerRunPass (some arena) (some (config.forWorker W i)) (some (reports i)) (some (stats i))

section
variable {base size : Word} {config : NxmtRunConfig} {W : BitVec 32}
  (hbase : (nxmtArenaFromRange base size).base ≠ 0)
  (hwords : (nxmtArenaFromRange base size).words ≠ 0)
  (reports : Fin W.toNat → NxmtReport) (stats : Fin W.toNat → NxmtRunStats)
include hbase hwords

theorem workerPass_permitted (i : Fin W.toNat) :
    (workerPass (nxmtArenaFromRange base size) config W reports stats i).Uses
      (Call.Permitted (nxmtArenaFromRange base size).words.toNat i) := by
  have ok : Accepts (nxmtArenaFromRange base size) (config.forWorker W i) :=
    fromRange_accepts hbase hwords (forWorker_worker i.isLt)
  have within := nxmtRunnerRunPass_within ok (reports i) (stats i)
  obtain ⟨start, count⟩ := forWorker_slice (nxmtArenaFromRange base size) config i.isLt
  rw [start, count] at within
  exact within

theorem workerPass_pass (noInject : config.injectMismatch = false) (stops : Nat → Bool)
    (go : config.stopRequested = true → ∀ k, stops k = false) (i : Fin W.toNat) (b : Board Ram) :
    ((workerPass (nxmtArenaFromRange base size) config W reports stats i).exec
      (faultFree stops).serve b).1.status = .pass := by
  have ok : Accepts (nxmtArenaFromRange base size) (config.forWorker W i) :=
    fromRange_accepts hbase hwords (forWorker_worker i.isLt)
  have still : ∀ m, (faultFree stops).device.Stable m := ram_stable
  have go' : (faultFree stops).Uninterrupted (config.forWorker W i) := go
  obtain ⟨-, -, -, status, -⟩ := nxmtRunnerRunPass_uninterrupted still go' ok
    (nxmtArenaFromRange_wellFormed hwords).words_lt (reports i) (stats i) b
  have noInject' : (config.forWorker W i).injectMismatch = false := noInject
  have clean := passCalls_readsBack ram_readsBack stops noInject'
    (sliceStart (nxmtArenaFromRange base size) (config.forWorker W i))
    (sliceCount (nxmtArenaFromRange base size) (config.forWorker W i))
    (nxmtPhasesForMode (config.forWorker W i).mode) b.memory
  refine status.trans (if_pos (clean.trans ?_))
  rw [List.eq_nil_iff_forall_not_mem]
  intro c hc
  obtain ⟨phase, -, w, -, wrong, -⟩ := mem_faultCalls.1 hc
  exact wrong rfl

variable (config) in
/-- Any interleaving of the workers of a pass keeps each of them inside its own
slice and the arena, and once all have finished, reports, statuses, stats and
memory are those of running the workers one after another. -/
theorem workers_isolated (some : W ≠ 0) (stops : Fin W.toNat → Nat → Bool)
    (s : Shared (Fin W.toNat)) (schedule order : List (Fin W.toNat)) (nodup : order.Nodup)
    (all : ∀ i, i ∈ order) :
    let arena := nxmtArenaFromRange base size
    let progs := workerPass arena config W reports stats
    let final := Pool.runSchedule (serveShared stops) schedule ⟨progs, s⟩
    (∀ q ∈ Pool.asked (serveShared stops) schedule ⟨progs, s⟩, ∀ w ∈ q.2.1.stores,
      sliceStart arena (config.forWorker W q.1) ≤ w ∧
      w < sliceStart arena (config.forWorker W q.1) + sliceCount arena (config.forWorker W q.1) ∧
      arena.base.toNat + 8 * w + 8 ≤ arena.base.toNat + arena.size.toNat) ∧
    (final.Finished → ∃ out : Fin W.toNat → PassResult,
      (∀ i, final.progs i = .done (out i)) ∧
      Pool.runSerial (serveShared stops) progs order s =
        (order.map fun i => (i, out i), final.state) ∧
      (config.injectMismatch = false →
        (config.stopRequested = true → ∀ i k, stops i k = false) → ∀ i, (out i).status = .pass)) := by
  intro arena progs final
  let n := arena.words.toNat
  have wf := nxmtArenaFromRange_wellFormed hwords
  have small : n < 2 ^ 61 := wf.words_lt
  have pos : 0 < W.toNat := by
    rw [Nat.pos_iff_ne_zero]
    exact fun zero => some (BitVec.eq_of_toNat_eq zero)
  have uses : ∀ i, (progs i).Uses (Call.Permitted n i) :=
    workerPass_permitted hbase hwords reports stats
  have owned := serveShared_owned small stops
  have frame := serveShared_frame small stops
  -- past the arena the memory stays what it was
  let kept : Shared (Fin W.toNat) → Prop := fun t => ∀ w, n ≤ w → t.memory w = s.memory w
  have keep : ∀ i c t, Call.Permitted n i c → kept t → kept (serveShared stops i c t).2 :=
    fun i c t hc ht => serveShared_outside small stops s.memory i c t hc ht
  obtain ⟨-, outside, asked⟩ := Pool.runSchedule_inv (serveShared stops) (Call.Permitted n) kept keep
    schedule ⟨progs, s⟩ uses (fun _ _ => rfl)
  refine ⟨fun q hq w hw => ?_, fun fin => ?_⟩
  · obtain ⟨low, high⟩ := stores_within (block_room small q.1) (asked q hq) w hw
    obtain ⟨start, count⟩ := forWorker_slice arena config q.1.isLt
    have inside : Partition.start n W.toNat q.1 + Partition.size n W.toNat q.1 ≤ n :=
      Partition.end_le q.1.isLt
    have words : n * 8 = arena.size.toNat := wf.words_size
    rw [start, count]
    exact ⟨low, high, by omega⟩
  · have solo := Pool.finished_solo (serveShared stops) (Call.Permitted n) (Shared.Same n)
      same_refl same_trans owned frame schedule ⟨progs, s⟩ uses fin
    obtain ⟨results, regions⟩ := Pool.runSerial_solo (serveShared stops) (Call.Permitted n)
      (Shared.Same n) same_refl same_trans owned frame progs uses order s nodup
    have outside' := Pool.runSerial_inv (serveShared stops) (Call.Permitted n) kept keep progs uses
      order s (fun _ _ => rfl)
    refine ⟨fun i => ((progs i).exec (serveShared stops i) s).1, fun i => (solo i).1, ?_, ?_⟩
    · refine Prod.ext results ?_
      have seat : (Pool.runSerial (serveShared stops) progs order s).2.seat = final.state.seat :=
        funext fun i => ((regions i).2 (all i)).1.symm.trans (solo i).2.1
      have memory : (Pool.runSerial (serveShared stops) progs order s).2.memory =
          final.state.memory := by
        funext w
        by_cases hw : w < n
        · obtain ⟨i, hi, low, high⟩ := Partition.exists_block_of_lt pos hw
          exact (((regions ⟨i, hi⟩).2 (all _)).2 w low high).symm.trans ((solo ⟨i, hi⟩).2.2 w low high)
        · rw [outside' w (Nat.le_of_not_lt hw), outside w (Nat.le_of_not_lt hw)]
      exact congrArg₂ Shared.mk memory seat
    · intro noInject go i
      dsimp only
      rw [exec_serveShared]
      exact workerPass_pass hbase hwords reports stats noInject (stops i) (fun flag => go flag i) i _

end

/-- Three workers on one page: some interleaving brings them all to their ends. -/
theorem workers_isolated_page :
    let config : NxmtRunConfig := ⟨.quick, 1, 0, 0, 1, false, false, false⟩
    let progs := workerPass (nxmtArenaFromRange 0x1000 0x1000) config 3 (fun _ => zeroReport)
      fun _ => ⟨0, 0, 0, .fixedA⟩
    let s : Shared (Fin 3) := ⟨fun _ => 0, fun _ => ⟨0, 0, false⟩⟩
    ∃ schedule, (Pool.runSchedule (serveShared fun _ _ => false) schedule ⟨progs, s⟩).Finished ∧
      ∀ i, ∃ out : PassResult, (Pool.runSchedule (serveShared fun _ _ => false) schedule
        ⟨progs, s⟩).progs i = .done out ∧ out.status = .pass := by
  intro config progs s
  obtain ⟨schedule, fin⟩ := Pool.exists_finished (serveShared fun _ _ => false)
    (List.finRange 3) List.mem_finRange ⟨progs, s⟩
  have hbase : (nxmtArenaFromRange 0x1000 0x1000).base ≠ 0 := by decide
  have hwords : (nxmtArenaFromRange 0x1000 0x1000).words ≠ 0 := by decide
  have isolated := workers_isolated config hbase hwords (fun _ => zeroReport)
    (fun _ => ⟨0, 0, 0, .fixedA⟩)
    (by decide : (3 : BitVec 32) ≠ 0) (fun _ _ => false) s schedule (List.finRange 3)
    (List.nodup_finRange 3) List.mem_finRange
  obtain ⟨out, ends, -, pass⟩ := isolated.2 fin
  exact ⟨schedule, fin, fun i => ⟨out i, ends i, pass rfl (fun _ _ _ => rfl) i⟩⟩

end NxMemTest
