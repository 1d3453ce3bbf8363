import NxMemTest.GpuPumpSetup

/-! The loop of the pump thread, and the thread from its entry to its end: what it submits
and what it tells, whatever is answered. -/

namespace NxMemTest
open Interaction Protocol

variable {k : PumpBlocks} {size : Nat} {bytes : Word} {t : Told}

/-! ### A batch -/

def PumpGlobals.batch (g : PumpGlobals) : List DkCmdList :=
  List.replicate pumpBatch g.copyList ++ [g.verifyList]

def PumpParams.tell (p : PumpParams) (perIterTraffic : Word) (t : Told) (word : BitVec 32) : Told :=
  let t := if p.progress then
      { t with progress := t.progress + perIterTraffic * BitVec.ofNat 64 pumpBatch }
    else t
  let t := if p.verified then { t with verified := t.verified + 1 } else t
  if p.errors then if word ≠ 0 then { t with errors := t.errors + 1 } else t else t

def PumpGlobals.pumping (k : PumpBlocks) (size : Nat) (bytes : Word) (g : PumpGlobals)
    (submitted : List DkCmdList) (words : List (BitVec 32)) (t : Told) : Ledger :=
  { g.ready k size bytes t with submitted := submitted, words := words }

section
variable {g : PumpGlobals} (complete : g.Complete k) {base : Word} (fit : k.Fit base bytes)
  {submitted : List DkCmdList} {words : List (BitVec 32)}
include complete

theorem PumpGlobals.has_queue :
    (g.pumping k size bytes submitted words t).Has g.queue (·.kind = .queue) :=
  .of_mem (mem_queue complete.queue) rfl

include fit

theorem PumpGlobals.maps_result :
    (g.pumping k size bytes submitted words t).Maps g.resultWord 4 :=
  .of_block (mem_resultMem complete.resultMem) complete.resultWord.symm
    (by rw [fit.result_size]; decide)

theorem PumpGlobals.runnable {list : DkCmdList} (mem : list = g.copyList ∨ list = g.verifyList) :
    (g.pumping k size bytes submitted words t).Runnable list := by
  let l := g.pumping k size bytes submitted words t
  have buf : l.Has g.cmdbuf (·.kind = .cmdBuf) := .of_mem (mem_cmdbuf complete.cmdbuf) rfl
  obtain ⟨src, dst, result⟩ := fit.holds (l := l) rfl complete.src complete.dst complete.resultMem
  have shader : l.ShaderReady := ⟨_, rfl, .of_mem (mem_shaderMem complete.shaderMem) rfl,
    _, List.mem_singleton_self _, rfl, Nat.zero_le _⟩
  rcases mem with rfl | rfl
  · refine ⟨_, List.mem_cons_of_mem _ (List.mem_singleton_self _), rfl, buf, ?_, rfl⟩
    exact List.forall_mem_singleton.2 ⟨src, dst⟩
  · refine ⟨_, List.mem_cons_self, rfl, buf, ?_, ?_⟩
    · simp only [PumpGlobals.verifies, List.forall_mem_cons, List.not_mem_nil, false_imp_iff,
        implies_true, and_true]
      exact ⟨shader, src, dst, result, trivial⟩
    · have groups := (pumpVerifyList_exact fit.small fit.pages).2
      have page : (pumpResultBytes.setWidth 32).toNat = 4096 := by decide
      simp only [PumpGlobals.verifies, bindsFirst, toNat_cut fit.small, page, Function.update_apply]
      simp
      omega

end

theorem Ledger.admits_submitCopies {l : Ledger} {queue : DkHandle} {list : DkCmdList}
    (running : l.quit = false) (has : l.Has queue (·.kind = .queue)) (runnable : l.Runnable list)
    (n : Nat) :
    dkProtocol.Admits l (submitCopies queue list n) fun _ l' => ∃ busy,
      l' = { l with busy := busy, submitted := l.submitted ++ List.replicate n list } := by
  induction n generalizing l with
  | zero => exact .of_pure ⟨l.busy, by rw [List.replicate_zero, List.append_nil]⟩
  | succ n ih =>
    refine .call_bind (decide_eq_true ⟨running, has, runnable⟩) fun _ => ?_
    refine (ih (l := { l with busy := true, submitted := l.submitted ++ [list] }) running has
      runnable).post ?_
    rintro _ _ ⟨busy, rfl⟩
    exact ⟨busy, by rw [List.append_assoc]; rfl⟩

section
variable {g : PumpGlobals} (complete : g.Complete k) {base : Word} (fit : k.Fit base bytes)
  (p : PumpParams) (perIterTraffic : Word)
include complete fit

theorem admits_pumpCycle (submitted : List DkCmdList) (words : List (BitVec 32)) (t : Told) :
    dkProtocol.Admits (g.pumping k size bytes submitted words t) (pumpCycle p perIterTraffic g)
      fun _ l => ∃ word, l = g.pumping k size bytes (submitted ++ g.batch)
        (words ++ if p.errors then [word] else []) (p.tell perIterTraffic t word) := by
  have queue : (g.pumping k size bytes submitted words t).Has g.queue (·.kind = .queue) :=
    PumpGlobals.has_queue complete
  unfold pumpCycle
  refine .call_bind (decide_eq_true ⟨rfl, PumpGlobals.maps_result complete fit⟩) fun _ => ?_
  refine .bind (Ledger.admits_submitCopies rfl queue
    (PumpGlobals.runnable complete fit (.inl rfl)) pumpBatch) ?_
  rintro _ _ ⟨busy, rfl⟩
  have verifies : (g.pumping k size bytes submitted words t).Runnable g.verifyList :=
    PumpGlobals.runnable complete fit (.inr rfl)
  refine .call_bind (decide_eq_true ⟨rfl, queue, verifies⟩) fun _ => ?_
  refine .call_bind (decide_eq_true queue) fun _ => ?_
  change dkProtocol.Admits (g.pumping k size bytes
    (submitted ++ List.replicate pumpBatch g.copyList ++ [g.verifyList]) words t) _ _
  rw [List.append_assoc]
  let after := fun t => g.pumping k size bytes (submitted ++ g.batch) words t
  have progress : dkProtocol.Admits (after t) (if p.progress then
        Program.call (DkCall.progressAdd (perIterTraffic * BitVec.ofNat 64 pumpBatch))
      else pure ()) fun _ l => l = after (if p.progress then
        { t with progress := t.progress + perIterTraffic * BitVec.ofNat 64 pumpBatch } else t) := by
    cases p.progress with
    | true => exact .of_call rfl fun _ => rfl
    | false => exact .of_pure rfl
  have verified : ∀ t, dkProtocol.Admits (after t)
      (if p.verified then Program.call DkCall.verifiedAdd else pure ()) fun _ l => l =
        after (if p.verified then { t with verified := t.verified + 1 } else t) := by
    intro t
    cases p.verified with
    | true => exact .of_call rfl fun _ => rfl
    | false => exact .of_pure rfl
  refine progress.bind ?_
  rintro _ _ rfl
  refine (verified _).bind ?_
  rintro _ _ rfl
  cases errors : p.errors with
  | false =>
    refine .of_pure ⟨0, ?_⟩
    rw [if_neg Bool.false_ne_true, List.append_nil, PumpParams.tell, errors]
    rfl
  | true =>
    refine .call_bind (decide_eq_true ⟨rfl, PumpGlobals.maps_result complete fit⟩) fun word => ?_
    refine .ite (fun wrong => .of_call rfl fun _ => ⟨word, ?_⟩) fun right => .of_pure ⟨word, ?_⟩
    · simp only [PumpParams.tell, errors, if_pos wrong]
      rfl
    · simp only [PumpParams.tell, errors, if_neg right]
      rfl

theorem admits_pumpLoop (fuel : Nat) (submitted : List DkCmdList) (words : List (BitVec 32))
    (t : Told) :
    dkProtocol.Admits (g.pumping k size bytes submitted words t) (pumpLoop p perIterTraffic g fuel)
      fun ended l => ∃ outs : List (BitVec 32), (ended = false → outs.length = fuel) ∧
        l = { g.pumping k size bytes
            (submitted ++ (List.replicate outs.length g.batch).flatten)
            (words ++ if p.errors then outs else []) (outs.foldl (p.tell perIterTraffic) t) with
          quit := ended } := by
  have stopped (submitted : List DkCmdList) (words : List (BitVec 32)) (t : Told) (quit : Bool) :
      { g.pumping k size bytes submitted words t with quit := quit } =
        { g.pumping k size bytes
            (submitted ++ (List.replicate ([] : List (BitVec 32)).length g.batch).flatten)
            (words ++ if p.errors then [] else []) (([] : List (BitVec 32)).foldl
              (p.tell perIterTraffic) t) with quit := quit } := by
    simp
  induction fuel generalizing submitted words t with
  | zero => exact .of_pure ⟨[], fun _ => rfl, stopped submitted words t false⟩
  | succ fuel ih =>
    unfold pumpLoop
    refine .call_bind rfl fun stop => ?_
    cases stop with
    | true => exact .of_pure ⟨[], nofun, stopped submitted words t true⟩
    | false =>
      refine .call_bind rfl fun seen => ?_
      cases seen with
      | true => exact .of_pure ⟨[], nofun, stopped submitted words t true⟩
      | false =>
        refine (admits_pumpCycle complete fit p perIterTraffic submitted words t).bind ?_
        rintro _ _ ⟨word, rfl⟩
        refine (ih _ _ _).post ?_
        rintro ended _ ⟨outs, length, rfl⟩
        refine ⟨word :: outs, fun going => congrArg (· + 1) (length going), ?_⟩
        cases p.errors <;> simp [List.replicate_succ, List.append_assoc]

end

end NxMemTest
