import NxMemTest.ChunkSpec

/-! What one chunk verify amounts to, on a device that may answer each load
differently: the readings of the fast stage decide whether the words are walked,
the readings of the walk decide what is recorded. -/

namespace NxMemTest

namespace Device
variable {σ : Type} (d : Device σ)

def after (p : Nat) (m : σ) : Nat → σ
  | 0 => m
  | k + 1 => (d.load (after p m k) (p + k)).2

def reading (p : Nat) (m : σ) (k : Nat) : Word := d.view (d.after p m k) (p + k)

theorem load_after (p : Nat) (m : σ) (k : Nat) :
    d.load (d.after p m k) (p + k) = (d.reading p m k, d.after p m (k + 1)) := rfl

theorem after_add (p : Nat) (m : σ) (j k : Nat) :
    d.after p m (j + k) = d.after (p + j) (d.after p m j) k := by
  induction k with
  | zero => rfl
  | succ k ih => rw [← Nat.add_assoc, after, ih, after, Nat.add_assoc]

theorem reading_add (p : Nat) (m : σ) (j k : Nat) :
    d.reading p m (j + k) = d.reading (p + j) (d.after p m j) k := by
  rw [reading, after_add, ← Nat.add_assoc, reading]

variable {d}

theorem Stable.after {m : σ} (h : d.Stable m) (p k : Nat) : d.after p m k = m := by
  induction k with
  | zero => rfl
  | succ k ih => rw [Device.after, ih, h]

theorem Stable.reading {m : σ} (h : d.Stable m) (p k : Nat) :
    d.reading p m k = d.view m (p + k) := by rw [Device.reading, h.after]

end Device

def errorCall (config : NxmtRunConfig) (phase : NxmtPhase) (w : Nat) (actual : Word) : RecordCall :=
  ⟨config.mode, phase, config.seed, config.pass, config.workerId, BitVec.ofNat 64 (8 * w),
    expectedWord config.seed phase config.pass w, actual⟩

def wrongWords (config : NxmtRunConfig) (phase : NxmtPhase) (ws : List Nat)
    (contents : Nat → Word) : List RecordCall :=
  (ws.filter fun w => contents w ≠ expectedWord config.seed phase config.pass w).map
    fun w => errorCall config phase w (contents w)

theorem wrongWords_append (config : NxmtRunConfig) (phase : NxmtPhase) (ws ws' : List Nat)
    (contents : Nat → Word) :
    wrongWords config phase (ws ++ ws') contents =
      wrongWords config phase ws contents ++ wrongWords config phase ws' contents := by
  simp [wrongWords]

theorem wrongWords_congr {config : NxmtRunConfig} {phase : NxmtPhase} {ws : List Nat}
    {f g : Nat → Word} (h : ∀ w ∈ ws, f w = g w) :
    wrongWords config phase ws f = wrongWords config phase ws g := by
  induction ws with
  | nil => rfl
  | cons w ws ih =>
    have rest := ih fun w hw => h w (List.mem_cons_of_mem _ hw)
    simp only [wrongWords] at rest
    simp only [wrongWords, List.filter_cons, h w List.mem_cons_self]
    split
    · rw [List.map_cons, List.map_cons, rest, h w List.mem_cons_self]
    · exact rest

theorem wrongWords_eq_nil {config : NxmtRunConfig} {phase : NxmtPhase} {ws : List Nat}
    {contents : Nat → Word} :
    wrongWords config phase ws contents = [] ↔
      ∀ w ∈ ws, contents w = expectedWord config.seed phase config.pass w := by
  simp [wrongWords, List.filter_eq_nil_iff]

theorem wrongWords_length_le (config : NxmtRunConfig) (phase : NxmtPhase) (ws : List Nat)
    (contents : Nat → Word) : (wrongWords config phase ws contents).length ≤ ws.length := by
  rw [wrongWords, List.length_map]
  exact List.length_filter_le _ _

section Verify
variable {σ : Type} (d : Device σ)

theorem orPairs_eq (p n : Nat) (a b : Word) (m : σ) :
    orPairs d p n a b m = orWords d p n (fun k => if k % 2 = 0 then a else b) m := by
  rw [orWords, ← Loop.run_pairs]
  have value : Loop.exit 2 n 0 = n - n % 2 := by
    simp only [Loop.exit]
    omega
  have pairs := Loop.run_congr (n := n) (k := 0) (s := 2)
    (fun k s => orLoad d (p + (k + 1)) b (orLoad d (p + k) a s))
    (fun j s => orLoad d (p + (j + 1)) (if (j + 1) % 2 = 0 then a else b)
      (orLoad d (p + j) (if j % 2 = 0 then a else b) s)) (fun j hj s => by
        obtain ⟨i, -, rfl⟩ := List.mem_range'.1 hj
        have k0 : (0 + 2 * i) % 2 = 0 := by omega
        have k1 : (0 + 2 * i + 1) % 2 ≠ 0 := by omega
        rw [if_pos k0, if_neg k1]) (0, m)
  simp only [orPairs]
  rw [pairs, value]
  by_cases odd : n % 2 ≠ 0
  · have last : n - n % 2 = n - 1 := by omega
    rw [if_pos odd, if_pos (by omega), last, if_pos (by omega)]
  · rw [if_neg odd, if_neg (by omega)]

theorem orWords_eq (p n : Nat) (expected : Nat → Word) (m : σ) :
    (orWords d p n expected m).2 = d.after p m n ∧
      ((orWords d p n expected m).1 = 0 ↔ ∀ k < n, d.reading p m k = expected k) := by
  have fold : ∀ n, (List.range n).foldl (fun s k => orLoad d (p + k) (expected k) s) (0, m) =
      ((List.range n).foldl (fun acc k => acc ||| (d.reading p m k ^^^ expected k)) 0,
        d.after p m n) := by
    intro n
    induction n with
    | zero => rfl
    | succ n ih =>
      rw [List.range_succ, List.foldl_append, ih, List.foldl_append]
      rfl
  rw [orWords, Loop.run_one, fold]
  refine ⟨rfl, (BitWord.foldl_or_eq_zero _ _ _).trans ?_⟩
  simp [BitVec.xor_eq_zero_iff]

theorem nxmtChunkHasMismatchFixed_eq (p n : Nat) (target : Word) (m : σ) :
    nxmtChunkHasMismatchFixed d p n target m =
      (decide ¬ ∀ k < n, d.reading p m k = target, d.after p m n) := by
  obtain ⟨state, clean⟩ := orWords_eq d p n (fun _ => target) m
  rw [orWords] at state clean
  simp only [nxmtChunkHasMismatchFixed, state, Prod.mk.injEq, and_true, ne_eq, decide_eq_decide]
  exact not_congr clean

/-! `memcmp` stops at the first wrong word. -/

def firstWrong (p n : Nat) (expected : Nat → Word) (m : σ) : Nat :=
  (List.range n).findIdx fun k => d.reading p m k ≠ expected k

theorem firstWrong_lt (p n : Nat) (expected : Nat → Word) (m : σ) :
    firstWrong d p n expected m < n ↔ ¬ ∀ k < n, d.reading p m k = expected k := by
  let wrong := fun k => decide (d.reading p m k ≠ expected k)
  have found : (List.range n).findIdx wrong < (List.range n).length ↔
      ∃ k ∈ List.range n, wrong k = true := List.findIdx_lt_length
  rw [List.length_range] at found
  rw [firstWrong, found]
  simp [wrong]

theorem firstWrong_succ (p n : Nat) (expected : Nat → Word) (m : σ) :
    firstWrong d p (n + 1) expected m = if d.reading p m 0 ≠ expected 0 then 0
      else firstWrong d (p + 1) n (fun k => expected (k + 1)) (d.after p m 1) + 1 := by
  have shift : ∀ k, d.reading p m (k + 1) = d.reading (p + 1) (d.after p m 1) k := by
    intro k
    rw [Nat.add_comm, d.reading_add]
  rw [firstWrong, List.range_succ_eq_map, List.findIdx_cons, List.findIdx_map]
  simp only [Function.comp_def, shift, firstWrong, decide_eq_true_eq, cond_eq_ite]

theorem memcmpWords_eq (p n : Nat) (src : Nat → Word) (m : σ) :
    memcmpWords d p src n m = (decide (firstWrong d p n src m < n),
      d.after p m (min n (firstWrong d p n src m + 1))) := by
  induction n generalizing p src m with
  | zero => rfl
  | succ n ih =>
    have first : d.load m p = (d.reading p m 0, d.after p m 1) := d.load_after p m 0
    simp only [memcmpWords, first, firstWrong_succ]
    split
    · rename_i wrong
      simp
    · rename_i right
      have short : min (n + 1) (firstWrong d (p + 1) n (fun k => src (k + 1)) (d.after p m 1) + 1 + 1) =
          1 + min n (firstWrong d (p + 1) n (fun k => src (k + 1)) (d.after p m 1) + 1) := by
        omega
      rw [ih, short, d.after_add]
      simp

theorem memcmpWords_congr {n : Nat} {src src' : Nat → Word} (h : ∀ k < n, src k = src' k)
    (p : Nat) (m : σ) : memcmpWords d p src n m = memcmpWords d p src' n m := by
  induction n generalizing p src src' m with
  | zero => rfl
  | succ n ih =>
    simp only [memcmpWords, h 0 (by omega)]
    rw [ih fun k hk => h (k + 1) (by omega)]

theorem memcmpWords_append (p a b : Nat) (src : Nat → Word) (m : σ) :
    memcmpWords d p src (a + b) m =
      if (memcmpWords d p src a m).1 then (true, (memcmpWords d p src a m).2)
      else memcmpWords d (p + a) (fun k => src (a + k)) b (memcmpWords d p src a m).2 := by
  induction a generalizing p src m with
  | zero => simp [memcmpWords]
  | succ a ih =>
    rw [Nat.add_right_comm]
    simp only [memcmpWords]
    split
    · rfl
    · rw [ih]
      simp only [Nat.add_assoc, Nat.add_comm 1]

/-- The turns of `STREAM` compare like one `memcmp` against the repeated stamp. -/
theorem streamHasMismatch_eq (p n k : Nat) (stampPos : Fin 1024) (stamp : Nat → Word) (m : σ) :
    streamHasMismatch d p stamp (streamTurns n k stampPos) m =
      memcmpWords d (p + k) (fun j => stamp ((stampPos + j) % 1024)) (n - k) m := by
  induction k, stampPos using streamTurns.induct n generalizing m with
  | case1 k stampPos more need avail copy ih =>
    have pos := stampPos.isLt
    have hcopy : copy = min (n - k) (1024 - stampPos) := rfl
    have total : n - k = copy + (n - (k + copy)) := by omega
    have head : memcmpWords d (p + k) (fun j => stamp ((stampPos + j) % 1024)) copy m =
        memcmpWords d (p + k) (fun j => stamp (stampPos + j)) copy m := by
      refine memcmpWords_congr d (fun j hj => ?_) _ _
      rw [Nat.mod_eq_of_lt (by omega)]
    have turns : streamTurns n k stampPos = (k, stampPos.val, copy) ::
        streamTurns n (k + copy) ⟨(stampPos + copy) &&& (nxmtStreamStampWords - 1),
          Nat.and_lt_two_pow (n := 10) _ (by decide)⟩ := by
      rw [streamTurns, if_pos more]
    have whole := memcmpWords_append d (p + k) copy (n - (k + copy))
      (fun j => stamp ((stampPos + j) % 1024)) m
    rw [← total, head] at whole
    rw [whole, turns, streamHasMismatch]
    dsimp only
    split
    · rfl
    · rw [ih, ← Nat.add_assoc]
      refine memcmpWords_congr d (fun j _ => ?_) _ _
      simp only [and_1023]
      congr 1
      omega
  | case2 k stampPos stop =>
    rw [streamTurns, if_neg stop, Nat.sub_eq_zero_of_le (Nat.le_of_not_lt stop)]
    rfl

theorem walkWords_eq (p n s : Nat) (phase : NxmtPhase) (config : NxmtRunConfig)
    (expected : Nat → Word)
    (value : ∀ k < n, expected k = expectedWord config.seed phase config.pass (s + k)) (m : σ) :
    walkWords d p n (BitVec.ofNat 64 s * wordBytes) phase config expected m =
      (wrongWords config phase (List.range' s n) (fun w => d.reading p m (w - s)),
        d.after p m n) := by
  rw [walkWords, Loop.run_one]
  induction n with
  | zero => rfl
  | succ n ih =>
    rw [List.range_succ, List.foldl_append, ih fun k hk => value k (by omega), List.range'_concat,
      wrongWords_append, List.foldl_cons, List.foldl_nil]
    simp only [walkWord, d.load_after, value n (by omega), offset_word, wrongWords,
      List.filter_cons, List.filter_nil, Nat.add_sub_cancel_left, Nat.one_mul]
    split <;> simp_all [errorCall]

def walkExpected (startWord : Word) (phase : NxmtPhase) (config : NxmtRunConfig) (k : Nat) : Word :=
  let seed := config.seed
  let pass := config.pass
  let baseOff := startWord * wordBytes
  match phase with
  | .fixedA => kFixedA
  | .fixed5 => kFixed5
  | .checker => if (startWord + BitVec.ofNat 64 k) &&& 1 ≠ 0 then kFixed5 else kFixedA
  | .address => (baseOff + BitVec.ofNat 64 k * wordBytes) ^^^ (seed ^^^ (pass * kAddrPassMul))
  | .random => bswap64 (startWord + BitVec.ofNat 64 k) ^^^ (seed ^^^ (pass * kRandPassMul))
  | .walking => 1#64 <<< ((startWord + pass + BitVec.ofNat 64 k) &&& 63)
  | .narrow =>
    let X := (baseOff + BitVec.ofNat 64 k * wordBytes + pass * wordBytes) &&& 0xff
    (X * 0x0101010101010101) ^^^ 0x0706050403020100 ^^^ seed
  | .bitspread =>
    if (startWord + BitVec.ofNat 64 k + pass) &&& 1 ≠ 0 then kBitSpread1 else kBitSpread0
  | .stream =>
    ((baseOff + BitVec.ofNat 64 k * wordBytes) &&& 0x1fff) ^^^ (seed ^^^ (pass * kStreamPassMul))

theorem walkExpected_eq {s n : Nat} (hs : 8 * (s + n) ≤ 2 ^ 64) (phase : NxmtPhase)
    (config : NxmtRunConfig) (k : Nat) (hk : k < n) :
    walkExpected (BitVec.ofNat 64 s) phase config k =
      expectedWord config.seed phase config.pass (s + k) := by
  have inside : 8 * (s + k) < 2 ^ 64 := by omega
  cases phase with
  | fixedA | fixed5 => rfl
  | checker => exact expectedWord_checker config.seed config.pass inside
  | address => exact expectedWord_address config.seed config.pass
  | random => exact expectedWord_random config.seed config.pass inside
  | walking => exact expectedWord_walking config.seed config.pass inside
  | narrow => exact expectedWord_narrow config.seed config.pass
  | bitspread => exact expectedWord_bitspread config.seed config.pass inside
  | stream => exact expectedWord_stream config.seed config.pass

/-- How many loads the fast stage makes before the walk begins. -/
def fastLoads (phase : NxmtPhase) (p n : Nat) (expected : Nat → Word) (m : σ) : Nat :=
  match phase with
  | .walking => 0
  | .stream => firstWrong d p n expected m + 1
  | _ => n

theorem fastLoads_min {phase : NxmtPhase} (fast : phase ≠ .walking) (p n : Nat)
    (expected : Nat → Word) (m : σ) :
    ((∀ k < n, d.reading p m k = expected k) → min n (fastLoads d phase p n expected m) = n) ∧
      ((¬ ∀ k < n, d.reading p m k = expected k) →
        min n (fastLoads d phase p n expected m) = fastLoads d phase p n expected m) := by
  have found := firstWrong_lt d p n expected m
  cases phase with
  | walking => exact absurd rfl fast
  | stream =>
    refine ⟨fun clean => ?_, fun wrong => ?_⟩
    · have none := mt found.1 (not_not.2 clean)
      simp only [fastLoads]
      omega
    · have some_left := found.2 wrong
      simp only [fastLoads]
      omega
  | fixedA | fixed5 | checker | address | random | narrow | bitspread =>
    exact ⟨fun _ => Nat.min_self n, fun _ => Nat.min_self n⟩

/-- The OR reduction or `memcmp` that decides whether the words are walked. -/
def fastStage (p n : Nat) (startWord : Word) (phase : NxmtPhase) (config : NxmtRunConfig) (m : σ) :
    Bool × σ :=
  let wrong (s : Word × σ) : Bool × σ := (decide (s.1 ≠ 0), s.2)
  let pairs (a b first : Word) : Bool × σ :=
    let aFirst := if first &&& 1 ≠ 0 then b else a
    wrong (orPairs d p n aFirst (aFirst ^^^ (a ^^^ b)) m)
  match phase with
  | .fixedA => nxmtChunkHasMismatchFixed d p n kFixedA m
  | .fixed5 => nxmtChunkHasMismatchFixed d p n kFixed5 m
  | .checker => pairs kFixedA kFixed5 startWord
  | .walking => (true, m)
  | .bitspread => pairs kBitSpread0 kBitSpread1 (startWord + config.pass)
  | .stream => streamHasMismatch d p (nxmtFillStreamStamp (fun _ => 0) config.seed config.pass)
      (streamTurns n 0 (streamStart startWord)) m
  | phase => wrong (orWords d p n (walkExpected startWord phase config) m)

theorem nxmtVerifyChunk_stages (p n : Nat) (startWord : Word) (phase : NxmtPhase)
    (config : NxmtRunConfig) (m : σ) :
    nxmtVerifyChunk d p n startWord phase config m =
      if (fastStage d p n startWord phase config m).1 then
        walkWords d p n (startWord * wordBytes) phase config (walkExpected startWord phase config)
          (fastStage d p n startWord phase config m).2
      else ([], (fastStage d p n startWord phase config m).2) := by
  have select : ∀ (acc : Word) (x y : List RecordCall × σ),
      (if acc = 0 then y else x) = if decide (acc ≠ 0) = true then x else y := by
    intro acc x y
    by_cases zero : acc = 0 <;> simp [zero]
  cases phase with
  | fixedA | fixed5 | stream => rfl
  | walking => rfl
  | checker | bitspread | address | random | narrow => exact select _ _ _

theorem fastStage_eq (p n s : Nat) (hs : 8 * (s + n) ≤ 2 ^ 64) {phase : NxmtPhase}
    (fast : phase ≠ .walking) (config : NxmtRunConfig) (m : σ) :
    let expected := fun k => expectedWord config.seed phase config.pass (s + k)
    fastStage d p n (BitVec.ofNat 64 s) phase config m =
      (decide ¬ ∀ k < n, d.reading p m k = expected k,
        d.after p m (min n (fastLoads d phase p n expected m))) := by
  intro expected
  have inside : ∀ k < n, 8 * (s + k) < 2 ^ 64 := fun k hk => by omega
  -- the OR reductions load every word
  have reduced : ∀ values : Nat → Word, (∀ k < n, values k = expected k) →
      (decide ((orWords d p n values m).1 ≠ 0), (orWords d p n values m).2) =
        (decide ¬ ∀ k < n, d.reading p m k = expected k, d.after p m (min n n)) := by
    intro values value
    obtain ⟨state, clean⟩ := orWords_eq d p n values m
    have clean' : (orWords d p n values m).1 = 0 ↔ ∀ k < n, d.reading p m k = expected k :=
      clean.trans (forall₂_congr fun k hk => by rw [value k hk])
    rw [state, Nat.min_self]
    simp only [ne_eq, clean']
  have fixed : ∀ target, nxmtChunkHasMismatchFixed d p n target m =
      (decide ¬ ∀ k < n, d.reading p m k = target, d.after p m (min n n)) := by
    intro target
    rw [Nat.min_self]
    exact nxmtChunkHasMismatchFixed_eq d p n target m
  have pairs : ∀ x a b : Word,
      (∀ k < n, (if (x + BitVec.ofNat 64 k) &&& 1 ≠ 0 then b else a) = expected k) →
      ∀ k < n, (if k % 2 = 0 then (if x &&& 1 ≠ 0 then b else a)
        else (if x &&& 1 ≠ 0 then b else a) ^^^ (a ^^^ b)) = expected k :=
    fun x a b value k hk => (pair_pick x a b k).trans (value k hk)
  cases phase with
  | fixedA => exact fixed kFixedA
  | fixed5 => exact fixed kFixed5
  | checker =>
    have value k (hk : k < n) := expectedWord_checker config.seed config.pass (inside k hk)
    simp only [fastStage, orPairs_eq]
    exact reduced _ (pairs _ kFixedA kFixed5 value)
  | address => exact reduced _ (walkExpected_eq hs .address config)
  | random => exact reduced _ (walkExpected_eq hs .random config)
  | walking => exact absurd rfl fast
  | narrow => exact reduced _ (walkExpected_eq hs .narrow config)
  | bitspread =>
    have value k (hk : k < n) := expectedWord_bitspread config.seed config.pass (inside k hk)
    have value' k (hk : k < n) := (congrArg (fun x => if x &&& 1 ≠ 0 then kBitSpread1
      else kBitSpread0) (add_right_comm _ _ _)).trans (value k hk)
    simp only [fastStage, orPairs_eq]
    exact reduced _ (pairs (BitVec.ofNat 64 s + config.pass) kBitSpread0 kBitSpread1 value')
  | stream =>
    have stamp : memcmpWords d (p + 0) (fun j => nxmtFillStreamStamp (fun _ => 0) config.seed
        config.pass ((streamStart (BitVec.ofNat 64 s) + j) % 1024)) (n - 0) m =
        memcmpWords d p expected n m :=
      memcmpWords_congr d (fun k hk => expectedWord_stamp _ _ (inside k hk) _) p m
    simp only [fastStage, fastLoads, streamHasMismatch_eq, stamp, memcmpWords_eq, Prod.mk.injEq,
      and_true, decide_eq_decide]
    exact firstWrong_lt d p n expected m

theorem nxmtVerifyChunk_eq (p n s : Nat) (hs : 8 * (s + n) ≤ 2 ^ 64) (phase : NxmtPhase)
    (config : NxmtRunConfig) (m : σ) :
    let expected := fun k => expectedWord config.seed phase config.pass (s + k)
    let m' := d.after p m (fastLoads d phase p n expected m)
    nxmtVerifyChunk d p n (BitVec.ofNat 64 s) phase config m =
      if phase ≠ .walking ∧ ∀ k < n, d.reading p m k = expected k then ([], d.after p m n)
      else (wrongWords config phase (List.range' s n) (fun w => d.reading p m' (w - s)),
        d.after p m' n) := by
  intro expected m'
  have walk := walkWords_eq d p n s phase config _ (walkExpected_eq hs phase config)
  rw [nxmtVerifyChunk_stages]
  by_cases slow : phase = .walking
  · subst slow
    simp only [ne_eq, not_true_eq_false, false_and, if_false]
    exact walk m
  · rw [fastStage_eq d p n s hs slow config m]
    have loads := fastLoads_min d slow p n expected m
    by_cases clean : ∀ k < n, d.reading p m k = expected k
    · have quiet : ¬ (decide ¬ ∀ k < n, d.reading p m k = expected k) = true := by
        rw [decide_eq_true_iff]
        exact not_not.2 clean
      rw [if_neg quiet, if_pos ⟨slow, clean⟩, loads.1 clean]
    · rw [if_pos (decide_eq_true clean), if_neg fun h => clean h.2, loads.2 clean, walk]

/-- On contents that stay put during the call, the verifier records exactly the
wrong words of the chunk, in ascending order. -/
theorem nxmtVerifyChunk_stable {m : σ} (h : d.Stable m) (p n s : Nat)
    (hs : 8 * (s + n) ≤ 2 ^ 64) (phase : NxmtPhase) (config : NxmtRunConfig) :
    nxmtVerifyChunk d p n (BitVec.ofNat 64 s) phase config m =
      (wrongWords config phase (List.range' s n) (fun w => d.view m (p + (w - s))), m) := by
  rw [nxmtVerifyChunk_eq d p n s hs phase config m]
  simp only [h.after, h.reading]
  split
  · rename_i clean
    have none : wrongWords config phase (List.range' s n) (fun w => d.view m (p + (w - s))) = [] := by
      refine wrongWords_eq_nil.2 fun w hw => ?_
      obtain ⟨low, high⟩ := List.mem_range'_1.1 hw
      rw [clean.2 _ (by omega), Nat.add_sub_cancel' low]
    rw [none]
  · rfl

/-! ### The report -/

theorem offset_eight (s : Word) (k : Nat) :
    BitVec.ofNat 64 (8 * (s.toNat + k)) = 8 * (s + BitVec.ofNat 64 k) := by
  rw [← BitVec.ofNat_mul_ofNat, BitVec.ofNat_add, BitVec.ofNat_toNat, BitVec.setWidth_eq]
  rfl

def recordWrong (config : NxmtRunConfig) (phase : NxmtPhase) (startWord : Word)
    (contents : Nat → Word) (report : NxmtReport) (k : Nat) : NxmtReport :=
  let offset := 8 * (startWord + BitVec.ofNat 64 k)
  let expected := nxmtExpectedValue config.seed phase config.pass offset
  if contents k ≠ expected then
    nxmtReportRecordError report config.mode phase config.seed config.pass config.workerId offset
      expected (contents k)
  else report

theorem expectedWord_word (seed : Word) (phase : NxmtPhase) (pass startWord : Word) (k : Nat) :
    expectedWord seed phase pass (startWord.toNat + k) =
      nxmtExpectedValue seed phase pass (8 * (startWord + BitVec.ofNat 64 k)) := by
  rw [expectedWord, offset_eight]

theorem recordAll_wrongWords (config : NxmtRunConfig) (phase : NxmtPhase) (startWord : Word)
    (n : Nat) (contents : Nat → Word) (report : NxmtReport) :
    report.recordAll (wrongWords config phase (List.range' startWord.toNat n)
        fun w => contents (w - startWord.toNat)) =
      (List.range n).foldl (recordWrong config phase startWord contents) report := by
  rw [NxmtReport.recordAll, wrongWords, List.foldl_map, List.foldl_filter,
    List.range'_eq_map_range, List.foldl_map]
  refine List.foldl_ext _ _ _ fun report k _ => ?_
  simp only [Nat.add_sub_cancel_left, decide_eq_true_eq, recordWrong, expectedWord_word, errorCall,
    NxmtReport.record, offset_eight]

/-- The verifier reports exactly the wrong words, each once and in ascending order;
its fast stage skips the walk exactly when there are none. -/
theorem nxmtVerifyChunk_reports {m : σ} (still : d.Stable m) (p chunkWords : Nat)
    (startWord : Word) (fits : 8 * (startWord.toNat + chunkWords) ≤ 2 ^ 64) (phase : NxmtPhase)
    (config : NxmtRunConfig) (report : NxmtReport) :
    let contents := fun k => d.view m (p + k)
    let verified := nxmtVerifyChunk d p chunkWords startWord phase config m
    let fast := fastStage d p chunkWords startWord phase config m
    report.recordAll verified.1 =
        (List.range chunkWords).foldl (recordWrong config phase startWord contents) report ∧
      verified.2 = m ∧
      (verified = if fast.1 then walkWords d p chunkWords (startWord * wordBytes) phase config
        (walkExpected startWord phase config) fast.2 else ([], fast.2)) ∧
      (phase ≠ .walking → (fast.1 = false ↔ ∀ k < chunkWords, contents k =
        nxmtExpectedValue config.seed phase config.pass (8 * (startWord + BitVec.ofNat 64 k)))) := by
  intro contents verified fast
  have word : BitVec.ofNat 64 startWord.toNat = startWord := BitVec.ofNat_toNat _ _
  have records := nxmtVerifyChunk_stable d still p chunkWords startWord.toNat fits phase config
  rw [word] at records
  refine ⟨?_, congrArg Prod.snd records, nxmtVerifyChunk_stages d p chunkWords startWord phase config m,
    fun slow => ?_⟩
  · rw [← recordAll_wrongWords]
    exact congrArg report.recordAll (congrArg Prod.fst records)
  · have stage := fastStage_eq d p chunkWords startWord.toNat fits slow config m
    rw [word] at stage
    rw [congrArg Prod.fst stage, decide_eq_false_iff_not, not_not]
    simp only [still.reading, expectedWord_word, contents]

end Verify

theorem nxmtVerifyChunk_reports_allA :
    (zeroReport.recordAll (nxmtVerifyChunk ram 0 3 1 .checker
      ⟨.quick, 1, 0, 0, 1, false, false, false⟩ fun _ => kFixedA).1).errorCount = 2 :=
  (congrArg NxmtReport.errorCount (nxmtVerifyChunk_reports ram (ram_stable _) 0 3 1 (by decide)
    .checker ⟨.quick, 1, 0, 0, 1, false, false, false⟩ zeroReport).1).trans (by decide)

end NxMemTest
