import NxMemTest.GpuPump
import NxMemTest.VerifySpec

/-! A build with NEON stores, loads and reports what the portable build does, over
any memory device: each vector loop is the portable loop unrolled, its registers
holding the next words of the pattern. -/

namespace NxMemTest

/-! ### Registers that hold consecutive words of a sequence -/

theorem veorq_vdupq (x : Nat → Word) (mask : Word) (k : Nat) :
    veorq (vld1qArray x k) (vdupq mask) = vld1qArray (fun k => x k ^^^ mask) k := rfl

theorem vrev64qU8_eq (x : Nat → Word) (k : Nat) :
    vrev64qU8 (vld1qArray x k) = vld1qArray (fun k => bswap64 (x k)) k := rfl

theorem vaddq_step {x : Nat → Word} {s : Nat} {c : Word} (hx : ∀ k, x (k + s) = x k + c)
    (k : Nat) : vaddq (vld1qArray x k) (vdupq c) = vld1qArray x (k + s) := by
  have second : x (k + s + 1) = x (k + 1) + c := by
    rw [← hx, Nat.add_right_comm]
  simp only [vld1qArray, hx, second]
  rfl

theorem vshlqS64_low (i : Word) :
    (let n := ((i &&& 63).setWidth 8).toInt
      if 0 ≤ n then 1#64 <<< n.toNat else (1#64).sshiftRight (-n).toNat) = 1#64 <<< (i &&& 63) := by
  have low : (i &&& 63).toNat = i.toNat % 64 := BitWord.toNat_and_low i 6 (by decide)
  have small : (i &&& 63).toNat < 64 := by omega
  have byte : ((i &&& 63).setWidth 8).toInt = ((i &&& 63).toNat : Int) := by
    rw [BitVec.toInt_eq_toNat_of_lt] <;> rw [BitVec.toNat_setWidth] <;> omega
  dsimp only
  rw [byte, if_pos (Int.natCast_nonneg _), Int.toNat_natCast]
  rfl

theorem vshlqS64_eq (x : Nat → Word) (k : Nat) :
    vshlqS64 (vdupq 1) (vandq (vld1qArray x k) (vdupq 63)) =
      vld1qArray (fun k => 1#64 <<< (x k &&& 63)) k :=
  congrArg₂ U64x2.mk (vshlqS64_low (x k)) (vshlqS64_low (x (k + 1)))

theorem ramp_step (b c : Word) (s k : Nat) :
    b + BitVec.ofNat 64 (k + s) * c = b + BitVec.ofNat 64 k * c + BitVec.ofNat 64 s * c := by
  rw [BitVec.ofNat_add, BitVec.add_mul, BitVec.add_assoc]

theorem count_step (b : Word) (s k : Nat) :
    b + BitVec.ofNat 64 (k + s) = b + BitVec.ofNat 64 k + BitVec.ofNat 64 s := by
  rw [BitVec.ofNat_add, BitVec.add_assoc]

section
variable {σ : Type} (d : Device σ)

/-! ### Store loops -/

theorem writeVectors8_eq {value : U64x2 → U64x2} {c : Word} {x g : Nat → Word}
    (hvalue : ∀ k, value (vld1qArray x k) = vld1qArray g k) (hx : ∀ k, x (k + 8) = x k + c)
    (p n : Nat) (m : σ) :
    Loop.run 1 n (Loop.exit 8 n 0) (fun k m => d.store m (p + k) (g k))
        (writeVectors8 d value (vdupq c) p n
          ⟨vld1qArray x 0, vld1qArray x 2, vld1qArray x 4, vld1qArray x 6⟩ m) =
      Loop.run 1 n 0 (fun k m => d.store m (p + k) (g k)) m := by
  let regs (k : Nat) : U64x8 :=
    ⟨vld1qArray x k, vld1qArray x (k + 2), vld1qArray x (k + 4), vld1qArray x (k + 6)⟩
  let block (k : Nat) (m : σ) : σ :=
    (List.range' k 8).foldl (fun m k => d.store m (p + k) (g k)) m
  have loop := Loop.run_rel (n := n) (k := 0) (s := 8) (by decide)
    (fun k (s : U64x8 × σ) =>
      let m := vst1q d (p + k) (value s.1.v01) s.2
      let m := vst1q d (p + (k + 2)) (value s.1.v23) m
      let m := vst1q d (p + (k + 4)) (value s.1.v45) m
      let m := vst1q d (p + (k + 6)) (value s.1.v67) m
      (⟨vaddq s.1.v01 (vdupq c), vaddq s.1.v23 (vdupq c), vaddq s.1.v45 (vdupq c),
        vaddq s.1.v67 (vdupq c)⟩, m))
    block (fun k s m' => s = (regs k, m')) (m := (regs 0, m)) (rfl : _ = (regs 0, m)) ?_
  · rw [writeVectors8, loop]
    exact Loop.run_unroll _ block (fun _ _ _ => rfl) m
  · rintro k s m' - rfl
    simp only [regs, hvalue, vaddq_step hx, Nat.add_right_comm k _ 8]
    rfl

theorem fillVectors4_eq {mask c : Word} {x : Nat → Word} (hx : ∀ k, x (k + 4) = x k + c)
    (p n : Nat) (m : σ) :
    Loop.run 1 n (Loop.exit 4 n 0) (fun k m => d.store m (p + k) (x k ^^^ mask))
        (fillVectors4 d (vdupq mask) (vdupq c) p n (vld1qArray x 0) (vld1qArray x 2) m) =
      Loop.run 1 n 0 (fun k m => d.store m (p + k) (x k ^^^ mask)) m := by
  let regs (k : Nat) : U64x2 × U64x2 := (vld1qArray x k, vld1qArray x (k + 2))
  let block (k : Nat) (m : σ) : σ :=
    (List.range' k 4).foldl (fun m k => d.store m (p + k) (x k ^^^ mask)) m
  have loop := Loop.run_rel (n := n) (k := 0) (s := 4) (by decide)
    (fun k (s : (U64x2 × U64x2) × σ) =>
      let m := vst1q d (p + k) (veorq s.1.1 (vdupq mask)) s.2
      let m := vst1q d (p + (k + 2)) (veorq s.1.2 (vdupq mask)) m
      ((vaddq s.1.1 (vdupq c), vaddq s.1.2 (vdupq c)), m))
    block (fun k s m' => s = (regs k, m')) (m := (regs 0, m)) (rfl : _ = (regs 0, m)) ?_
  · rw [fillVectors4, loop]
    exact Loop.run_unroll _ block (fun _ _ _ => rfl) m
  · rintro k s m' - rfl
    simp only [regs, vaddq_step hx, Nat.add_right_comm k _ 4]
    rfl

theorem nxmtNeonCopyWordsNeon_eq (dst : Nat) (src : Nat → Word) (words : Nat) (m : σ) :
    nxmtNeonCopyWordsNeon d dst src words m = nxmtNeonCopyWords d dst src words m :=
  Loop.run_unroll (s := 16) _ _ (fun _ _ _ => rfl) m

theorem writePairsNeon_eq (p n : Nat) (a b : Word) (m : σ) :
    writePairsNeon d p n a b m = writePairs d p n a b m := by
  have even : Loop.exit 4 n 0 % 2 = 0 := by
    simp only [Loop.exit]
    omega
  have tail := pairLoop_eq d p n a b even
    (Loop.run 4 n 0 (fun k m => vst1q d (p + (k + 2)) (vsetqLane1 b (vdupq a))
      (vst1q d (p + k) (vsetqLane1 b (vdupq a)) m)) m)
  have blocks := Loop.run_congr (n := n) (k := 0) (s := 4)
    (fun k m => vst1q d (p + (k + 2)) (vsetqLane1 b (vdupq a))
      (vst1q d (p + k) (vsetqLane1 b (vdupq a)) m))
    (fun k m => (List.range' k 4).foldl
      (fun m k => d.store m (p + k) (if k % 2 = 0 then a else b)) m) (fun k hk m => by
        obtain ⟨i, -, rfl⟩ := List.mem_range'.1 hk
        have k0 : (0 + 4 * i) % 2 = 0 := by omega
        have k1 : (0 + 4 * i + 1) % 2 ≠ 0 := by omega
        have k2 : (0 + 4 * i + 1 + 1) % 2 = 0 := by omega
        have k3 : (0 + 4 * i + 1 + 1 + 1) % 2 ≠ 0 := by omega
        simp only [List.range', List.foldl_cons, List.foldl_nil, if_pos k0, if_neg k1, if_pos k2,
          if_neg k3]
        rfl) m
  refine tail.trans ?_
  rw [blocks, Loop.run_unroll (s := 4) _ _ fun _ _ _ => rfl]
  exact (pairLoop_eq d p n a b rfl m).symm

/-! ### OR reductions -/

def U64x2.orLanes (v : U64x2) : Word := v.lane0 ||| v.lane1

theorem orLanes_vorrq (acc e a : U64x2) :
    (vorrq acc (veorq e a)).orLanes =
      acc.orLanes ||| (a.lane0 ^^^ e.lane0) ||| (a.lane1 ^^^ e.lane1) := by
  simp only [U64x2.orLanes, vorrq, veorq, U64x2.zipWith, BitVec.xor_comm e.lane0,
    BitVec.xor_comm e.lane1]
  ac_rfl

theorem orLoad_vld1q (p k : Nat) (expected : Nat → Word) (acc : U64x2) (m : σ) :
    orLoad d (p + (k + 1)) (expected (k + 1)) (orLoad d (p + k) (expected k) (acc.orLanes, m)) =
      ((vorrq acc (veorq (vld1qArray expected k) (vld1q d (p + k) m).1)).orLanes,
        (vld1q d (p + k) m).2) := by
  rw [orLanes_vorrq]
  rfl

theorem orTail_eq (p n k : Nat) (expected : Nat → Word) (acc : U64x2) (m : σ) :
    orTail d p n k expected acc m =
      Loop.run 1 n k (fun k => orLoad d (p + k) (expected k)) (acc.orLanes, m) := by
  have start : (0 : Word) ||| acc.orLanes = acc.orLanes := BitVec.zero_or
  exact congrArg (fun acc => Loop.run 1 n k (fun k => orLoad d (p + k) (expected k)) (acc, m)) start

theorem orAddressNeon_eq (p n : Nat) (baseOff mask : Word) (m : σ) :
    orAddressNeon d p n baseOff mask m =
      orWords d p n (fun k => (baseOff + BitVec.ofNat 64 k * wordBytes) ^^^ mask) m := by
  let x (k : Nat) : Word := baseOff + BitVec.ofNat 64 k * wordBytes
  have hx : ∀ k, x (k + 4) = x k + 32 := ramp_step baseOff wordBytes 4
  have start : x 0 = baseOff := BitVec.add_zero _
  let regs (k : Nat) : U64x2 × U64x2 := (vld1qArray x k, vld1qArray x (k + 2))
  let block (k : Nat) (s : Word × σ) : Word × σ :=
    (List.range' k 4).foldl (fun s k => orLoad d (p + k) (x k ^^^ mask) s) s
  have loop := Loop.run_rel (n := n) (k := 0) (s := 4) (by decide)
    (fun k (s : (U64x2 × U64x2) × U64x2 × σ) =>
      let e01 := veorq s.1.1 (vdupq mask)
      let e23 := veorq s.1.2 (vdupq mask)
      let a01 := vld1q d (p + k) s.2.2
      let a23 := vld1q d (p + (k + 2)) a01.2
      let accV := vorrq s.2.1 (veorq e01 a01.1)
      let accV := vorrq accV (veorq e23 a23.1)
      ((vaddq s.1.1 (vdupq 32), vaddq s.1.2 (vdupq 32)), accV, a23.2))
    block (fun k s t => s.1 = regs k ∧ t = (s.2.1.orLanes, s.2.2))
    (m := (regs 0, vdupq 0, m)) ⟨rfl, rfl⟩ ?_
  · rw [orAddressNeon, orTail_eq, orWords]
    have lanes : vsetqLane1 (baseOff + 8) (vdupq baseOff) = vld1qArray x 0 :=
      congrArg₂ U64x2.mk start.symm rfl
    rw [lanes]
    refine Eq.trans ?_ (Loop.run_unroll (s := 4) _ block (fun _ _ _ => rfl) ((vdupq 0).orLanes, m))
    rw [loop.2]
    rfl
  · rintro k ⟨-, acc, m⟩ - - ⟨rfl, rfl⟩
    refine ⟨?_, ?_⟩
    · simp only [regs, vaddq_step hx, Nat.add_right_comm k _ 4]
    · simp only [block, List.range', List.foldl_cons, List.foldl_nil]
      rw [orLoad_vld1q d p k (fun k => x k ^^^ mask), orLoad_vld1q d p (k + 1 + 1) fun k => x k ^^^ mask]
      rfl

theorem orRandomNeon_eq (p n : Nat) (startWord mask : Word) (m : σ) :
    orRandomNeon d p n startWord mask m =
      orWords d p n (fun k => bswap64 (startWord + BitVec.ofNat 64 k) ^^^ mask) m := by
  let x (k : Nat) : Word := startWord + BitVec.ofNat 64 k
  have hx : ∀ k, x (k + 2) = x k + 2 := count_step startWord 2
  have start : x 0 = startWord := BitVec.add_zero _
  let block (k : Nat) (s : Word × σ) : Word × σ :=
    (List.range' k 2).foldl (fun s k => orLoad d (p + k) (bswap64 (x k) ^^^ mask) s) s
  have loop := Loop.run_rel (n := n) (k := 0) (s := 2) (by decide)
    (fun k (s : U64x2 × U64x2 × σ) =>
      let rev := vrev64qU8 s.1
      let expected := veorq rev (vdupq mask)
      let actual := vld1q d (p + k) s.2.2
      (vaddq s.1 (vdupq 2), vorrq s.2.1 (veorq expected actual.1), actual.2))
    block (fun k s t => s.1 = vld1qArray x k ∧ t = (s.2.1.orLanes, s.2.2))
    (m := (vld1qArray x 0, vdupq 0, m)) ⟨rfl, rfl⟩ ?_
  · rw [orRandomNeon, orTail_eq, orWords]
    have lanes : vsetqLane1 (startWord + 1) (vdupq startWord) = vld1qArray x 0 :=
      congrArg₂ U64x2.mk start.symm rfl
    rw [lanes]
    refine Eq.trans ?_ (Loop.run_unroll (s := 2) _ block (fun _ _ _ => rfl) ((vdupq 0).orLanes, m))
    rw [loop.2]
  · rintro k ⟨-, acc, m⟩ - - ⟨rfl, rfl⟩
    refine ⟨vaddq_step hx k, ?_⟩
    simp only [block, List.range', List.foldl_cons, List.foldl_nil]
    rw [orLoad_vld1q d p k fun k => bswap64 (x k) ^^^ mask]
    rfl

/-! ### The functions of both builds -/

theorem nxmtFillStreamStampNeon_eq (stamp : Nat → Word) (seed pass : Word) :
    nxmtFillStreamStampNeon stamp seed pass = nxmtFillStreamStamp stamp seed pass := by
  let mask : Word := seed ^^^ (pass * kStreamPassMul)
  let x (k : Nat) : Word := BitVec.ofNat 64 k * wordBytes
  have step : ∀ k, x (k + 4) = x k + 32 := fun k => by
    simp only [x, BitVec.ofNat_add, BitVec.add_mul]
    rfl
  have fill : Loop.run 1 nxmtStreamStampWords (Loop.exit 4 nxmtStreamStampWords 0)
      (fun k m => ram.store m (0 + k) (x k ^^^ mask)) (fillVectors4 ram (vdupq mask) (vdupq 32) 0
        nxmtStreamStampWords (vld1qArray x 0) (vld1qArray x 2) stamp) = _ :=
    fillVectors4_eq ram step 0 nxmtStreamStampWords stamp
  simp only [Nat.zero_add] at fill
  exact fill

theorem nxmtWriteChunkNeon_eq (p n : Nat) (startWord : Word) (phase : NxmtPhase)
    (seed pass : Word) (m : σ) :
    nxmtWriteChunkNeon d p n startWord phase seed pass m =
      nxmtWriteChunk d p n startWord phase seed pass m := by
  cases phase with
  | fixedA => rfl
  | fixed5 => rfl
  | checker => exact writePairsNeon_eq d p n _ _ m
  | address =>
    let x (k : Nat) : Word := startWord * wordBytes + BitVec.ofNat 64 k * wordBytes
    have start : vsetqLane1 (startWord * wordBytes + 8) (vdupq (startWord * wordBytes)) =
        vld1qArray x 0 := congrArg₂ U64x2.mk (BitVec.add_zero _).symm rfl
    simp only [nxmtWriteChunkNeon, start]
    exact writeVectors8_eq d (fun k => veorq_vdupq x _ k) (ramp_step _ wordBytes 8) p n m
  | random =>
    let x (k : Nat) : Word := startWord + BitVec.ofNat 64 k
    have start : vsetqLane1 (startWord + 1) (vdupq startWord) = vld1qArray x 0 :=
      congrArg₂ U64x2.mk (BitVec.add_zero _).symm rfl
    simp only [nxmtWriteChunkNeon, start]
    exact writeVectors8_eq d (fun k => by rw [vrev64qU8_eq x, veorq_vdupq])
      (count_step startWord 8) p n m
  | walking =>
    let x (k : Nat) : Word := startWord + pass + BitVec.ofNat 64 k
    have start : vsetqLane1 (startWord + pass + 1) (vdupq (startWord + pass)) = vld1qArray x 0 :=
      congrArg₂ U64x2.mk (BitVec.add_zero _).symm rfl
    simp only [nxmtWriteChunkNeon, start]
    exact writeVectors8_eq d (x := x) (vshlqS64_eq x) (count_step (startWord + pass) 8) p n m
  | narrow => rfl
  | bitspread => exact writePairsNeon_eq d p n _ _ m
  | stream =>
    simp only [nxmtWriteChunkNeon, nxmtWriteChunk, nxmtFillStreamStampNeon_eq,
      nxmtNeonCopyWordsNeon_eq]

theorem nxmtVerifyChunkNeon_eq (p n : Nat) (startWord : Word) (phase : NxmtPhase)
    (config : NxmtRunConfig) (m : σ) :
    nxmtVerifyChunkNeon d p n startWord phase config m =
      nxmtVerifyChunk d p n startWord phase config m := by
  cases phase with
  | address => simp only [nxmtVerifyChunkNeon, nxmtVerifyChunk, orAddressNeon_eq]
  | random => simp only [nxmtVerifyChunkNeon, nxmtVerifyChunk, orRandomNeon_eq]
  | stream => simp only [nxmtVerifyChunkNeon, nxmtVerifyChunk, nxmtFillStreamStampNeon_eq]
  | _ => rfl

theorem pumpFillSrcPatternNeon_eq (src : Nat) (bytes seed : Word) (m : σ) :
    pumpFillSrcPatternNeon d src bytes seed m = pumpFillSrcPattern d src bytes seed m :=
  fillVectors4_eq d (x := fun k => BitVec.ofNat 64 k * 8)
    (fun k => by rw [BitVec.ofNat_add, BitVec.add_mul]; rfl) src (bytes / 8).toNat m

/-- Both builds leave the same chunk and the same report, and so do the functions
they are made of; no length needs to be a multiple of an unroll. -/
theorem neon_portable (p chunkWords : Nat) (startWord : Word) (phase : NxmtPhase)
    (seed pass : Word) (config : NxmtRunConfig) (report : NxmtReport) (stamp src : Nat → Word)
    (bytes : Word) (m : σ) :
    nxmtWriteChunkNeon d p chunkWords startWord phase seed pass m =
        nxmtWriteChunk d p chunkWords startWord phase seed pass m ∧
      (let neon := nxmtVerifyChunkNeon d p chunkWords startWord phase config m
        let portable := nxmtVerifyChunk d p chunkWords startWord phase config m
        report.recordAll neon.1 = report.recordAll portable.1 ∧ neon = portable) ∧
      nxmtFillStreamStampNeon stamp seed pass = nxmtFillStreamStamp stamp seed pass ∧
      nxmtNeonCopyWordsNeon d p src chunkWords m = nxmtNeonCopyWords d p src chunkWords m ∧
      pumpFillSrcPatternNeon d p bytes seed m = pumpFillSrcPattern d p bytes seed m := by
  have verify := nxmtVerifyChunkNeon_eq d p chunkWords startWord phase config m
  exact ⟨nxmtWriteChunkNeon_eq d p chunkWords startWord phase seed pass m,
    ⟨by rw [verify], verify⟩, nxmtFillStreamStampNeon_eq stamp seed pass,
    nxmtNeonCopyWordsNeon_eq d p src chunkWords m, pumpFillSrcPatternNeon_eq d p bytes seed m⟩

end
end NxMemTest
