import NxMemTest.Chunk

/-! What a build with NEON compiles in place of the portable loops of
`source/core/runner.c`. A 128-bit register is its two little-endian 64-bit lanes;
reinterpreting it is the identity, and a vector load or store is one of each
lane in turn. -/

namespace NxMemTest

/-- `uint64x2_t` and `int64x2_t` -/
structure U64x2 where
  lane0 : Word
  lane1 : Word
  deriving DecidableEq, Repr

namespace U64x2

def map (f : Word → Word) (v : U64x2) : U64x2 := ⟨f v.lane0, f v.lane1⟩

def zipWith (f : Word → Word → Word) (a b : U64x2) : U64x2 :=
  ⟨f a.lane0 b.lane0, f a.lane1 b.lane1⟩

end U64x2

def vdupq (x : Word) : U64x2 := ⟨x, x⟩

/-- `vsetq_lane_u64(x, v, 1)` -/
def vsetqLane1 (x : Word) (v : U64x2) : U64x2 := { v with lane1 := x }

def veorq (a b : U64x2) : U64x2 := a.zipWith (· ^^^ ·) b
def vorrq (a b : U64x2) : U64x2 := a.zipWith (· ||| ·) b
def vandq (a b : U64x2) : U64x2 := a.zipWith (· &&& ·) b
def vaddq (a b : U64x2) : U64x2 := a.zipWith (· + ·) b

/-- `vrev64q_u8` reverses the bytes of each lane. -/
def vrev64qU8 (v : U64x2) : U64x2 := v.map bswap64

/-- `vshlq_s64` shifts each lane left by the signed low byte of the other. -/
def vshlqS64 (a s : U64x2) : U64x2 :=
  a.zipWith (fun a s =>
    let n := (s.setWidth 8).toInt
    if 0 ≤ n then a <<< n.toNat else a.sshiftRight (-n).toNat) s

/-- `vld1q_u64` from an array that is not device memory. -/
def vld1qArray (src : Nat → Word) (k : Nat) : U64x2 := ⟨src k, src (k + 1)⟩

section
variable {σ : Type} (d : Device σ)

def vst1q (p : Nat) (v : U64x2) (m : σ) : σ := d.store (d.store m p v.lane0) (p + 1) v.lane1

def vld1q (p : Nat) (m : σ) : U64x2 × σ :=
  let (lane0, m) := d.load m p
  let (lane1, m) := d.load m (p + 1)
  (⟨lane0, lane1⟩, m)

structure U64x8 where
  v01 : U64x2
  v23 : U64x2
  v45 : U64x2
  v67 : U64x2

/-- The eight-word loop of `ADDRESS`, `RANDOM` and `WALKING`: store `value` of
four registers, then add `step` to each. -/
def writeVectors8 (value : U64x2 → U64x2) (step : U64x2) (p chunkWords : Nat) (v : U64x8)
    (m : σ) : σ :=
  (Loop.run 8 chunkWords 0
    (fun k (s : U64x8 × σ) =>
      let m := vst1q d (p + k) (value s.1.v01) s.2
      let m := vst1q d (p + (k + 2)) (value s.1.v23) m
      let m := vst1q d (p + (k + 4)) (value s.1.v45) m
      let m := vst1q d (p + (k + 6)) (value s.1.v67) m
      (⟨vaddq s.1.v01 step, vaddq s.1.v23 step, vaddq s.1.v45 step, vaddq s.1.v67 step⟩, m))
    (v, m)).2

/-- The four-word loop that fills the `STREAM` stamp and the source of the GPU pump. -/
def fillVectors4 (mask2 step : U64x2) (p words : Nat) (off01 off23 : U64x2) (m : σ) : σ :=
  (Loop.run 4 words 0
    (fun k (s : (U64x2 × U64x2) × σ) =>
      let m := vst1q d (p + k) (veorq s.1.1 mask2) s.2
      let m := vst1q d (p + (k + 2)) (veorq s.1.2 mask2) m
      ((vaddq s.1.1 step, vaddq s.1.2 step), m))
    ((off01, off23), m)).2

/-- The array `stamp` is memory of its own. -/
def nxmtFillStreamStampNeon (stamp : Nat → Word) (seed pass : Word) : Nat → Word :=
  let mask := seed ^^^ (pass * kStreamPassMul)
  let off01 := vsetqLane1 8 (vdupq 0)
  let off23 := vsetqLane1 24 (vdupq 16)
  let stamp := fillVectors4 ram (vdupq mask) (vdupq 32) 0 nxmtStreamStampWords off01 off23 stamp
  Loop.run 1 nxmtStreamStampWords (Loop.exit 4 nxmtStreamStampWords 0)
    (fun k stamp => Function.update stamp k ((BitVec.ofNat 64 k * wordBytes) ^^^ mask)) stamp

def nxmtNeonCopyWordsNeon (dst : Nat) (src : Nat → Word) (words : Nat) (m : σ) : σ :=
  let m := Loop.run 16 words 0
    (fun k m =>
      let a0 := vld1qArray src k
      let a1 := vld1qArray src (k + 2)
      let a2 := vld1qArray src (k + 4)
      let a3 := vld1qArray src (k + 6)
      let a4 := vld1qArray src (k + 8)
      let a5 := vld1qArray src (k + 10)
      let a6 := vld1qArray src (k + 12)
      let a7 := vld1qArray src (k + 14)
      let m := vst1q d (dst + k) a0 m
      let m := vst1q d (dst + (k + 2)) a1 m
      let m := vst1q d (dst + (k + 4)) a2 m
      let m := vst1q d (dst + (k + 6)) a3 m
      let m := vst1q d (dst + (k + 8)) a4 m
      let m := vst1q d (dst + (k + 10)) a5 m
      let m := vst1q d (dst + (k + 12)) a6 m
      vst1q d (dst + (k + 14)) a7 m) m
  Loop.run 1 words (Loop.exit 16 words 0) (fun k m => d.store m (dst + k) (src k)) m

/-- `CHECKER` and `BITSPREAD`: four words a turn, then two, then the odd last one. -/
def writePairsNeon (p chunkWords : Nat) (aFirst bFirst : Word) (m : σ) : σ :=
  let pat := vsetqLane1 bFirst (vdupq aFirst)
  let m := Loop.run 4 chunkWords 0
    (fun k m => vst1q d (p + (k + 2)) pat (vst1q d (p + k) pat m)) m
  let k := Loop.exit 4 chunkWords 0
  let m := Loop.run 2 chunkWords k
    (fun k m => d.store (d.store m (p + k) aFirst) (p + (k + 1)) bFirst) m
  let k := Loop.exit 2 chunkWords k
  if k < chunkWords then d.store m (p + k) aFirst else m

def nxmtWriteChunkNeon (p chunkWords : Nat) (startWord : Word) (phase : NxmtPhase)
    (seed pass : Word) (m : σ) : σ :=
  match phase with
  | .fixedA => memsetWords d p 0xaa chunkWords m
  | .fixed5 => memsetWords d p 0x55 chunkWords m
  | .checker =>
    let aFirst := if startWord &&& 1 ≠ 0 then kFixed5 else kFixedA
    let bFirst := aFirst ^^^ (kFixedA ^^^ kFixed5)
    writePairsNeon d p chunkWords aFirst bFirst m
  | .address =>
    let baseOff := startWord * wordBytes
    let mask := seed ^^^ (pass * kAddrPassMul)
    let mask2 := vdupq mask
    let m := writeVectors8 d (fun v => veorq v mask2) (vdupq 64) p chunkWords
      ⟨vsetqLane1 (baseOff + 8) (vdupq baseOff),
        vsetqLane1 (baseOff + 24) (vdupq (baseOff + 16)),
        vsetqLane1 (baseOff + 40) (vdupq (baseOff + 32)),
        vsetqLane1 (baseOff + 56) (vdupq (baseOff + 48))⟩ m
    Loop.run 1 chunkWords (Loop.exit 8 chunkWords 0)
      (fun k m => d.store m (p + k) ((baseOff + BitVec.ofNat 64 k * wordBytes) ^^^ mask)) m
  | .random =>
    let mask := seed ^^^ (pass * kRandPassMul)
    let mask2 := vdupq mask
    let m := writeVectors8 d (fun idx => veorq (vrev64qU8 idx) mask2) (vdupq 8) p chunkWords
      ⟨vsetqLane1 (startWord + 1) (vdupq startWord),
        vsetqLane1 (startWord + 3) (vdupq (startWord + 2)),
        vsetqLane1 (startWord + 5) (vdupq (startWord + 4)),
        vsetqLane1 (startWord + 7) (vdupq (startWord + 6))⟩ m
    Loop.run 1 chunkWords (Loop.exit 8 chunkWords 0)
      (fun k m => d.store m (p + k) (bswap64 (startWord + BitVec.ofNat 64 k) ^^^ mask)) m
  | .walking =>
    let posBase := startWord + pass
    let m := writeVectors8 d (fun idx => vshlqS64 (vdupq 1) (vandq idx (vdupq 63))) (vdupq 8) p
      chunkWords
      ⟨vsetqLane1 (posBase + 1) (vdupq posBase),
        vsetqLane1 (posBase + 3) (vdupq (posBase + 2)),
        vsetqLane1 (posBase + 5) (vdupq (posBase + 4)),
        vsetqLane1 (posBase + 7) (vdupq (posBase + 6))⟩ m
    Loop.run 1 chunkWords (Loop.exit 8 chunkWords 0)
      (fun k m => d.store m (p + k) (1#64 <<< ((posBase + BitVec.ofNat 64 k) &&& 63))) m
  | .narrow =>
    let byteCount := chunkWords * nxmtWordBytes
    let byteBase := startWord * wordBytes + pass * wordBytes
    Loop.run 1 byteCount 0
      (fun i m =>
        let seedByte := (seed >>> ((BitVec.ofNat 64 i &&& 7) * 8)).setWidth 8
        d.storeByte m (p * nxmtWordBytes + i)
          ((byteBase + BitVec.ofNat 64 i).setWidth 8 ^^^ seedByte)) m
  | .bitspread =>
    let aFirst := if (startWord + pass) &&& 1 ≠ 0 then kBitSpread1 else kBitSpread0
    let bFirst := aFirst ^^^ (kBitSpread0 ^^^ kBitSpread1)
    writePairsNeon d p chunkWords aFirst bFirst m
  | .stream =>
    let stamp := nxmtFillStreamStampNeon (fun _ => 0) seed pass
    (streamTurns chunkWords 0 (streamStart startWord)).foldl
      (fun m turn =>
        nxmtNeonCopyWordsNeon d (p + turn.1) (fun j => stamp (turn.2.1 + j)) turn.2.2 m) m

/-- What the vector loop of an OR reduction leaves: `acc` of the lanes, then the
scalar tail from `k` on. -/
def orTail (p chunkWords k : Nat) (expected : Nat → Word) (accV : U64x2) (m : σ) : Word × σ :=
  let acc := (0 : Word) ||| (accV.lane0 ||| accV.lane1)
  Loop.run 1 chunkWords k (fun k => orLoad d (p + k) (expected k)) (acc, m)

def orAddressNeon (p chunkWords : Nat) (baseOff mask : Word) (m : σ) : Word × σ :=
  let mask2 := vdupq mask
  let step4 := vdupq 32
  let v01 := vsetqLane1 (baseOff + 8) (vdupq baseOff)
  let v23 := vsetqLane1 (baseOff + 24) (vdupq (baseOff + 16))
  let s := Loop.run 4 chunkWords 0
    (fun k (s : (U64x2 × U64x2) × U64x2 × σ) =>
      let e01 := veorq s.1.1 mask2
      let e23 := veorq s.1.2 mask2
      let (a01, m) := vld1q d (p + k) s.2.2
      let (a23, m) := vld1q d (p + (k + 2)) m
      let accV := vorrq s.2.1 (veorq e01 a01)
      let accV := vorrq accV (veorq e23 a23)
      ((vaddq s.1.1 step4, vaddq s.1.2 step4), accV, m))
    ((v01, v23), vdupq 0, m)
  orTail d p chunkWords (Loop.exit 4 chunkWords 0)
    (fun k => (baseOff + BitVec.ofNat 64 k * wordBytes) ^^^ mask) s.2.1 s.2.2

def orRandomNeon (p chunkWords : Nat) (startWord mask : Word) (m : σ) : Word × σ :=
  let mask2 := vdupq mask
  let step2 := vdupq 2
  let idx := vsetqLane1 (startWord + 1) (vdupq startWord)
  let s := Loop.run 2 chunkWords 0
    (fun k (s : U64x2 × U64x2 × σ) =>
      let rev := vrev64qU8 s.1
      let expected := veorq rev mask2
      let (actual, m) := vld1q d (p + k) s.2.2
      (vaddq s.1 step2, vorrq s.2.1 (veorq expected actual), m))
    (idx, vdupq 0, m)
  orTail d p chunkWords (Loop.exit 2 chunkWords 0)
    (fun k => bswap64 (startWord + BitVec.ofNat 64 k) ^^^ mask) s.2.1 s.2.2

/-- Only `ADDRESS`, `RANDOM` and the stamp of `STREAM` are verified by vectors;
the other phases compile as in the portable build. -/
def nxmtVerifyChunkNeon (p chunkWords : Nat) (startWord : Word) (phase : NxmtPhase)
    (config : NxmtRunConfig) (m : σ) : List RecordCall × σ :=
  let seed := config.seed
  let pass := config.pass
  let baseOff := startWord * wordBytes
  match phase with
  | .address =>
    let mask := seed ^^^ (pass * kAddrPassMul)
    let (acc, m) := orAddressNeon d p chunkWords baseOff mask m
    if acc = 0 then ([], m)
    else walkWords d p chunkWords baseOff phase config
      (fun k => (baseOff + BitVec.ofNat 64 k * wordBytes) ^^^ mask) m
  | .random =>
    let mask := seed ^^^ (pass * kRandPassMul)
    let (acc, m) := orRandomNeon d p chunkWords startWord mask m
    if acc = 0 then ([], m)
    else walkWords d p chunkWords baseOff phase config
      (fun k => bswap64 (startWord + BitVec.ofNat 64 k) ^^^ mask) m
  | .stream =>
    let stamp := nxmtFillStreamStampNeon (fun _ => 0) seed pass
    let (mismatch, m) :=
      streamHasMismatch d p stamp (streamTurns chunkWords 0 (streamStart startWord)) m
    if mismatch then
      let mask := seed ^^^ (pass * kStreamPassMul)
      walkWords d p chunkWords baseOff phase config
        (fun k => ((baseOff + BitVec.ofNat 64 k * wordBytes) &&& 0x1fff) ^^^ mask) m
    else ([], m)
  | phase => nxmtVerifyChunk d p chunkWords startWord phase config m

end
end NxMemTest
