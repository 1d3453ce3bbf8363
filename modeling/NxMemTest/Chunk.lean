import NxMemTest.Patterns
import NxMemTest.Report
import NxMemTest.Lib.Loop
import NxMemTest.Lib.BitWord

/-! The chunk writer and verifier of `source/core/runner.c` as a build without
NEON compiles them, over any memory device. A `uint64_t *` is the number of
words it lies past `arena->base`; loop counters are natural numbers, since a
chunk that exists has fewer than `2^61` words, and everything computed from
them is reduced to 64 bits. -/

namespace NxMemTest

/-- Where loads and stores go. A load may change the state, so that a device can
answer the same load differently each time. -/
structure Device (σ : Type) where
  load : σ → Nat → Word × σ
  store : σ → Nat → Word → σ
  storeByte : σ → Nat → BitVec 8 → σ

abbrev Ram := Nat → Word

def Ram.storeByte (m : Ram) (q : Nat) (b : BitVec 8) : Ram :=
  Function.update m (q / 8)
    ((m (q / 8) &&& ~~~(0xff#64 <<< (8 * (q % 8)))) ||| (b.setWidth 64 <<< (8 * (q % 8))))

/-- Working memory: little-endian words that read back as stored. -/
def ram : Device Ram where
  load m p := (m p, m)
  store m p v := Function.update m p v
  storeByte := Ram.storeByte

def kFixedA : Word := 0xaaaaaaaaaaaaaaaa
def kFixed5 : Word := 0x5555555555555555
def kAddrPassMul : Word := 0x100000001b3
def kRandPassMul : Word := 0x9e3779b97f4a7c15
def kStreamPassMul : Word := 0xbf58476d1ce4e5b9
def kBitSpread0 : Word := 0x4924924924924924
def kBitSpread1 : Word := 0xb6db6db6db6db6db

def nxmtStreamStampWords : Nat := 1024

def wordBytes : Word := BitVec.ofNat 64 nxmtWordBytes

/-- The array `stamp` after the call; it held `stamp` before. -/
def nxmtFillStreamStamp (stamp : Nat → Word) (seed pass : Word) : Nat → Word :=
  let mask := seed ^^^ (pass * kStreamPassMul)
  Loop.run 1 nxmtStreamStampWords 0
    (fun k stamp => Function.update stamp k ((BitVec.ofNat 64 k * wordBytes) ^^^ mask)) stamp

/-- The `(k, stamp_pos, copy)` of each turn of the `while (k < chunk_words)`
loop that walks a chunk and the stamp together. -/
def streamTurns (chunkWords k : Nat) (stampPos : Fin 1024) : List (Nat × Nat × Nat) :=
  if k < chunkWords then
    let need := chunkWords - k
    let avail := nxmtStreamStampWords - stampPos
    let copy := min need avail
    (k, stampPos, copy) ::
      streamTurns chunkWords (k + copy)
        ⟨(stampPos + copy) &&& (nxmtStreamStampWords - 1), Nat.and_lt_two_pow (n := 10) _ (by decide)⟩
  else []
termination_by chunkWords - k
decreasing_by
  have pos := stampPos.isLt
  simp only [nxmtStreamStampWords]
  omega

/-- `start_word & (NXMT_STREAM_STAMP_WORDS - 1)` -/
def streamStart (startWord : Word) : Fin 1024 :=
  ⟨startWord.toNat &&& (nxmtStreamStampWords - 1), Nat.and_lt_two_pow (n := 10) _ (by decide)⟩

section
variable {σ : Type} (d : Device σ)

/-- `memset` over whole words. -/
def memsetWords (p : Nat) (byte : BitVec 8) (words : Nat) (m : σ) : σ :=
  Loop.run 1 words 0 (fun k m => d.store m (p + k) (byte.replicate 8)) m

def nxmtNeonCopyWords (dst : Nat) (src : Nat → Word) (words : Nat) (m : σ) : σ :=
  Loop.run 1 words 0 (fun k m => d.store m (dst + k) (src k)) m

/-- The two-word loop of `CHECKER` and `BITSPREAD` with its odd last word. -/
def writePairs (p chunkWords : Nat) (aFirst bFirst : Word) (m : σ) : σ :=
  let m := Loop.run 2 chunkWords 0
    (fun k m => d.store (d.store m (p + k) aFirst) (p + (k + 1)) bFirst) m
  let k := Loop.exit 2 chunkWords 0
  if k < chunkWords then d.store m (p + k) aFirst else m

def nxmtWriteChunk (p chunkWords : Nat) (startWord : Word) (phase : NxmtPhase)
    (seed pass : Word) (m : σ) : σ :=
  match phase with
  | .fixedA => memsetWords d p 0xaa chunkWords m
  | .fixed5 => memsetWords d p 0x55 chunkWords m
  | .checker =>
    let aFirst := if startWord &&& 1 ≠ 0 then kFixed5 else kFixedA
    let bFirst := aFirst ^^^ (kFixedA ^^^ kFixed5)
    writePairs d p chunkWords aFirst bFirst m
  | .address =>
    let baseOff := startWord * wordBytes
    let mask := seed ^^^ (pass * kAddrPassMul)
    Loop.run 1 chunkWords 0
      (fun k m => d.store m (p + k) ((baseOff + BitVec.ofNat 64 k * wordBytes) ^^^ mask)) m
  | .random =>
    let mask := seed ^^^ (pass * kRandPassMul)
    Loop.run 1 chunkWords 0
      (fun k m => d.store m (p + k) (bswap64 (startWord + BitVec.ofNat 64 k) ^^^ mask)) m
  | .walking =>
    let posBase := startWord + pass
    Loop.run 1 chunkWords 0
      (fun k m => d.store m (p + k) (1#64 <<< ((posBase + BitVec.ofNat 64 k) &&& 63))) m
  | .narrow =>
    let byteCount := chunkWords * nxmtWordBytes
    let byteBase := startWord * wordBytes + pass * wordBytes
    Loop.run 1 byteCount 0
      (fun i m =>
        let seedByte := (seed >>> ((BitVec.ofNat 64 i &&& 7) * 8)).setWidth 8
        d.storeByte m (p * nxmtWordBytes + i)
          ((byteBase + BitVec.ofNat 64 i).setWidth 8 ^^^ seedByte)) m
  | .bitspread =>
    let aFirst := if (startWord + pass) &&& 1 ≠ 0 then kBitSpread1 else kBitSpread0
    let bFirst := aFirst ^^^ (kBitSpread0 ^^^ kBitSpread1)
    writePairs d p chunkWords aFirst bFirst m
  | .stream =>
    let stamp := nxmtFillStreamStamp (fun _ => 0) seed pass
    (streamTurns chunkWords 0 (streamStart startWord)).foldl
      (fun m turn =>
        nxmtNeonCopyWords d (p + turn.1) (fun j => stamp (turn.2.1 + j)) turn.2.2 m) m

/-- `acc |= (*q ^ expected)` -/
def orLoad (q : Nat) (expected : Word) (s : Word × σ) : Word × σ :=
  let (actual, m) := d.load s.2 q
  (s.1 ||| (actual ^^^ expected), m)

def nxmtChunkHasMismatchFixed (p n : Nat) (target : Word) (m : σ) : Bool × σ :=
  let (acc, m) := Loop.run 1 n 0 (fun k => orLoad d (p + k) target) (0, m)
  (acc ≠ 0, m)

def orWords (p chunkWords : Nat) (expected : Nat → Word) (m : σ) : Word × σ :=
  Loop.run 1 chunkWords 0 (fun k => orLoad d (p + k) (expected k)) (0, m)

def orPairs (p chunkWords : Nat) (aFirst bFirst : Word) (m : σ) : Word × σ :=
  let s := Loop.run 2 chunkWords 0
    (fun k s => orLoad d (p + (k + 1)) bFirst (orLoad d (p + k) aFirst s)) (0, m)
  if chunkWords % 2 ≠ 0 then orLoad d (p + (chunkWords - 1)) aFirst s else s

/-- `memcmp(q, src, words * 8) != 0`, read word by word up to the first difference. -/
def memcmpWords (q : Nat) (src : Nat → Word) : Nat → σ → Bool × σ
  | 0, m => (false, m)
  | words + 1, m =>
    let (actual, m) := d.load m q
    if actual ≠ src 0 then (true, m) else memcmpWords (q + 1) (fun j => src (j + 1)) words m

/-- The comparison loop of `STREAM`, left at the first mismatch. -/
def streamHasMismatch (p : Nat) (stamp : Nat → Word) : List (Nat × Nat × Nat) → σ → Bool × σ
  | [], m => (false, m)
  | (k, stampPos, cmp) :: rest, m =>
    let (differs, m) := memcmpWords d (p + k) (fun j => stamp (stampPos + j)) cmp m
    if differs then (true, m) else streamHasMismatch p stamp rest m

/-- `actual = p[k]; if (actual != expected) nxmt_report_record_error(...)` -/
def walkWord (p : Nat) (baseOff : Word) (phase : NxmtPhase) (config : NxmtRunConfig)
    (expected : Nat → Word) (k : Nat) (s : List RecordCall × σ) : List RecordCall × σ :=
  let (actual, m) := d.load s.2 (p + k)
  if actual ≠ expected k then
    (s.1 ++ [⟨config.mode, phase, config.seed, config.pass, config.workerId,
      baseOff + BitVec.ofNat 64 k * wordBytes, expected k, actual⟩], m)
  else (s.1, m)

def walkWords (p chunkWords : Nat) (baseOff : Word) (phase : NxmtPhase) (config : NxmtRunConfig)
    (expected : Nat → Word) (m : σ) : List RecordCall × σ :=
  Loop.run 1 chunkWords 0 (walkWord d p baseOff phase config expected) ([], m)

/-- The verifier only ever appends to the report, so its calls of
`nxmt_report_record_error` are its result; the caller applies them. -/
def nxmtVerifyChunk (p chunkWords : Nat) (startWord : Word) (phase : NxmtPhase)
    (config : NxmtRunConfig) (m : σ) : List RecordCall × σ :=
  let seed := config.seed
  let pass := config.pass
  let baseOff := startWord * wordBytes
  match phase with
  | .fixedA | .fixed5 =>
    let target := if phase = .fixedA then kFixedA else kFixed5
    let (mismatch, m) := nxmtChunkHasMismatchFixed d p chunkWords target m
    if mismatch then walkWords d p chunkWords baseOff phase config (fun _ => target) m else ([], m)
  | .checker =>
    let aFirst := if startWord &&& 1 ≠ 0 then kFixed5 else kFixedA
    let bFirst := aFirst ^^^ (kFixedA ^^^ kFixed5)
    let (acc, m) := orPairs d p chunkWords aFirst bFirst m
    if acc = 0 then ([], m)
    else walkWords d p chunkWords baseOff phase config
      (fun k => if (startWord + BitVec.ofNat 64 k) &&& 1 ≠ 0 then kFixed5 else kFixedA) m
  | .address =>
    let mask := seed ^^^ (pass * kAddrPassMul)
    let expected k := (baseOff + BitVec.ofNat 64 k * wordBytes) ^^^ mask
    let (acc, m) := orWords d p chunkWords expected m
    if acc = 0 then ([], m) else walkWords d p chunkWords baseOff phase config expected m
  | .random =>
    let mask := seed ^^^ (pass * kRandPassMul)
    let expected k := bswap64 (startWord + BitVec.ofNat 64 k) ^^^ mask
    let (acc, m) := orWords d p chunkWords expected m
    if acc = 0 then ([], m) else walkWords d p chunkWords baseOff phase config expected m
  | .walking =>
    let posBase := startWord + pass
    walkWords d p chunkWords baseOff phase config
      (fun k => 1#64 <<< ((posBase + BitVec.ofNat 64 k) &&& 63)) m
  | .narrow =>
    let passOff := pass * wordBytes
    let expected k :=
      let X := (baseOff + BitVec.ofNat 64 k * wordBytes + passOff) &&& 0xff
      (X * 0x0101010101010101) ^^^ 0x0706050403020100 ^^^ seed
    let (acc, m) := orWords d p chunkWords expected m
    if acc = 0 then ([], m) else walkWords d p chunkWords baseOff phase config expected m
  | .bitspread =>
    let aFirst := if (startWord + pass) &&& 1 ≠ 0 then kBitSpread1 else kBitSpread0
    let bFirst := aFirst ^^^ (kBitSpread0 ^^^ kBitSpread1)
    let (acc, m) := orPairs d p chunkWords aFirst bFirst m
    if acc = 0 then ([], m)
    else walkWords d p chunkWords baseOff phase config
      (fun k => if (startWord + BitVec.ofNat 64 k + pass) &&& 1 ≠ 0 then kBitSpread1
        else kBitSpread0) m
  | .stream =>
    let stamp := nxmtFillStreamStamp (fun _ => 0) seed pass
    let (mismatch, m) :=
      streamHasMismatch d p stamp (streamTurns chunkWords 0 (streamStart startWord)) m
    if mismatch then
      let mask := seed ^^^ (pass * kStreamPassMul)
      walkWords d p chunkWords baseOff phase config
        (fun k => ((baseOff + BitVec.ofNat 64 k * wordBytes) &&& 0x1fff) ^^^ mask) m
    else ([], m)

end
end NxMemTest
