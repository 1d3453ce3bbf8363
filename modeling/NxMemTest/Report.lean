import NxMemTest.Types
import NxMemTest.Lib.BitWord
import Mathlib.Data.List.Perm.Basic

/-! `source/core/report.c`. A report is an aggregate of the mismatches recorded
so far; `Denotes` says which list of recordings it stands for. -/

namespace NxMemTest

structure NxmtError where
  mode : NxmtMode
  phase : NxmtPhase
  seed : Word
  pass : Word
  workerId : BitVec 32
  offset : Word
  expected : Word
  actual : Word
  xorDiff : Word
  deriving DecidableEq, Repr

structure NxmtReport where
  hasFirstError : Bool
  first : NxmtError
  errorCount : Word
  minErrorOffset : Word
  maxErrorOffset : Word
  bitDiffOr : Word
  deriving DecidableEq, Repr

/-- A report of zero bytes, as `memset` leaves it. -/
def zeroReport : NxmtReport := ⟨false, ⟨.quick, .fixedA, 0, 0, 0, 0, 0, 0, 0⟩, 0, 0, 0, 0⟩

/-- `first` is left as it was. -/
def nxmtReportInit (report : NxmtReport) : NxmtReport :=
  { report with
    hasFirstError := false
    errorCount := 0
    minErrorOffset := 0
    maxErrorOffset := 0
    bitDiffOr := 0 }

def nxmtReportRecordError (report : NxmtReport) (mode : NxmtMode) (phase : NxmtPhase)
    (seed pass : Word) (workerId : BitVec 32) (offset expected actual : Word) : NxmtReport :=
  let diff := expected ^^^ actual
  let report :=
    if !report.hasFirstError then
      { report with
        hasFirstError := true
        first := ⟨mode, phase, seed, pass, workerId, offset, expected, actual, diff⟩
        minErrorOffset := offset
        maxErrorOffset := offset }
    else
      { report with
        minErrorOffset := if offset < report.minErrorOffset then offset else report.minErrorOffset
        maxErrorOffset := if offset > report.maxErrorOffset then offset else report.maxErrorOffset }
  { report with
    errorCount := report.errorCount + 1
    bitDiffOr := report.bitDiffOr ||| diff }

def nxmtReportMerge (dst src : NxmtReport) : NxmtReport :=
  if src.errorCount = 0 then dst
  else
    let dst :=
      if !dst.hasFirstError && src.hasFirstError then
        { dst with
          hasFirstError := true
          first := src.first
          minErrorOffset := src.minErrorOffset
          maxErrorOffset := src.maxErrorOffset }
      else
        { dst with
          minErrorOffset :=
            if src.minErrorOffset < dst.minErrorOffset then src.minErrorOffset else dst.minErrorOffset
          maxErrorOffset :=
            if src.maxErrorOffset > dst.maxErrorOffset then src.maxErrorOffset else dst.maxErrorOffset }
    { dst with
      errorCount := dst.errorCount + src.errorCount
      bitDiffOr := dst.bitDiffOr ||| src.bitDiffOr }

structure RecordCall where
  mode : NxmtMode
  phase : NxmtPhase
  seed : Word
  pass : Word
  workerId : BitVec 32
  offset : Word
  expected : Word
  actual : Word
  deriving DecidableEq, Repr

namespace RecordCall

def diff (c : RecordCall) : Word := c.expected ^^^ c.actual

def error (c : RecordCall) : NxmtError :=
  ⟨c.mode, c.phase, c.seed, c.pass, c.workerId, c.offset, c.expected, c.actual, c.diff⟩

end RecordCall

namespace NxmtReport

def record (report : NxmtReport) (c : RecordCall) : NxmtReport :=
  nxmtReportRecordError report c.mode c.phase c.seed c.pass c.workerId c.offset c.expected c.actual

def recordAll (report : NxmtReport) (calls : List RecordCall) : NxmtReport :=
  calls.foldl record report

@[simp] theorem recordAll_nil (r : NxmtReport) : r.recordAll [] = r := rfl

@[simp] theorem recordAll_cons (r : NxmtReport) (c : RecordCall) (l : List RecordCall) :
    r.recordAll (c :: l) = (r.record c).recordAll l := rfl

theorem recordAll_append (r : NxmtReport) (l l' : List RecordCall) :
    r.recordAll (l ++ l') = (r.recordAll l).recordAll l' := List.foldl_append

@[simp] theorem record_errorCount (r : NxmtReport) (c : RecordCall) :
    (r.record c).errorCount = r.errorCount + 1 := by
  simp only [record, nxmtReportRecordError]
  split <;> rfl

theorem recordAll_errorCount (r : NxmtReport) (l : List RecordCall) :
    (r.recordAll l).errorCount = r.errorCount + BitVec.ofNat 64 l.length := by
  induction l generalizing r with
  | nil => simp
  | cons c l ih =>
    rw [recordAll_cons, ih, record_errorCount, List.length_cons, BitVec.add_assoc,
      Nat.add_comm, BitVec.ofNat_add]
    rfl

theorem recordAll_errorCount_eq (r : NxmtReport) {l : List RecordCall}
    (few : l.length < 2 ^ 64) : (r.recordAll l).errorCount = r.errorCount ↔ l = [] := by
  rw [recordAll_errorCount]
  constructor
  · intro h
    have zero : BitVec.ofNat 64 l.length = 0#64 := by simpa using h
    have len := congrArg BitVec.toNat zero
    rw [BitVec.toNat_ofNat, Nat.mod_eq_of_lt few] at len
    exact List.length_eq_zero_iff.1 len
  · rintro rfl
    simp

end NxmtReport

structure Denotes (r : NxmtReport) (l : List RecordCall) : Prop where
  hasFirst : r.hasFirstError = true ↔ l ≠ []
  count : r.errorCount = BitVec.ofNat 64 l.length
  first : ∀ c ∈ l.head?, r.first = c.error
  least : ∀ c ∈ l, r.minErrorOffset ≤ c.offset
  least_mem : l ≠ [] → ∃ c ∈ l, c.offset = r.minErrorOffset
  greatest : ∀ c ∈ l, c.offset ≤ r.maxErrorOffset
  greatest_mem : l ≠ [] → ∃ c ∈ l, c.offset = r.maxErrorOffset
  none : l = [] → r.minErrorOffset = 0 ∧ r.maxErrorOffset = 0
  diffs : r.bitDiffOr = (l.map RecordCall.diff).foldr (· ||| ·) 0

namespace Denotes
open NxmtReport

theorem init (r : NxmtReport) : Denotes (nxmtReportInit r) [] where
  hasFirst := by simp [nxmtReportInit]
  count := rfl
  first := by simp
  least := by simp
  least_mem := fun h => absurd rfl h
  greatest := by simp
  greatest_mem := fun h => absurd rfl h
  none := fun _ => ⟨rfl, rfl⟩
  diffs := rfl

theorem errorCount_eq_zero {r : NxmtReport} {l : List RecordCall} (h : Denotes r l)
    (few : l.length < 2 ^ 64) : r.errorCount = 0 ↔ l = [] := by
  rw [h.count]
  constructor
  · intro hz
    have len := congrArg BitVec.toNat hz
    rw [BitVec.toNat_ofNat, Nat.mod_eq_of_lt few] at len
    exact List.length_eq_zero_iff.1 len
  · rintro rfl
    rfl

theorem merge {r r' : NxmtReport} {l l' : List RecordCall} (h : Denotes r l) (h' : Denotes r' l')
    (few : l'.length < 2 ^ 64) : Denotes (nxmtReportMerge r r') (l ++ l') := by
  by_cases empty' : l' = []
  · subst empty'
    have zero : r'.errorCount = 0 := h'.count
    rw [nxmtReportMerge, if_pos zero, List.append_nil]
    exact h
  have zero : r'.errorCount ≠ 0 := mt (h'.errorCount_eq_zero few).1 empty'
  have has' : r'.hasFirstError = true := h'.hasFirst.2 empty'
  rw [nxmtReportMerge, if_neg zero]
  by_cases empty : l = []
  · -- the empty destination takes over the extremes of the source
    subst empty
    have has : r.hasFirstError = false := by simpa using h.hasFirst
    have diffs : r.bitDiffOr = 0 := h.diffs
    have count : r.errorCount = 0 := h.count
    simp only [has, has', Bool.not_false, Bool.and_self, if_true, List.nil_append, diffs, count]
    refine ⟨by simp [empty'], ?_, h'.first, h'.least, h'.least_mem, h'.greatest,
      h'.greatest_mem, h'.none, ?_⟩
    · simpa using h'.count
    · simpa using h'.diffs
  · have has : r.hasFirstError = true := h.hasFirst.2 empty
    obtain ⟨c, hc, hmin⟩ := h.least_mem empty
    obtain ⟨c', hc', hmin'⟩ := h'.least_mem empty'
    obtain ⟨d, hd, hmax⟩ := h.greatest_mem empty
    obtain ⟨d', hd', hmax'⟩ := h'.greatest_mem empty'
    simp only [has, has', Bool.not_true, Bool.false_and, Bool.false_eq_true, if_false]
    refine ⟨?_, ?_, ?_, ?_, ?_, ?_, ?_, ?_, ?_⟩
    · simp [empty]
    · rw [h.count, h'.count, List.length_append, BitVec.ofNat_add]
    · intro e he
      rw [List.head?_append_of_ne_nil _ empty] at he
      exact h.first e he
    · intro e he
      rcases List.mem_append.1 he with he | he
      · have := h.least e he
        dsimp only
        split <;> bv_omega
      · have := h'.least e he
        dsimp only
        split <;> bv_omega
    · intro _
      dsimp only
      split
      · exact ⟨c', List.mem_append_right _ hc', hmin'⟩
      · exact ⟨c, List.mem_append_left _ hc, hmin⟩
    · intro e he
      rcases List.mem_append.1 he with he | he
      · have := h.greatest e he
        dsimp only
        split <;> bv_omega
      · have := h'.greatest e he
        dsimp only
        split <;> bv_omega
    · intro _
      dsimp only
      split
      · exact ⟨d', List.mem_append_right _ hd', hmax'⟩
      · exact ⟨d, List.mem_append_left _ hd, hmax⟩
    · intro he
      exact absurd (List.append_eq_nil_iff.1 he).1 empty
    · rw [List.map_append, BitWord.foldr_or_append, ← h.diffs, ← h'.diffs]

theorem record_eq_merge (r : NxmtReport) (c : RecordCall) :
    r.record c = nxmtReportMerge r ((nxmtReportInit r).record c) := by
  simp only [NxmtReport.record, nxmtReportRecordError, nxmtReportMerge, nxmtReportInit]
  cases r.hasFirstError <;> simp

theorem single (r : NxmtReport) (c : RecordCall) : Denotes ((nxmtReportInit r).record c) [c] := by
  refine ⟨?_, rfl, ?_, ?_, ?_, ?_, ?_, ?_, ?_⟩ <;>
    simp [NxmtReport.record, nxmtReportRecordError, nxmtReportInit, RecordCall.error,
      RecordCall.diff]

theorem record {r : NxmtReport} {l : List RecordCall} (h : Denotes r l) (c : RecordCall) :
    Denotes (r.record c) (l ++ [c]) := by
  rw [record_eq_merge]
  exact h.merge (single r c) (by simp)

theorem recordAll {r : NxmtReport} {l : List RecordCall} (h : Denotes r l)
    (calls : List RecordCall) : Denotes (r.recordAll calls) (l ++ calls) := by
  induction calls generalizing r l with
  | nil => simpa using h
  | cons c calls ih =>
    rw [recordAll_cons]
    have step := ih (h.record c)
    rwa [List.append_assoc] at step

theorem aggregate_eq {r r' : NxmtReport} {l l' : List RecordCall} (h : Denotes r l)
    (h' : Denotes r' l')
    (perm : (l.map fun c => (c.offset, c.diff)).Perm (l'.map fun c => (c.offset, c.diff))) :
    r.hasFirstError = r'.hasFirstError ∧ r.errorCount = r'.errorCount ∧
      r.minErrorOffset = r'.minErrorOffset ∧ r.maxErrorOffset = r'.maxErrorOffset ∧
      r.bitDiffOr = r'.bitDiffOr := by
  have len : l.length = l'.length := by simpa using perm.length_eq
  have nil : l = [] ↔ l' = [] := by
    rw [← List.length_eq_zero_iff, ← List.length_eq_zero_iff, len]
  have offsets : ∀ o, (∃ c ∈ l, c.offset = o) ↔ ∃ c ∈ l', c.offset = o := by
    intro o
    have mem := (perm.map Prod.fst).mem_iff (a := o)
    simpa only [List.map_map, List.mem_map, Function.comp] using mem
  have diffs : (l.map RecordCall.diff).foldr (· ||| ·) (0 : Word) =
      (l'.map RecordCall.diff).foldr (· ||| ·) 0 := by
    have p := perm.map Prod.snd
    simp only [List.map_map, Function.comp_def] at p
    refine p.foldr_eq' (fun x _ y _ z => ?_) 0
    rw [← BitVec.or_assoc, BitVec.or_comm y x, BitVec.or_assoc]
  refine ⟨?_, by rw [h.count, h'.count, len], ?_, ?_, by rw [h.diffs, h'.diffs, diffs]⟩
  · rw [Bool.eq_iff_iff, h.hasFirst, h'.hasFirst]
    exact not_congr nil
  · by_cases empty : l = []
    · rw [(h.none empty).1, (h'.none (nil.1 empty)).1]
    · obtain ⟨c, hc, hmin⟩ := (offsets _).1 (h.least_mem empty)
      obtain ⟨d, hd, hmin'⟩ := (offsets _).2 (h'.least_mem (mt nil.2 empty))
      exact BitVec.le_antisymm (hmin' ▸ h.least d hd) (hmin ▸ h'.least c hc)
  · by_cases empty : l = []
    · rw [(h.none empty).2, (h'.none (nil.1 empty)).2]
    · obtain ⟨c, hc, hmax⟩ := (offsets _).1 (h.greatest_mem empty)
      obtain ⟨d, hd, hmax'⟩ := (offsets _).2 (h'.greatest_mem (mt nil.2 empty))
      exact BitVec.le_antisymm (hmax ▸ h'.greatest c hc) (hmax' ▸ h.greatest d hd)

end Denotes
end NxMemTest
