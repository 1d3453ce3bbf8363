import NxMemTest.Report

/-! Reports built by any mixture of recordings and merges. Such a report stands
for the list of its recordings, so merging obeys the laws of appending lists. -/

namespace NxMemTest

/-- A report made by the three functions of `report.c`. The argument of `init` is
what the memory of the report held before. -/
inductive ReportTree where
  | init (report : NxmtReport)
  | record (tree : ReportTree) (call : RecordCall)
  | merge (dst src : ReportTree)

namespace ReportTree

def report : ReportTree → NxmtReport
  | init report => nxmtReportInit report
  | record tree call => tree.report.record call
  | merge dst src => nxmtReportMerge dst.report src.report

def calls : ReportTree → List RecordCall
  | init _ => []
  | record tree call => tree.calls ++ [call]
  | merge dst src => dst.calls ++ src.calls

theorem denotes (tree : ReportTree) (few : tree.calls.length < 2 ^ 64) :
    Denotes tree.report tree.calls := by
  induction tree with
  | init report => exact Denotes.init report
  | record tree call ih =>
    rw [calls, List.length_append] at few
    exact (ih (by omega)).record call
  | merge dst src dst_ih src_ih =>
    rw [calls, List.length_append] at few
    exact (dst_ih (by omega)).merge (src_ih (by omega)) (by omega)

end ReportTree

namespace NxmtReport

structure SameAggregate (r r' : NxmtReport) : Prop where
  has : r.hasFirstError = r'.hasFirstError
  count : r.errorCount = r'.errorCount
  least : r.minErrorOffset = r'.minErrorOffset
  greatest : r.maxErrorOffset = r'.maxErrorOffset
  diffs : r.bitDiffOr = r'.bitDiffOr

/-- `first` counts only where there is a first error. -/
structure Same (r r' : NxmtReport) : Prop extends SameAggregate r r' where
  first : r.hasFirstError = true → r.first = r'.first

end NxmtReport

namespace Denotes
variable {r r' : NxmtReport} {l l' : List RecordCall}

theorem sameAggregate (h : Denotes r l) (h' : Denotes r' l') (perm : l.Perm l') :
    r.SameAggregate r' := by
  obtain ⟨has, count, least, greatest, diffs⟩ := h.aggregate_eq h' (perm.map _)
  exact ⟨has, count, least, greatest, diffs⟩

theorem same (h : Denotes r l) (h' : Denotes r' l) : r.Same r' := by
  refine ⟨h.sameAggregate h' (.refl l), fun has => ?_⟩
  cases l with
  | nil => exact absurd rfl (h.hasFirst.1 has)
  | cons c l => rw [h.first c (by simp), h'.first c (by simp)]

theorem errorCount_toNat (h : Denotes r l) (few : l.length < 2 ^ 64) :
    r.errorCount.toNat = l.length := by
  rw [h.count, BitVec.toNat_ofNat, Nat.mod_eq_of_lt few]

theorem hasFirst_iff (h : Denotes r l) (few : l.length < 2 ^ 64) :
    r.hasFirstError = true ↔ r.errorCount ≠ 0 := by
  rw [h.hasFirst]
  exact not_congr (h.errorCount_eq_zero few).symm

end Denotes

/-- Reports aggregate like lists: a report stands for its recordings, merging
appends them, and so it is associative, has the empty report as its unit on both
sides and leaves everything but `first` independent of the order. -/
theorem reportTree_homomorphism :
    (∀ tree : ReportTree, tree.calls.length < 2 ^ 64 →
      Denotes tree.report tree.calls ∧ tree.report.errorCount.toNat = tree.calls.length ∧
        (tree.report.hasFirstError = true ↔ tree.report.errorCount ≠ 0)) ∧
    (∀ a b c : ReportTree, a.calls.length + b.calls.length + c.calls.length < 2 ^ 64 →
      ((a.merge b).merge c).report.Same (a.merge (b.merge c)).report) ∧
    (∀ (a : ReportTree) (empty : ReportTree), a.calls.length < 2 ^ 64 → empty.calls = [] →
      (a.merge empty).report.Same a.report ∧ (empty.merge a).report.Same a.report) ∧
    ∀ a b : ReportTree, a.calls.length < 2 ^ 64 → a.calls.Perm b.calls →
      a.report.SameAggregate b.report := by
  refine ⟨fun tree few => ?_, fun a b c few => ?_, fun a empty few none => ?_,
    fun a b few perm => ?_⟩
  · have denotes := tree.denotes few
    exact ⟨denotes, denotes.errorCount_toNat few, denotes.hasFirst_iff few⟩
  · have left := ((a.merge b).merge c).denotes (by
      simp only [ReportTree.calls, List.length_append]
      omega)
    have right := (a.merge (b.merge c)).denotes (by
      simp only [ReportTree.calls, List.length_append]
      omega)
    rw [ReportTree.calls, ReportTree.calls, List.append_assoc] at left
    exact left.same right
  · have whole := a.denotes few
    have after := (a.merge empty).denotes (by simpa [ReportTree.calls, none] using few)
    have before := (empty.merge a).denotes (by simpa [ReportTree.calls, none] using few)
    rw [ReportTree.calls, none, List.append_nil] at after
    rw [ReportTree.calls, none, List.nil_append] at before
    exact ⟨after.same whole, before.same whole⟩
  · have few' : b.calls.length < 2 ^ 64 := perm.length_eq ▸ few
    exact (a.denotes few).sameAggregate (b.denotes few') perm

/-- Two recordings merged into an empty report and into each other. -/
theorem reportTree_homomorphism_two :
    let low := (ReportTree.init zeroReport).record ⟨.quick, .address, 1, 0, 0, 8, 9, 1⟩
    let high := (ReportTree.init zeroReport).record ⟨.quick, .address, 1, 0, 1, 64, 65, 1⟩
    low.report.Same (low.merge (.init zeroReport)).report ∧
      (low.merge high).report.SameAggregate (high.merge low).report := by
  intro low high
  obtain ⟨-, -, neutral, order⟩ := reportTree_homomorphism
  obtain ⟨⟨⟨has, count, least, greatest, diffs⟩, first⟩, -⟩ :=
    neutral low (.init zeroReport) (by decide) rfl
  refine ⟨⟨⟨has.symm, count.symm, least.symm, greatest.symm, diffs.symm⟩, fun some => ?_⟩, ?_⟩
  · exact (first (has.trans some)).symm
  · exact order (low.merge high) (high.merge low) (by decide) (List.Perm.swap _ _ _)

end NxMemTest
