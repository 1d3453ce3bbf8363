import NxMemTest.PassTrace
import Mathlib.Tactic.Ring

/-! How far a pass got. It works through the halves of its phases, write and verify
in turn, and a stop cuts it before or inside one of them. -/

namespace NxMemTest
open Interaction Program

/-! ### A pass verifies what it has written -/

/-- What `t` verifies it has written before, or it is among `early`. -/
def VerifiesWritten : List (NxmtPhase × Nat) → List (Event Call.Answer) → Prop
  | _, [] => True
  | early, e :: t => (∀ s ∈ verified e, s ∈ early) ∧ VerifiesWritten (early ++ written e) t

theorem verifiesWritten_append {early : List (NxmtPhase × Nat)} {t u : List (Event Call.Answer)} :
    VerifiesWritten early (t ++ u) ↔
      VerifiesWritten early t ∧ VerifiesWritten (early ++ writtenWords t) u := by
  induction t generalizing early with
  | nil => simp [VerifiesWritten, writtenWords]
  | cons e t ih =>
    simp only [List.cons_append, VerifiesWritten, writtenWords_cons, ih, List.append_assoc, and_assoc]

theorem verifiesWritten_of_mem {early : List (NxmtPhase × Nat)} {t : List (Event Call.Answer)}
    (h : ∀ s ∈ verifiedWords t, s ∈ early) : VerifiesWritten early t := by
  induction t generalizing early with
  | nil => trivial
  | cons e t ih =>
    rw [verifiedWords_cons] at h
    exact ⟨fun s hs => h s (List.mem_append_left _ hs),
      ih fun s hs => List.mem_append_left _ (h s (List.mem_append_right _ hs))⟩

theorem verifiesWritten_none {early : List (NxmtPhase × Nat)} {t : List (Event Call.Answer)}
    (h : verifiedWords t = []) : VerifiesWritten early t :=
  verifiesWritten_of_mem fun _ hs => absurd (h ▸ hs) List.not_mem_nil

theorem halves_verifiesWritten {start count : Nat} {phase : NxmtPhase} {config : NxmtRunConfig}
    {report : NxmtReport} {pressure pressure' pressure'' : Word} {a b : List (Event Call.Answer)}
    {out : Bool × NxmtReport × Word} {early : List (NxmtPhase × Nat)}
    (writes : Path (nxmtWritePhase start count phase config pressure) a (true, pressure'))
    (verifies : Path (nxmtVerifyPhase start count phase config report pressure'') b out) :
    VerifiesWritten early (a ++ b) := by
  obtain ⟨-, verified_a, -, n, ran_a, written_a⟩ := path_nxmtWritePhase writes
  obtain ⟨-, -, -, n', ran_b, verified_b⟩ := path_nxmtVerifyPhase verifies
  refine verifiesWritten_append.2 ⟨verifiesWritten_none verified_a, ?_⟩
  refine verifiesWritten_of_mem fun s hs => List.mem_append_right _ ?_
  rw [verified_b] at hs
  rw [written_a, ran_a.whole rfl]
  exact (words_initial phase start ran_b.le).subset hs

theorem runPhases_verifiesWritten {start count : Nat} {config : NxmtRunConfig} {initialErrors : Word}
    {phases : List NxmtPhase} {report : NxmtReport} {stats : NxmtRunStats} {pressure : Word}
    {t : List (Event Call.Answer)} {out : PassResult} {early : List (NxmtPhase × Nat)}
    (h : Path (runPhases start count config initialErrors phases report stats pressure) t out) :
    VerifiesWritten early t := by
  induction phases generalizing report stats pressure t early with
  | nil =>
    obtain ⟨rfl, -⟩ := path_pure.1 h
    trivial
  | cons phase phases ih =>
    cases path_runPhases_turn h with
    | before poll => exact verifiesWritten_none (path_stopRequested poll).2.2.1
    | writing poll writes =>
      exact verifiesWritten_append.2 ⟨verifiesWritten_none (path_stopRequested poll).2.2.1,
        verifiesWritten_none (path_nxmtWritePhase writes).2.1⟩
    | verifying poll writes verifies =>
      exact verifiesWritten_append.2 ⟨verifiesWritten_none (path_stopRequested poll).2.2.1,
        halves_verifiesWritten writes verifies⟩
    | on poll writes verifies rest =>
      refine verifiesWritten_append.2 ⟨verifiesWritten_none (path_stopRequested poll).2.2.1, ?_⟩
      rw [← List.append_assoc]
      exact verifiesWritten_append.2 ⟨halves_verifiesWritten writes verifies, ih rest⟩

/-! ### Whole halves and the rest -/

theorem phaseWords_take_cons (phase : NxmtPhase) (phases : List NxmtPhase) (start count n : Nat) :
    (phaseWords (phase :: phases) start count).take (count + n) =
      (List.range' start count).map (phase, ·) ++ (phaseWords phases start count).take n := by
  have block : ((List.range' start count).map fun w => (phase, w)).length = count := by simp
  rw [phaseWords, List.flatMap_cons, ← phaseWords, List.take_append, block,
    List.take_of_length_le (by omega), Nat.add_sub_cancel_left]

theorem phaseWords_take_part (phase : NxmtPhase) (phases : List NxmtPhase) (start : Nat)
    {count n : Nat} (le : n ≤ count) :
    (phaseWords (phase :: phases) start count).take n = (List.range' start n).map (phase, ·) := by
  obtain ⟨m, rfl⟩ := Nat.le.dest le
  have part : ((List.range' start n).map fun w => (phase, w)).length = n := by simp
  rw [phaseWords, List.flatMap_cons, words_append, List.append_assoc]
  exact List.take_left' part

/-! ### The last word -/

theorem prefix_of_last {α : Type} {l p : List α} (nodup : l.Nodup) (sub : p <+: l) {a : α}
    (last : l.getLast? = some a) (mem : a ∈ p) : p = l := by
  obtain ⟨r, rfl⟩ := sub
  cases r with
  | nil => exact (List.append_nil p).symm
  | cons b r =>
    rw [List.getLast?_append_of_ne_nil p (by simp)] at last
    exact absurd (List.mem_of_getLast? last) (List.disjoint_of_nodup_append nodup mem)

theorem phaseWords_nodup {phases : List NxmtPhase} (nodup : phases.Nodup) (start count : Nat) :
    (phaseWords phases start count).Nodup := by
  refine List.nodup_flatMap.2 ⟨fun phase _ => ?_, ?_⟩
  · exact List.Nodup.map (fun _ _ same => (Prod.mk.inj same).2) List.nodup_range'
  · refine nodup.imp fun {phase phase'} ne => ?_
    rintro ⟨p, w⟩ hp hp'
    obtain ⟨_, -, same⟩ := List.mem_map.1 hp
    obtain ⟨_, -, same'⟩ := List.mem_map.1 hp'
    exact ne ((Prod.mk.inj same).1.trans (Prod.mk.inj same').1.symm)

theorem phaseWords_getLast {phases : List NxmtPhase} {phase : NxmtPhase}
    (last : phases.getLast? = some phase) (start : Nat) {count : Nat} (some_words : count ≠ 0) :
    (phaseWords phases start count).getLast? = some (phase, start + (count - 1)) := by
  obtain ⟨front, rfl⟩ := List.getLast?_eq_some_iff.1 last
  obtain ⟨n, rfl⟩ := Nat.exists_eq_succ_of_ne_zero some_words
  have ends : List.range' start (n + 1) = List.range' start n ++ [start + n] := by
    rw [← List.range'_append_1]
    rfl
  simp [phaseWords, ends, ← List.append_assoc]

/-! ### What a pass amounts to -/

/-- Of the halves of the listed phases `n` are whole, and of the next one `k` words. -/
structure PassCounts (start count : Nat) (phases : List NxmtPhase) (stats : NxmtRunStats)
    (t : List (Event Call.Answer)) (out : PassResult) (n k : Nat) : Prop where
  quiet_iff : Quiet t ↔ n = 2 * phases.length
  most : n ≤ 2 * phases.length
  rest : k = 0 ∨ k < count ∧ n < 2 * phases.length
  chunks : checkChunk ∣ k
  written_eq : writtenWords t =
    (phaseWords phases start count).take (count * ((n + 1) / 2) + if n % 2 = 0 then k else 0)
  verified_eq : verifiedWords t =
    (phaseWords phases start count).take (count * (n / 2) + if n % 2 = 1 then k else 0)
  bytes : ∃ last pressure, out.stats = some
    ⟨stats.bytesWritten + BitVec.ofNat 64 ((n + 1) / 2) * (BitVec.ofNat 64 count * wordBytes),
      stats.bytesVerified + BitVec.ofNat 64 (n / 2) * (BitVec.ofNat 64 count * wordBytes),
      pressure, last⟩

theorem path_runPhases_counts {start count : Nat} {config : NxmtRunConfig} {initialErrors : Word}
    {phases : List NxmtPhase} {report : NxmtReport} {stats : NxmtRunStats} {pressure : Word}
    {t : List (Event Call.Answer)} {out : PassResult}
    (h : Path (runPhases start count config initialErrors phases report stats pressure) t out) :
    ∃ n k, PassCounts start count phases stats t out n k := by
  induction phases generalizing report stats pressure t with
  | nil =>
    obtain ⟨rfl, rfl⟩ := path_pure.1 h
    exact ⟨0, 0, by simp, by simp, .inl rfl, Nat.dvd_zero _, by simp [writtenWords, phaseWords],
      by simp [verifiedWords, phaseWords], stats.currentPhase, pressure, by simp [finishPass]⟩
  | cons phase phases ih =>
    cases path_runPhases_turn h with
    | before poll =>
      obtain ⟨-, written_u, verified_u, cut⟩ := path_stopRequested poll
      refine ⟨0, 0, ?_, Nat.zero_le _, .inl rfl, Nat.dvd_zero _, by simp [written_u],
        by simp [verified_u], stats.currentPhase, pressure, by simp [finishPass]⟩
      exact iff_of_false (Cut.not_quiet cut) (by simp)
    | @writing u a pressure' poll writes =>
      obtain ⟨-, written_u, verified_u, ends_u⟩ := path_stopRequested poll
      obtain ⟨-, verified_a, ends_a, k, ran_a, written_a⟩ := path_nxmtWritePhase writes
      obtain ⟨lt, chunks⟩ := ran_a.cut rfl
      have cut : Cut (u ++ a) := Ends.append ends_u ends_a
      have part := phaseWords_take_part phase phases start lt.le
      refine ⟨0, k, iff_of_false cut.not_quiet (by simp), Nat.zero_le _, .inr ⟨lt, by simp⟩, chunks,
        ?_, by simp [verified_u, verified_a], phase, pressure', by simp [finishPass]⟩
      simpa [written_u, written_a] using part.symm
    | @verifying u a b pressure' pressure'' report' poll writes verifies =>
      obtain ⟨-, written_u, verified_u, ends_u⟩ := path_stopRequested poll
      obtain ⟨-, verified_a, ends_a, n, ran_a, written_a⟩ := path_nxmtWritePhase writes
      obtain ⟨-, written_b, ends_b, k, ran_b, verified_b⟩ := path_nxmtVerifyPhase verifies
      obtain ⟨lt, chunks⟩ := ran_b.cut rfl
      rw [ran_a.whole rfl] at written_a
      have cut : Cut (u ++ (a ++ b)) := Ends.append ends_u (Ends.append ends_a ends_b)
      have more : 1 < 2 * (phase :: phases).length := by
        rw [List.length_cons]
        omega
      refine ⟨1, k, iff_of_false cut.not_quiet more.ne, more.le, .inr ⟨lt, more⟩, chunks, ?_, ?_,
        phase, pressure'', by simp [finishPass]⟩
      · have part := phaseWords_take_part phase phases start (Nat.le_refl count)
        simpa [written_u, written_a, written_b] using part.symm
      · have part := phaseWords_take_part phase phases start lt.le
        simpa [verified_u, verified_a, verified_b] using part.symm
    | @on u a b y pressure' pressure'' report' out poll writes verifies rest =>
      obtain ⟨-, written_u, verified_u, quiet_u⟩ := path_stopRequested poll
      obtain ⟨-, verified_a, quiet_a, n, ran_a, written_a⟩ := path_nxmtWritePhase writes
      obtain ⟨-, written_b, quiet_b, n', ran_b, verified_b⟩ := path_nxmtVerifyPhase verifies
      obtain ⟨n, k, counts⟩ := ih rest
      rw [ran_a.whole rfl] at written_a
      rw [ran_b.whole rfl] at verified_b
      have halves : (n + 2 + 1) / 2 = (n + 1) / 2 + 1 ∧ (n + 2) / 2 = n / 2 + 1 ∧
          (n + 2) % 2 = n % 2 := by omega
      obtain ⟨write, verify, same⟩ := halves
      refine ⟨n + 2, k, ?_, ?_, ?_, counts.chunks, ?_, ?_, ?_⟩
      · have quiet : Quiet (u ++ (a ++ (b ++ y))) ↔ Quiet y := by
          rw [quiet_append, quiet_append, quiet_append]
          exact (and_iff_right quiet_u).trans ((and_iff_right quiet_a).trans (and_iff_right quiet_b))
        rw [quiet, counts.quiet_iff, List.length_cons]
        omega
      · have most := counts.most
        rw [List.length_cons]
        omega
      · refine counts.rest.imp_right (And.imp_right fun more => ?_)
        rw [List.length_cons]
        omega
      · rw [write, same, Nat.mul_succ, Nat.add_comm _ count, Nat.add_assoc,
          phaseWords_take_cons, ← counts.written_eq]
        simp [written_u, written_a, written_b]
      · rw [verify, same, Nat.mul_succ, Nat.add_comm _ count, Nat.add_assoc,
          phaseWords_take_cons, ← counts.verified_eq]
        simp [verified_u, verified_a, verified_b]
      · obtain ⟨last, pressure, stats_eq⟩ := counts.bytes
        refine ⟨last, pressure, ?_⟩
        rw [stats_eq, write, verify]
        simp only [bytes_turn]

theorem halves_fit {count m k n : Nat} (most : m ≤ n) (rest : k = 0 ∨ k < count ∧ m < n) :
    count * m + k ≤ n * count := by
  rw [Nat.mul_comm n]
  rcases rest with rfl | ⟨lt, more⟩
  · exact Nat.mul_le_mul_left count most
  · have turn := Nat.mul_le_mul_left count more
    rw [Nat.mul_succ] at turn
    omega

theorem bytes_toNat {count n : Nat} (fits : 8 * (count * n) < 2 ^ 64) :
    (BitVec.ofNat 64 n * (BitVec.ofNat 64 count * wordBytes)).toNat = 8 * (count * n) := by
  have eight : wordBytes = BitVec.ofNat 64 8 := rfl
  have same : n * (count * 8) = 8 * (count * n) := by ring
  rw [eight, ← BitVec.ofNat_mul, ← BitVec.ofNat_mul, BitVec.toNat_ofNat, same, Nat.mod_eq_of_lt fits]

section
variable {start count : Nat} {phases : List NxmtPhase} {stats : NxmtRunStats}
  {t : List (Event Call.Answer)} {out : PassResult} {n k : Nat}

theorem PassCounts.written_length (h : PassCounts start count phases stats t out n k) :
    (writtenWords t).length = count * ((n + 1) / 2) + if n % 2 = 0 then k else 0 := by
  have most := h.most
  have rest := h.rest
  rw [h.written_eq, List.length_take, phaseWords_length]
  refine Nat.min_eq_left (halves_fit (by omega) ?_)
  split
  · exact rest.imp_right (And.imp_right fun more => by omega)
  · exact .inl rfl

theorem PassCounts.verified_length (h : PassCounts start count phases stats t out n k) :
    (verifiedWords t).length = count * (n / 2) + if n % 2 = 1 then k else 0 := by
  have most := h.most
  have rest := h.rest
  rw [h.verified_eq, List.length_take, phaseWords_length]
  refine Nat.min_eq_left (halves_fit (by omega) ?_)
  split
  · exact rest.imp_right (And.imp_right fun more => by omega)
  · exact .inl rfl

end

end NxMemTest
