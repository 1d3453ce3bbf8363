import NxMemTest.PassSpec
import NxMemTest.Lib.Mixing

/-! The mixers of `core/patterns.c`, `core/runner.c` and `nx/cpu_filler.c` lose
nothing of the word they mix. -/

namespace NxMemTest

/-- The inner loop of `filler_entry`. -/
def fillerBurst (state : Word) : Word :=
  Loop.run 1 4096 0
    (fun i state =>
      let state := nxmtMix64 (state + BitVec.ofNat 64 i)
      let state := state ^^^ (state <<< 13)
      let state := state ^^^ (state >>> 7)
      state ^^^ (state <<< 17)) state

theorem nxmtMix64_bijective : Function.Bijective nxmtMix64 := by
  have first := Mixing.mul_const
    (show (0xbf58476d1ce4e5b9 : Word) * 0x96de1b173f119089 = 1 from rfl)
  have second := Mixing.mul_const
    (show (0x94d049bb133111eb : Word) * 0x319642b2d24d8ec3 = 1 from rfl)
  have counter := Mixing.add_const (0x9e3779b97f4a7c15 : Word)
  have shift : ∀ k, 0 < k → Function.Bijective fun x : Word => x ^^^ (x >>> k) :=
    fun _ pos => Mixing.xor_ushiftRight pos
  exact (shift 31 (by decide)).comp (second.comp ((shift 27 (by decide)).comp
    (first.comp ((shift 30 (by decide)).comp counter))))

theorem round_bijective (i : Nat) : Function.Bijective fun value : Word =>
    let value := nxmtMix64 (value + BitVec.ofNat 64 i)
    let value := value ^^^ (value <<< 13)
    let value := value ^^^ (value >>> 7)
    value ^^^ (value <<< 17) := by
  have left : ∀ k, 0 < k → Function.Bijective fun x : Word => x ^^^ (x <<< k) :=
    fun _ pos => Mixing.xor_shiftLeft pos
  have right : Function.Bijective fun x : Word => x ^^^ (x >>> 7) :=
    Mixing.xor_ushiftRight (by decide)
  exact (left 17 (by decide)).comp (right.comp ((left 13 (by decide)).comp
    (nxmtMix64_bijective.comp (Mixing.add_const (BitVec.ofNat 64 i)))))

theorem fillerBurst_bijective : Function.Bijective fillerBurst :=
  Mixing.bijective_run round_bijective 1 4096 0

theorem nxmtExtremeCpuPressure_bijective (state : Word) :
    Function.Bijective (nxmtExtremeCpuPressure state) :=
  (Mixing.xor_const state).comp (Mixing.bijective_run round_bijective 1 64 0)

theorem foldl_nxmtExtremeCpuPressure_inj (before after : List Word) (state : Word) {x y : Word} :
    (before ++ x :: after).foldl nxmtExtremeCpuPressure state =
      (before ++ y :: after).foldl nxmtExtremeCpuPressure state ↔ x = y := by
  have step : nxmtExtremeCpuPressure = fun acc a => acc ^^^ nxmtExtremeCpuPressure 0 a :=
    funext fun acc => funext fun a => nxmtExtremeCpuPressure_xor acc a
  -- the words before give the state, those after XOR the same value into both
  rw [List.foldl_append, List.foldl_append, List.foldl_cons, List.foldl_cons]
  have after_inj : ∀ s t : Word, after.foldl nxmtExtremeCpuPressure s =
      after.foldl nxmtExtremeCpuPressure t ↔ s = t := by
    intro s t
    rw [step, BitWord.foldl_xor_out (nxmtExtremeCpuPressure 0) after s,
      BitWord.foldl_xor_out (nxmtExtremeCpuPressure 0) after t]
    exact BitVec.xor_left_inj _
  rw [after_inj]
  exact (nxmtExtremeCpuPressure_bijective _).1.eq_iff

/-- The mixers lose no information: each is a bijection, and two checksums of
words that differ in one word differ. -/
theorem mixers_lose_nothing :
    Function.Bijective nxmtMix64 ∧
      (∀ state, Function.Bijective (nxmtExtremeCpuPressure state)) ∧
      Function.Bijective fillerBurst ∧
      ∀ (state : Word) (before after : List Word),
        Function.Injective fun word =>
          (before ++ word :: after).foldl nxmtExtremeCpuPressure state :=
  ⟨nxmtMix64_bijective, nxmtExtremeCpuPressure_bijective, fillerBurst_bijective,
    fun state before after _ _ same =>
      (foldl_nxmtExtremeCpuPressure_inj before after state).1 same⟩

end NxMemTest
