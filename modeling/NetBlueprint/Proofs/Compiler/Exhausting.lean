import NetBlueprint.Proofs.Compiler.Maintaining

/-!
Contract: requests for suffixes that are never served.

The stream of random words repeats itself, and from some attempt on all attempts spell their words
in the same way. So a request that has tried as many words as it is allowed to has seen every
suffix that it could ever come to: if all of them are in use, no number of further words helps.

Owns: that the limit on attempts is no limit on what a request can reach.
-/

namespace NetBlueprint

namespace Suffix

private theorem ofNat_add_mul (number times : Nat) :
    UInt32.ofNat (number + times * 4294967296) = UInt32.ofNat number := by
  rw [← UInt32.toNat_inj, UInt32.toNat_ofNat', UInt32.toNat_ofNat', Nat.add_mul_mod_self_right]

private theorem initialBlock_add_mul (seed : UInt64) (block times : Nat) :
    initialBlock seed (block + times * 18446744073709551616) = initialBlock seed block := by
  have low : UInt32.ofNat (block + times * 18446744073709551616) = UInt32.ofNat block := by
    rw [show times * 18446744073709551616 = times * 4294967296 * 4294967296 by omega]
    exact ofNat_add_mul block _
  have high : UInt32.ofNat ((block + times * 18446744073709551616) / Nat.pow 2 32) =
      UInt32.ofNat (block / Nat.pow 2 32) := by
    have isPower : Nat.pow 2 32 = 4294967296 := rfl
    have quotient : (block + times * 18446744073709551616) / Nat.pow 2 32 =
        block / Nat.pow 2 32 + times * 4294967296 := by
      rw [isPower]
      omega
    rw [quotient]
    exact ofNat_add_mul _ times
  rw [initialBlock, initialBlock, low, high]

/-- The stream repeats itself. -/
theorem randomWord_add_period (seed : UInt64) (position times : Nat) :
    randomWord seed (position + times * period) = randomWord seed position := by
  have isPeriod : period = 18446744073709551616 * 16 := rfl
  have block : (position + times * period) / 16 =
      position / 16 + times * 18446744073709551616 := by
    rw [isPeriod]
    omega
  have place : (position + times * period) % 16 = position % 16 := by
    rw [isPeriod]
    omega
  rw [randomWord, randomWord, block, place, initialBlock_add_mul]

/-- An attempt beyond the limit gives the same suffix as one within it. -/
theorem exists_attempt_lt (label : String) (seed : UInt64) (start attempt : Nat) :
    ∃ early < attemptLimit, suffixText label attempt (randomWord seed (start + attempt)) =
      suffixText label early (randomWord seed (start + early)) := by
  have positive : 0 < period := Nat.mul_pos (Nat.pow_pos Nat.two_pos) (by decide)
  rcases Nat.lt_or_ge attempt shortAttempts with short | long
  · exact ⟨attempt, Nat.lt_add_right period short, rfl⟩
  · obtain ⟨late, rfl⟩ := Nat.exists_eq_add_of_le long
    have inLimit := Nat.add_lt_add_left (Nat.mod_lt late positive) shortAttempts
    refine ⟨shortAttempts + late % period, inLimit, ?_⟩
    have sameWord : randomWord seed (start + (shortAttempts + late)) =
        randomWord seed (start + (shortAttempts + late % period)) := by
      have parts : start + (shortAttempts + late) =
          start + (shortAttempts + late % period) + late / period * period := by
        have cut := Nat.mod_add_div' late period
        omega
      rw [parts, randomWord_add_period]
    rw [sameWord, suffixText, suffixText, if_neg (Nat.not_lt.2 (Nat.le_add_right _ _)),
      if_neg (Nat.not_lt.2 (Nat.le_add_right _ _))]

end Suffix

def CompileState.afterWords (state : CompileState) (count : Nat) : CompileState :=
  { state with drawnWords := state.drawnWords + count }

namespace Compile

/-- The suffix that a request for a label comes to in a state on a given attempt. -/
def attempted (label : String) (state : CompileState) (attempt : Nat) : String :=
  Suffix.suffixText label attempt (Suffix.randomWord state.seed (state.drawnWords + attempt))

/-- However many words are drawn from a state on, each of them gives a suffix that is in use. -/
def Unserved (label : String) (state : CompileState) : Prop :=
  ∀ attempt, attempted label state attempt ∈ state.usedSuffixes

/-- Words that were all drawn in vain. -/
theorem fails_drawSuffix {label : String} {fault : CompileFault} : ∀ {budget attempt : Nat}
    {before after : CompileState}, Fails (drawSuffix label budget attempt) before fault after →
      fault = .suffixesExhausted label ∧ after = before.afterWords budget ∧
        ∀ further < budget, Suffix.suffixText label (attempt + further)
          (Suffix.randomWord before.seed (before.drawnWords + further)) ∈ before.usedSuffixes
  | 0, _, before, after, failed => by
      obtain ⟨rfl, rfl⟩ := fails_throw.1 failed
      exact ⟨rfl, rfl, fun further early => absurd early (Nat.not_lt_zero further)⟩
  | budget + 1, attempt, before, after, failed => by
      rcases fails_bind.1 failed with early | ⟨_, _, looked, rest⟩
      · cases early
      obtain ⟨rfl, rfl⟩ := runs_get.1 looked
      rcases fails_bind.1 rest with early | ⟨_, drawn, replaced, choice⟩
      · cases early
      obtain rfl := runs_set.1 replaced
      split at choice
      · rename_i inUse
        obtain ⟨isFault, same, used⟩ := fails_drawSuffix choice
        refine ⟨isFault, ?_, fun further early => ?_⟩
        · rw [same, CompileState.afterWords, CompileState.afterWords]
          simp only [Nat.add_assoc, Nat.add_comm 1]
        · cases further with
          | zero => exact List.contains_iff_mem.1 inUse
          | succ further =>
              have later := used further (Nat.lt_of_succ_lt_succ early)
              rwa [Nat.add_assoc, Nat.add_assoc, Nat.add_comm 1] at later
      · rcases fails_bind.1 choice with early | ⟨_, _, _, last⟩
        · cases early
        · exact absurd last not_fails_pure

/-- A request only fails when it would never be served. -/
theorem fails_freshSuffix {label : String} {fault : CompileFault} {before after : CompileState}
    (failed : Fails (freshSuffix label) before fault after) :
    fault = .suffixesExhausted label ∧ after = before.afterWords Suffix.attemptLimit ∧
      Unserved label before := by
  obtain ⟨isFault, same, used⟩ := fails_drawSuffix failed
  refine ⟨isFault, same, fun attempt => ?_⟩
  obtain ⟨early, inLimit, sameSuffix⟩ :=
    Suffix.exists_attempt_lt label before.seed before.drawnWords attempt
  have inUse := used early inLimit
  rw [Nat.zero_add, ← sameSuffix] at inUse
  exact inUse

end Compile

end NetBlueprint
