import ScriptMachine.Proofs.Machine.Sessions
import ScriptMachine.Proofs.Meaning.Trace

/-!
# Runs from beginning to end

The limits of a run are in the way of its instructions or they are not.  Apart from that its
instructions decide how it ends.

* `Limits.Allow`        limits that are not in the way;
* `Steps.runFor_eq`     a run goes on after instructions that do not stop it;
* `Steps.of_stop`       a run that stops has got over them, unless a limit was in the way;
* `Finishes`            so many instructions, and one that stops the run;
* `Finishes.runs`       the run stops in this way if the limits allow it;
* `Finishes.only`       and in no other way but at a limit.
-/

namespace ScriptMachine

/-! ## limits -/

/-- so many instructions, on a stack of this depth -/
def Limits.Allow (limits : Limits) (cycles depth : Nat) : Prop :=
  (∀ max, limits.maxCycles = some max → cycles ≤ max) ∧ depth ≤ limits.maxStackDepth

theorem Limits.Allow.mono {limits : Limits} {cycles depth cycles' depth' : Nat}
    (h : limits.Allow cycles depth) (hcycles : cycles' ≤ cycles) (hdepth : depth' ≤ depth) :
    limits.Allow cycles' depth' :=
  ⟨fun max hmax => Nat.le_trans hcycles (h.1 max hmax), Nat.le_trans hdepth h.2⟩

theorem Limits.Allow.exceeded? {limits : Limits} {cycles depth : Nat} (h : limits.Allow cycles depth) :
    limits.exceeded? cycles depth = none := by
  obtain ⟨maxCycles, maxStackDepth⟩ := limits
  have hdepth : ¬ maxStackDepth < depth := Nat.not_lt.mpr h.2
  cases maxCycles with
  | none => exact if_neg hdepth
  | some max =>
    have hcycles : ¬ max < cycles := Nat.not_lt.mpr (h.1 max rfl)
    exact (if_neg hcycles).trans (if_neg hdepth)

/-- a limit stopped the run -/
def Stop.isLimit : Stop → Bool
  | .failed error _ => error.isLimit
  | _ => false

section
variable {linked : Linked} {limits : Limits} {s s' : State} {stop stop' : Stop} {k n : Nat}

/-! ## instructions that do not stop it -/

/-- A run goes on after them, if the limits allow. -/
theorem Steps.runFor_eq (h : Steps linked s k s') :
    ∃ depth, ∀ (limits : Limits) (cycles n : Nat) (moved : Bool), limits.Allow (cycles + k) depth →
      ∃ moved', runFor linked limits .run (k + n) ⟨s, cycles, moved⟩
        = runFor linked limits .run n ⟨s', cycles + k, moved'⟩ := by
  induction h with
  | refl =>
    refine ⟨0, fun limits cycles n moved _ => ⟨moved, ?_⟩⟩
    rw [Nat.zero_add]
    rfl
  | @step s s₁ s' ins k hins hex _ ih =>
    obtain ⟨depth, ih⟩ := ih
    refine ⟨max depth s.stack.depth, fun limits cycles n moved hallow => ?_⟩
    have hallow' : limits.Allow (cycles + 1) s.stack.depth :=
      hallow.mono (by omega) (Nat.le_max_right _ _)
    obtain ⟨moved', hrun⟩ := ih limits (cycles + 1) n true
      (hallow.mono (by omega) (Nat.le_max_left _ _))
    refine ⟨moved', ?_⟩
    have hsplit : k + 1 + n = (k + n) + 1 := Nat.add_right_comm k 1 n
    have hcount : cycles + (k + 1) = cycles + 1 + k := by omega
    rw [hsplit, hcount, runFor, tick_after Drive.run_ne_step hins hallow'.exceeded?, hex]
    exact hrun

/-- A run that stops has got over them, unless a limit was in the way. -/
theorem Steps.of_stop (h : Steps linked s k s') {cycles : Nat} {moved : Bool}
    (hrun : runFor linked limits .run n ⟨s, cycles, moved⟩ = some stop) :
    stop.isLimit = true
      ∨ ∃ m moved', n = k + m ∧ runFor linked limits .run m ⟨s', cycles + k, moved'⟩ = some stop := by
  induction h generalizing n cycles moved with
  | refl => exact .inr ⟨n, moved, (Nat.zero_add n).symm, hrun⟩
  | @step s s₁ s' ins k hins hex _ ih =>
    cases n with
    | zero => cases hrun
    | succ n =>
      rw [runFor] at hrun
      cases hlimit : limits.exceeded? (cycles + 1) s.stack.depth with
      | some error =>
        rw [tick_exceeded Drive.run_ne_step hins hlimit] at hrun
        cases hrun
        exact .inl (Limits.exceeded_isLimit hlimit)
      | none =>
        rw [tick_after Drive.run_ne_step hins hlimit, hex] at hrun
        rcases ih hrun with hstop | ⟨m, moved', rfl, hrest⟩
        · exact .inl hstop
        · refine .inr ⟨m, moved', Nat.add_right_comm k m 1, ?_⟩
          have hcount : cycles + (k + 1) = cycles + 1 + k := by omega
          rw [hcount]
          exact hrest

/-- A run that is to go on for so long stops before that at a limit only. -/
theorem Late.of_stop (h : Late linked n s) {cycles : Nat} {moved : Bool}
    (hrun : runFor linked limits .run n ⟨s, cycles, moved⟩ = some stop) : stop.isLimit = true := by
  obtain ⟨k, s', hk, hsteps⟩ := h
  rcases hsteps.of_stop hrun with hstop | ⟨m, moved', heq, hrest⟩
  · exact hstop
  · obtain rfl : m = 0 := by omega
    cases hrest

/-! ## to the end -/

/-- instructions, and then one that stops the run -/
def Finishes (linked : Linked) (s : State) (stop : Stop) : Prop :=
  ∃ k s' ins, Steps linked s k s'
    ∧ linked.program.instruction? s'.location.sectionIndex s'.location.pc = some ins
    ∧ ∀ cycles, .after .run cycles (execute linked ins.op s') = Progress.stopped stop

theorem Steps.finishes (h : Steps linked s k s') (he : Finishes linked s' stop) : Finishes linked s stop := by
  obtain ⟨m, s'', ins, hsteps, hend⟩ := he
  exact ⟨k + m, s'', ins, h.trans hsteps, hend⟩

/-- The run stops in this way if the limits allow it. -/
theorem Finishes.runs (h : Finishes linked s stop) :
    ∃ bound, ∀ (limits : Limits) (n : Nat) (moved : Bool), limits.Allow bound bound → bound ≤ n →
      runFor linked limits .run n ⟨s, 0, moved⟩ = some stop := by
  obtain ⟨k, s', ins, hsteps, hins, hstop⟩ := h
  obtain ⟨depth, hrun⟩ := hsteps.runFor_eq
  refine ⟨(k + 1) + (depth + s'.stack.depth), fun limits n moved hallow hn => ?_⟩
  obtain ⟨m, rfl⟩ : ∃ m, n = k + (m + 1) := ⟨n - (k + 1), by omega⟩
  obtain ⟨moved', hfirst⟩ := hrun limits 0 (m + 1) moved (hallow.mono (by omega) (by omega))
  have hallow' : limits.Allow (0 + k + 1) s'.stack.depth := hallow.mono (by omega) (by omega)
  rw [hfirst, runFor, tick_after Drive.run_ne_step hins hallow'.exceeded?, hstop]

/-- The run stops in no other way but at a limit. -/
theorem Finishes.only (h : Finishes linked s stop) {cycles : Nat} {moved : Bool}
    (hrun : runFor linked limits .run n ⟨s, cycles, moved⟩ = some stop') :
    stop'.isLimit = true ∨ stop' = stop := by
  obtain ⟨k, s', ins, hsteps, hins, hstop⟩ := h
  rcases hsteps.of_stop hrun with hlimit | ⟨m, moved', rfl, hrest⟩
  · exact .inl hlimit
  · cases m with
    | zero => cases hrest
    | succ m =>
      rw [runFor] at hrest
      cases hlimit : limits.exceeded? (cycles + k + 1) s'.stack.depth with
      | some error =>
        rw [tick_exceeded Drive.run_ne_step hins hlimit] at hrest
        cases hrest
        exact .inl (Limits.exceeded_isLimit hlimit)
      | none =>
        rw [tick_after Drive.run_ne_step hins hlimit, hstop] at hrest
        cases hrest
        exact .inr rfl

end

end ScriptMachine
