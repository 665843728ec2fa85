import ScriptMachine.Proofs.Machine.Piles

/-!
# Instructions find the values that they need

The check does not rule out every stack underflow: it counts no markers, does not follow loop exits,
and takes a call and the instruction that fetches its callee for a pair.  In countable programs no
instruction ever needs more values than its frame holds, and only markers can be missing.

* `Op.needs`            how many values an instruction may take from its frame;
* `Finds`               the frame holds them;
* `Blamed`              failures for too few values, by the instructions that they are at;
* `lasting_tallied`     every instruction of a countable program keeps the count;
* `accepted_runs_short` programs that pass the check, and all the same find too few values;
* `session_finds`       the instructions of countable programs find the values that they need.
-/

namespace ScriptMachine

/-- how many values an instruction may take from its frame; a call may be made by the instruction that
fetches its callee -/
def Op.needs : Op → Nat
  | .fetch _ (.callVariable argc) => argc
  | .fetch _ (.callProperty argc) => argc + 1
  | op => op.takes

/-- A frame holds the values that an instruction needs.  A call whose result is already there does not
need its arguments any more. -/
def Finds (op : Op) (frame : List Slot) : Prop :=
  (frame.head? ≠ some .nativeResult ∧ op.needs ≤ tally frame)
    ∨ frame.head? = some .nativeResult
      ∧ ∃ argc bound, op = .call argc bound ∧ op.takes ≤ tally frame + argc

/-- a failure for too few values is at an instruction that wants a marker, or that may pick one -/
def Blamed (program : Program) : RuntimeError → Prop
  | .defect .stackUnderflow loc =>
    ∃ ins, program.instruction? loc.sectionIndex loc.pc = some ins ∧ ins.op.endsMarker = true
  | .defect (.pickedNoValue n) loc =>
    ∃ ins, program.instruction? loc.sectionIndex loc.pc = some ins ∧ ins.op = .pick n
  | _ => True

section
variable {linked : Linked} {program : Program} {table : LabelTable} {hosted : Bool} {s : State}
  {ins : Instruction}

theorem Excused.blamed {loc : Location} {st : Stack} {e : RuntimeError}
    (h : Excused ins.op loc st e)
    (hins : program.instruction? loc.sectionIndex loc.pc = some ins) : Blamed program e := by
  cases e with
  | defect cause at_ =>
    cases cause with
    | stackUnderflow =>
      obtain ⟨rfl, hop, -⟩ := h
      exact ⟨ins, hins, hop⟩
    | pickedNoValue n =>
      obtain ⟨rfl, hop, -⟩ := h
      exact ⟨ins, hins, hop⟩
    | _ => trivial
  | _ => trivial

/-- the mark of a result is not on top of a frame that holds what the check counts -/
theorem Piled.head_ne {i n : Nat} {loops : List Nat} {slots : List Slot}
    (h : Piled program table hosted i loops n slots) :
    (Stack.of slots).frame.head? ≠ some .nativeResult := by
  show (slots.takeWhile fun slot => (Exec.callSite? slot).isNone).head? ≠ some .nativeResult
  cases h <;> nofun

/-- an instruction that prepares a call finds the arguments, since the call will need them -/
theorem Due.needs_le {i pc k : Nat} {op : Op} {loops : List Nat}
    (h : Due linked program table i pc op loops k) : op.needs ≤ k + op.takes := by
  cases op with
  | fetch name access =>
    cases access with
    | callVariable argc => exact (h.callBehind rfl).2.2
    | callProperty argc => exact Nat.succ_le_succ (h.callBehind rfl).2.2
    | _ => exact Nat.le_add_left _ _
  | _ => exact Nat.le_add_left _ _

namespace Tallied

/-- one instruction -/
theorem step (h : program.Entered table) (hcount : program.Countable table)
    (hlinked : linked.Of program table) (hs : Tallied program table hosted s)
    (hins : program.instruction? s.location.sectionIndex s.location.pc = some ins) :
    Kept (Tallied program table) (fun _ => True) (Excused ins.op s.location s.stack) hosted
      (execute linked ins.op s) := by
  obtain ⟨⟨i, pc⟩, env, stack, heap, events⟩ := s
  obtain ⟨loops, n, hat, hslots⟩ := hs
  obtain ⟨k, rfl, hdue⟩ := hat.due h hcount hlinked hins
  have hstarts : Starts program table hosted i pc ins.op loops k
      ⟨⟨i, pc + 1⟩, env, stack, heap, events⟩ := by
    rcases hslots with hpiled | ⟨argc, k', rest, hcall, hk, hslots, hpiled⟩
    · exact .inl ⟨rfl, hpiled⟩
    · obtain ⟨ins', bound, hins', hop⟩ := hcall.call
      rw [hins] at hins'
      cases hins'
      refine .inr ⟨argc, bound, rest, hop, rfl, hslots, ?_⟩
      rw [hop, show (Op.call argc bound).takes = argc + 1 + (if bound then 1 else 0) from rfl] at hk
      rw [show k + 1 + (if bound then 1 else 0) = k' by omega]
      exact hpiled
  exact kept_dispatch hdue hstarts

/-- the next instruction finds the values that it needs -/
theorem finds (h : program.Entered table) (hcount : program.Countable table)
    (hlinked : linked.Of program table) (hs : Tallied program table hosted s)
    (hins : program.instruction? s.location.sectionIndex s.location.pc = some ins) :
    Finds ins.op s.stack.frame := by
  obtain ⟨loops, n, hat, hslots⟩ := hs
  obtain ⟨k, rfl, hdue⟩ := hat.due h hcount hlinked hins
  rw [s.stack.eq_of]
  rcases hslots with hpiled | ⟨argc, k', rest, hcall, hk, hslots, hpiled⟩
  · refine .inl ⟨hpiled.head_ne, ?_⟩
    rw [hpiled.tally_frame]
    exact hdue.needs_le
  · obtain ⟨ins', bound, hins', hop⟩ := hcall.call
    rw [hins] at hins'
    cases hins'
    have hframe : (Stack.of s.stack.slots).frame = .nativeResult :: (Stack.of rest).frame := by
      rw [hslots]
      rfl
    rw [hframe]
    refine .inr ⟨rfl, argc, bound, hop, ?_⟩
    rw [tally_nativeResult, hpiled.tally_frame, hk]
    exact Nat.le_add_left _ _

end Tallied

/-- the count is kept in all runs of a countable program -/
theorem lasting_tallied (h : program.Entered table) (hcount : program.Countable table) :
    Lasting (Tallied program table) (fun _ => True) (Blamed program) program table := by
  refine .of_here ⟨[], 0, .start h.accepted h.main, .inl (.main rfl)⟩ ?_ ?_ ?_ trivial ?_
  · rintro hosted s ⟨loops, n, hat, -⟩
    exact hat.has h.accepted
  · intro linked hosted s ins hlinked hs hins
    have hkept := hs.step h hcount hlinked hins
    cases hr : execute linked ins.op s with
    | error e s' =>
      rw [hr] at hkept
      exact Excused.blamed hkept hins
    | ok signal s' =>
      rw [hr] at hkept
      cases signal <;> exact hkept
  · intro linked s s' index args hlinked _ hs
    obtain ⟨entry, hentry, hloc, hslots⟩ := Exec.enterFunction_ok hs
    rw [hlinked.program] at hentry
    refine ⟨[], 0, ?_, .inl ?_⟩
    · rw [hloc]
      exact .start h.accepted (h.body_lt hentry)
    · rw [hslots]
      exact .host rfl rfl
  · intro e he
    cases e with
    | defect cause _ =>
      cases cause with
      | stackUnderflow | pickedNoValue _ => cases he
      | _ => trivial
    | _ => trivial

end

/-! ## programs that run short -/

/-- **The check does not rule out all stack underflows.**  Programs pass that end a loop which they
never started, pick the marker of a loop, fetch a callee with arguments that are not there, or leave a
loop for code that the check never gets to. -/
theorem accepted_runs_short :
    (handMade [.loopEnd, .halt]).verify = .ok ()
    ∧ (handMade [.loopEnd, .halt]).failure? 1 = some (.defect .stackUnderflow ⟨0, 0⟩)
    ∧ (handMade [.const 0, .loopStart, .pick 0, .halt]).verify = .ok ()
    ∧ (handMade [.const 0, .loopStart, .pick 0, .halt]).failure? 3
      = some (.defect (.pickedNoValue 0) ⟨0, 2⟩)
    ∧ (handMade [.fetch "print" (.callVariable 1), .halt]).verify = .ok ()
    ∧ (handMade [.fetch "print" (.callVariable 1), .halt]).failure? 1
      = some (.defect .stackUnderflow ⟨0, 0⟩)
    ∧ (handMade [.loopStart, .loopExit (some 0), .label 0, .loopEnd, .pop, .halt]).verify = .ok ()
    ∧ (handMade [.loopStart, .loopExit (some 0), .label 0, .loopEnd, .pop, .halt]).failure? 5
      = some (.defect .stackUnderflow ⟨0, 4⟩) := by
  refine ⟨?_, ?_, ?_, ?_, ?_, ?_, ?_, ?_⟩ <;> cbv

/-! ## countable programs -/

/-- **The check rules out stack underflow in programs that it can count.**  Take a program that passes
the check, with at least one section and a section for each function.  Let no instruction that the
check gets to take more values than fit into its 32 bits, let the instructions that fetch callees be
followed by their calls, and let loop exits go where the check counts as many values as at the start of
their loop.  Then, whatever a host does, before every instruction of every run the running frame holds
the values that the instruction needs.  If one fails for too few values all the same, it wants a marker
and the stack is empty, or it picks an entry of its own frame that is a marker. -/
theorem session_finds (program : Program) (table : LabelTable)
    (htable : program.labelTable = .ok table) (hverify : program.verify = .ok ())
    (hmain : 0 < program.sections.size)
    (hbodies : ∀ f ∈ program.functions.toList, f.body < program.sections.size)
    (hcount : program.Countable table) (limits : Limits) :
    ∃ m₀, Machine.load program limits = .ok m₀ ∧ ∀ ops m, m₀.after ops = some m →
      (∀ drive first n run, m.Enters drive first →
        first.ahead m.linked m.limits drive n = some run →
        ∃ ins, program.instruction? run.state.location.sectionIndex run.state.location.pc = some ins
          ∧ Finds ins.op run.state.stack.frame
          ∧ ∀ e s, execute m.linked ins.op run.state = .error e s →
            Excused ins.op run.state.location run.state.stack e)
      ∧ ∀ op outcome, m.apply op = some outcome → ∀ e, outcome.1 = .error e → Blamed program e := by
  obtain ⟨m₀, hload⟩ := load_of_verify hverify limits
  have hentered : program.Entered table := ⟨accepted_of_verify htable hverify, hmain, hbodies⟩
  have hlasting := lasting_tallied hentered hcount
  refine ⟨m₀, hload, fun ops m hm => ?_⟩
  have hheld := hlasting.after (hlasting.loaded htable hload) hm
  refine ⟨fun drive first n run hfirst hrun => ?_, fun op outcome ho => (hlasting.apply hheld ho).1⟩
  have hs := hlasting.ahead hheld.linked (hlasting.enters hheld hfirst) hrun
  obtain ⟨ins, hins⟩ := Option.isSome_iff_exists.mp (hlasting.here hs)
  refine ⟨ins, hins, hs.finds hentered hcount hheld.linked hins, fun e s' he => ?_⟩
  have hkept := hs.step hentered hcount hheld.linked hins
  rw [he] at hkept
  exact hkept

/-- a loop that is left while two of its values are on the stack -/
def leaving : List Op :=
  [.loopStart, .const 0, .jumpTrue 0, .const 0, .pick 0, .fetch "print" (.callVariable 1),
    .call 1 false, .loopExit (some 0), .label 0, .loopEnd, .halt]

theorem leaving_countable {table : LabelTable} (htable : (handMade leaving).labelTable = .ok table) :
    (handMade leaving).Countable table := by
  have hlabel : table.resolve? 0 = some ⟨0, 8⟩ := by
    have hexists : ∃ table, (handMade leaving).labelTable = .ok table
        ∧ table.resolve? 0 = some ⟨0, 8⟩ := ⟨_, rfl, by cbv⟩
    obtain ⟨table', htable', hlabel⟩ := hexists
    rw [htable] at htable'
    cases htable'
    exact hlabel
  refine ⟨fun i pc ins hins _ => ?_, fun i pc ins argc hins _ hargc => ?_,
    fun i pc ins target loc n loops hins hop hloc haround => ?_⟩
  · obtain ⟨-, hop⟩ := op_of_handMade hins
    have hall : ∀ op ∈ leaving, op.takes < 2 ^ 31 := by decide
    exact hall _ (List.mem_of_getElem? hop)
  · obtain ⟨rfl, hop⟩ := op_of_handMade hins
    have hall : ∀ e ∈ leaving.zipIdx, e.1.calleeArgc? = some argc → e.2 = 5 ∧ argc = 1 := by
      simp [leaving, Op.calleeArgc?, eq_comm]
    obtain ⟨rfl, rfl⟩ := hall (ins.op, pc) (List.mem_zipIdx_iff_getElem?.mpr hop) hargc
    exact ⟨_, false, rfl, rfl⟩
  · obtain ⟨rfl, hat⟩ := op_of_handMade hins
    have htarget : ∀ op ∈ leaving, op = .loopExit target → target = some 0 := by
      simp [leaving, eq_comm]
    rw [htarget _ (List.mem_of_getElem? hat) hop] at hloc
    rw [exitTo?, hlabel] at hloc
    cases hloc
    have hn : n = 0 := by
      refine haround.level (fun pc ins hins hop => ?_) n List.mem_cons_self
      obtain ⟨-, hat⟩ := op_of_handMade hins
      have hall : ∀ e ∈ leaving.zipIdx, e.1 = .loopStart → e.2 = 0 := by decide
      rw [show pc = 0 from hall (ins.op, pc) (List.mem_zipIdx_iff_getElem?.mpr hat) hop]
      exact ⟨by cbv, by decide⟩
    rw [hn]
    exact ⟨by cbv, by decide⟩

theorem session_finds_leaving : ∃ table, (handMade leaving).labelTable = .ok table
    ∧ (handMade leaving).verify = .ok () ∧ (handMade leaving).Countable table
    ∧ ∃ m₀, Machine.load (handMade leaving) {} = .ok m₀ ∧ ∀ ops m, m₀.after ops = some m →
      (∀ drive first n run, m.Enters drive first →
        first.ahead m.linked m.limits drive n = some run →
        ∃ ins, (handMade leaving).instruction? run.state.location.sectionIndex run.state.location.pc
            = some ins
          ∧ Finds ins.op run.state.stack.frame
          ∧ ∀ e s, execute m.linked ins.op run.state = .error e s →
            Excused ins.op run.state.location run.state.stack e)
      ∧ ∀ op outcome, m.apply op = some outcome → ∀ e, outcome.1 = .error e →
        Blamed (handMade leaving) e := by
  have hexists : ∃ table, (handMade leaving).labelTable = .ok table := ⟨_, rfl⟩
  obtain ⟨table, htable⟩ := hexists
  have hverify : (handMade leaving).verify = .ok () := by cbv
  have hcount := leaving_countable htable
  exact ⟨table, htable, hverify, hcount,
    session_finds _ table htable hverify (by decide) (by decide) hcount {}⟩

end ScriptMachine
