import Mathlib
import ScriptMachine.Compile

/-!
# Shapes of the stack

What stands on the stack above the call of the running function does not depend on the run, only on
the instruction that is next.  A shape says what it is and how many scopes deep the instruction
stands.  Code is typed if every instruction takes the shape before it to the shape behind it.

* `Entry`, `Shape`      what stands on the stack, the top first, and the depth of scopes;
* `OpTyped`             what each operation needs and leaves; behind a jump anything may stand;
* `Typed env Γ σ c τ Δ` `c` goes from `σ` to `τ` if the labels have the shapes of `Γ`; its own
                        labels have the shapes of `Δ`;
* `Fits env Γ σ c τ Λ`  the same with the labels of `c` itself left out of `Γ`; those of `Λ` are
                        among them;
* `Fits.append`, `Fits.close`, ...   how typed code is put together;
* `Typed.shapes`        the shapes of typed code, as a function of the place.
-/

namespace ScriptMachine

/-! ## shapes -/

/-- what an entry of the stack is -/
inductive Entry where
  | value
  /-- the marker of a loop that starts so many scopes deep -/
  | loop (depth : Nat)
  /-- a region that starts so many scopes deep -/
  | guard (depth : Nat)
  /-- a callee above so many arguments, or the result of a call that is already made -/
  | prepared (argc : Nat)
  deriving DecidableEq

namespace Entry

def isLoop : Entry → Bool
  | loop _ => true
  | _ => false

/-- how many values an entry counts for -/
def height : Entry → Nat
  | value => 1
  | loop _ => 0
  | guard _ => 0
  | prepared argc => argc + 1

/-- the depth that a loop or a region goes back to -/
def depth : Entry → Nat
  | loop depth | guard depth => depth
  | value | prepared _ => 0

end Entry

/-- no entry goes back to a scope more than `d` deep -/
def Shallow (es : List Entry) (d : Nat) : Prop := ∀ e ∈ es, e.depth ≤ d

namespace Shallow

variable {es : List Entry} {e : Entry} {d d' : Nat}

theorem nil : Shallow [] d := nofun

theorem cons (he : e.depth ≤ d) (h : Shallow es d) : Shallow (e :: es) d :=
  List.forall_mem_cons.mpr ⟨he, h⟩

theorem tail (h : Shallow (e :: es) d) : Shallow es d := (List.forall_mem_cons.mp h).2

theorem mono (h : Shallow es d) (hd : d ≤ d') : Shallow es d' := fun e he => Nat.le_trans (h e he) hd

end Shallow

/-- how many values entries count for together -/
def heights (es : List Entry) : Nat := (es.map Entry.height).sum

/-- so many values -/
abbrev values (n : Nat) : List Entry := List.replicate n .value

/-- what stands on the stack above the call, the top first, and the number of scopes around -/
structure Shape where
  entries : List Entry
  depth : Nat
  deriving DecidableEq

/-- the number of values of a shape -/
def Shape.height (σ : Shape) : Nat := heights σ.entries

/-- one more value on top -/
def Shape.pushed (σ : Shape) : Shape := ⟨.value :: σ.entries, σ.depth⟩

/-- labels with the shapes that they stand for -/
abbrev LabelShapes := List (Label × Shape)

/-- the label has this shape -/
abbrev LabelShapes.Has (Γ : LabelShapes) (l : Label) (σ : Shape) : Prop := (l, σ) ∈ Γ

/-- what code may refer to beside labels -/
structure TypeEnv where
  /-- the number of constants -/
  constants : Nat
  inFunction : Bool

/-! ## operations -/

/-- a callee and its arguments, or the result of the call, above `es` -/
inductive Ready (argc : Nat) : List Entry → List Entry → Prop
  | prepared (es : List Entry) : Ready argc (.prepared argc :: es) es
  | value (es : List Entry) : Ready argc (.value :: values argc ++ es) es

/-- Operations and the shapes before and behind them, where `has` gives the shapes of labels.  Control
does not go on behind a jump, so there `ρ` is free. -/
inductive OpTyped (env : TypeEnv) (has : Label → Shape → Prop) : Op → Shape → Shape → Prop
  | nop : OpTyped env has .nop σ σ
  | label : OpTyped env has (.label l) σ σ
  | const (h : i < env.constants) : OpTyped env has (.const i) ⟨es, d⟩ ⟨.value :: es, d⟩
  | pop : OpTyped env has .pop ⟨.value :: es, d⟩ ⟨es, d⟩
  | dup : OpTyped env has .dup ⟨.value :: es, d⟩ ⟨.value :: .value :: es, d⟩
  | pick : OpTyped env has (.pick n) ⟨values n ++ .value :: es, d⟩
      ⟨.value :: values n ++ .value :: es, d⟩
  | binary : OpTyped env has (.binary op) ⟨.value :: .value :: es, d⟩ ⟨.value :: es, d⟩
  | neg : OpTyped env has .neg ⟨.value :: es, d⟩ ⟨.value :: es, d⟩
  | not : OpTyped env has .not ⟨.value :: es, d⟩ ⟨.value :: es, d⟩
  | jump (h : has l σ) : OpTyped env has (.jump l) σ ρ
  | jumpFalse (h : has l ⟨es, d⟩) : OpTyped env has (.jumpFalse l) ⟨.value :: es, d⟩ ⟨es, d⟩
  | jumpTrue (h : has l ⟨es, d⟩) : OpTyped env has (.jumpTrue l) ⟨.value :: es, d⟩ ⟨es, d⟩
  | enterScope : OpTyped env has .enterScope ⟨es, d⟩ ⟨es, d + 1⟩
  | leaveScope (h : Shallow es d) : OpTyped env has .leaveScope ⟨es, d + 1⟩ ⟨es, d⟩
  | declare : OpTyped env has (.declare name) σ σ
  | storeVariable : OpTyped env has (.store name false) ⟨.value :: es, d⟩ ⟨.value :: es, d⟩
  | storeProperty :
    OpTyped env has (.store name true) ⟨.value :: .value :: es, d⟩ ⟨.value :: es, d⟩
  | fetchVariable : OpTyped env has (.fetch name .variable) ⟨es, d⟩ ⟨.value :: es, d⟩
  | fetchProperty : OpTyped env has (.fetch name .property) ⟨.value :: es, d⟩ ⟨.value :: es, d⟩
  | fetchCallee : OpTyped env has (.fetch name (.callVariable argc)) ⟨values argc ++ es, d⟩
      ⟨.prepared argc :: es, d⟩
  | fetchMethod : OpTyped env has (.fetch name (.callProperty argc))
      ⟨.value :: values argc ++ .value :: es, d⟩ ⟨.prepared argc :: .value :: es, d⟩
  | call (h : Ready argc es (values (if bound then 1 else 0) ++ es')) :
    OpTyped env has (.call argc bound) ⟨es, d⟩ ⟨.value :: es', d⟩
  | ret (h : env.inFunction = true) : OpTyped env has .ret ⟨.value :: es, d⟩ ρ
  | loopStart : OpTyped env has .loopStart ⟨es, d⟩ ⟨.loop d :: es, d⟩
  | loopEnd : OpTyped env has .loopEnd ⟨.loop d' :: es, d⟩ ⟨es, d⟩
  | loopExit (hin : ∀ e ∈ es', e.isLoop = false) (h : has l ⟨.loop d' :: es, d'⟩) :
    OpTyped env has (.loopExit (some l)) ⟨es' ++ .loop d' :: es, d⟩ ρ
  | enterTry (h : has l ⟨.value :: es, d⟩) :
    OpTyped env has (.enterTry l) ⟨es, d⟩ ⟨.guard d :: es, d⟩
  | leaveTry : OpTyped env has .leaveTry ⟨.guard d' :: es, d⟩ ⟨es, d⟩
  | throw : OpTyped env has .throw ⟨.value :: es, d⟩ ρ
  | createObject : OpTyped env has (.createObject name) ⟨es, d⟩ ⟨.value :: es, d⟩
  | makeArray : OpTyped env has (.makeArray n) ⟨values n ++ es, d⟩ ⟨.value :: es, d⟩
  | debugger : OpTyped env has .debugger σ σ
  | halt (h : env.inFunction = false) : OpTyped env has .halt ⟨[], 0⟩ ρ

theorem OpTyped.mono {env : TypeEnv} {has has' : Label → Shape → Prop} {op : Op} {σ τ : Shape}
    (h : OpTyped env has op σ τ) (hsub : ∀ l ρ, has l ρ → has' l ρ) : OpTyped env has' op σ τ := by
  cases h with
  | jump h => exact .jump (hsub _ _ h)
  | jumpFalse h => exact .jumpFalse (hsub _ _ h)
  | jumpTrue h => exact .jumpTrue (hsub _ _ h)
  | loopExit hin h => exact .loopExit hin (hsub _ _ h)
  | enterTry h => exact .enterTry (hsub _ _ h)
  | _ => constructor <;> assumption

/-! ## code -/

/-- an exit scope and the entry that it leaves on the stack -/
inductive Leaves : ExitScope → Entry → Prop
  | loop : Leaves (.loop next done) (.loop d)
  | guarded : Leaves (.guarded finalizer) (.guard d)
  | pendingThrow : Leaves .pendingThrow .value

/-- the first instruction of a statement finds what the exit scopes around it leave, nothing else -/
def Emitted.Starts (e : Emitted) (σ : Shape) : Prop :=
  ∀ exits, e.statement = some exits → List.Forall₂ Leaves exits σ.entries

/-- the operation stands behind the end of a `try` body or of a handler -/
def Op.followsBody : Op → Bool
  | .jump _ | .leaveScope => true
  | _ => false

/-- the operation ends a region -/
def Op.endsRegion : Op → Bool
  | .leaveTry => true
  | _ => false

/-- A region that control leaves at the end of its body is left as deep as it was entered.  If `code`
goes on in another way, then a jump crosses the region, from whatever depth. -/
def Emitted.Levels (e : Emitted) (code : Code) (σ : Shape) : Prop :=
  e.op = .leaveTry → (∀ next ∈ code.head?, next.op.followsBody = true) →
    σ.entries.head? = some (.guard σ.depth)

/-- `code` goes on, but not as behind the end of a body -/
def Code.Crosses (code : Code) : Prop := ∃ e rest, code = e :: rest ∧ e.op.followsBody = false

namespace Emitted.Levels

variable {e : Emitted} {code : Code} {σ : Shape}

theorem of_op (h : e.op.endsRegion = false) : e.Levels code σ := by
  intro heq
  rw [heq] at h
  cases h

theorem of_crosses (h : code.Crosses) : e.Levels code σ := by
  obtain ⟨next, rest, rfl, hnext⟩ := h
  intro _ hall
  rw [hall next rfl] at hnext
  cases hnext

theorem append (h : e.Levels code σ) (c' : Code) : e.Levels (code ++ c') σ := by
  refine fun heq hall => h heq fun next hnext => hall next ?_
  rw [List.head?_append, Option.mem_def.mp hnext]
  rfl

end Emitted.Levels

/-- `code` goes from one shape to another.  Its labels stand where their shapes say. -/
inductive Typed (env : TypeEnv) (Γ : LabelShapes) : Shape → Code → Shape → LabelShapes → Prop
  | nil : Typed env Γ σ [] σ []
  | label (hs : Emitted.Starts ⟨.label l, range, statement⟩ σ) (h : Typed env Γ σ code τ Δ) :
    Typed env Γ σ (⟨.label l, range, statement⟩ :: code) τ ((l, σ) :: Δ)
  | op (hop : OpTyped env Γ.Has e.op σ ρ) (hs : e.Starts σ) (hl : e.Levels code σ)
      (h : Typed env Γ ρ code τ Δ) : Typed env Γ σ (e :: code) τ Δ

namespace Typed

variable {env : TypeEnv} {Γ Γ' Δ Δ' : LabelShapes} {σ ρ τ : Shape} {c c' : Code}

theorem mono (h : Typed env Γ σ c τ Δ) (hsub : Γ ⊆ Γ') : Typed env Γ' σ c τ Δ := by
  induction h with
  | nil => exact .nil
  | label hs _ ih => exact .label hs ih
  | op hop hs hl _ ih => exact .op (hop.mono fun _ _ h => hsub h) hs hl ih

theorem append (h : Typed env Γ σ c ρ Δ) (h' : Typed env Γ ρ c' τ Δ') :
    Typed env Γ σ (c ++ c') τ (Δ ++ Δ') := by
  induction h with
  | nil => exact h'
  | label hs _ ih => exact .label hs (ih h')
  | op hop hs hl _ ih => exact .op hop hs (hl.append c') (ih h')

/-- the first instruction of typed code may start a statement where nothing else is on the stack -/
theorem startStatement {exits : List ExitScope} {range : TokenRange} (h : Typed env Γ σ c τ Δ)
    (hexits : List.Forall₂ Leaves exits σ.entries) :
    Typed env Γ σ (ScriptMachine.startStatement exits range c) τ Δ := by
  have hstarts (op : Op) : Emitted.Starts ⟨op, some range, some exits⟩ σ := by
    intro exits' heq
    cases heq
    exact hexits
  cases h with
  | nil => exact .op .nop (hstarts .nop) (.of_op rfl) .nil
  | label _ h => exact .label (hstarts _) h
  | op hop _ hl h => exact .op hop (hstarts _) hl h

end Typed

/-! ## code with labels of its own -/

/-- Code that goes from one shape to another.  The shapes of its own labels need not be given. -/
def Fits (env : TypeEnv) (Γ : LabelShapes) (σ : Shape) (c : Code) (τ : Shape) (Λ : LabelShapes) :
    Prop :=
  ∃ Δ, Typed env (Γ ++ Δ) σ c τ Δ ∧ Λ ⊆ Δ

namespace Fits

variable {env : TypeEnv} {Γ Γ' Λ Λ' : LabelShapes} {σ ρ τ : Shape} {c c' : Code}

theorem nil : Fits env Γ σ [] σ [] := ⟨[], .nil, List.Subset.refl _⟩

theorem mono (h : Fits env Γ σ c τ Λ) (hsub : Γ ⊆ Γ') : Fits env Γ' σ c τ Λ := by
  obtain ⟨Δ, h, hΛ⟩ := h
  refine ⟨Δ, h.mono ?_, hΛ⟩
  exact List.append_subset.mpr
    ⟨List.Subset.trans hsub (List.subset_append_left _ _), List.subset_append_right _ _⟩

theorem weaken (h : Fits env Γ σ c τ Λ) (hsub : Λ' ⊆ Λ) : Fits env Γ σ c τ Λ' := by
  obtain ⟨Δ, h, hΛ⟩ := h
  exact ⟨Δ, h, List.Subset.trans hsub hΛ⟩

theorem append (h : Fits env Γ σ c ρ Λ) (h' : Fits env Γ ρ c' τ Λ') :
    Fits env Γ σ (c ++ c') τ (Λ ++ Λ') := by
  obtain ⟨Δ, h, hΛ⟩ := h
  obtain ⟨Δ', h', hΛ'⟩ := h'
  refine ⟨Δ ++ Δ', .append (h.mono ?_) (h'.mono ?_), List.append_subset.mpr ⟨?_, ?_⟩⟩
  · rw [← List.append_assoc]
    exact List.subset_append_left _ _
  · intro x hx
    simp only [List.mem_append] at hx ⊢
    rcases hx with hx | hx
    · exact .inl hx
    · exact .inr (.inr hx)
  · exact List.Subset.trans hΛ (List.subset_append_left _ _)
  · exact List.Subset.trans hΛ' (List.subset_append_right _ _)

theorem cons {e : Emitted} (hop : OpTyped env Γ.Has e.op σ ρ) (hs : e.statement = none)
    (hl : e.Levels c σ) (h : Fits env Γ ρ c τ Λ) : Fits env Γ σ (e :: c) τ Λ := by
  obtain ⟨Δ, h, hΛ⟩ := h
  refine ⟨Δ, .op (hop.mono fun _ _ h => List.subset_append_left _ _ h) ?_ hl h, hΛ⟩
  intro exits heq
  rw [hs] at heq
  cases heq

theorem emit {e : Emitted} (h : OpTyped env Γ.Has e.op σ τ) (hs : e.statement = none)
    (hl : e.Levels [] σ) : Fits env Γ σ [e] τ [] := cons h hs hl nil

theorem one {op : Op} {range : TokenRange} (h : OpTyped env Γ.Has op σ τ)
    (hop : op.endsRegion = false) : Fits env Γ σ (ScriptMachine.one op range) τ [] :=
  emit h rfl (.of_op hop)

/-- the end of a region at the end of its body -/
theorem leaveTry {range : TokenRange} {es : List Entry} {d : Nat} :
    Fits env Γ ⟨.guard d :: es, d⟩ (ScriptMachine.one .leaveTry range) ⟨es, d⟩ [] :=
  emit .leaveTry rfl fun _ _ => rfl

/-- the end of a region that a jump crosses -/
theorem crossTry {range : TokenRange} {es : List Entry} {d d' : Nat} (h : Fits env Γ ⟨es, d⟩ c τ Λ)
    (hc : c.Crosses) :
    Fits env Γ ⟨.guard d' :: es, d⟩ (ScriptMachine.one .leaveTry range ++ c) τ Λ :=
  cons .leaveTry rfl (.of_crosses hc) h

theorem place {l : Label} : Fits env Γ σ (ScriptMachine.place l) σ [(l, σ)] :=
  ⟨[(l, σ)], .label nofun .nil, List.Subset.refl _⟩

/-- labels that code places itself need not be given -/
theorem close (Λ : LabelShapes) (h : Fits env (Λ ++ Γ) σ c τ Λ) : Fits env Γ σ c τ [] := by
  obtain ⟨Δ, h, hΛ⟩ := h
  refine ⟨Δ, h.mono ?_, List.nil_subset _⟩
  intro x hx
  simp only [List.mem_append] at hx ⊢
  rcases hx with (hx | hx) | hx
  · exact .inr (hΛ hx)
  · exact .inl hx
  · exact .inr hx

theorem startStatement {exits : List ExitScope} {range : TokenRange} (h : Fits env Γ σ c τ Λ)
    (hexits : List.Forall₂ Leaves exits σ.entries) :
    Fits env Γ σ (ScriptMachine.startStatement exits range c) τ Λ := by
  obtain ⟨Δ, h, hΛ⟩ := h
  exact ⟨Δ, h.startStatement hexits, hΛ⟩

/-- code in a scope of its own goes one scope deeper -/
theorem blockCode {range : TokenRange} {es es' : List Entry} {d : Nat}
    (h : Fits env Γ ⟨es, d + 1⟩ c ⟨es', d + 1⟩ Λ) (hd : Shallow es' d) :
    Fits env Γ ⟨es, d⟩ (ScriptMachine.blockCode range c) ⟨es', d⟩ Λ := by
  refine weaken (((one .enterScope rfl).append h).append (one (.leaveScope hd) rfl)) ?_
  rw [List.nil_append, List.append_nil]
  exact List.Subset.refl _

end Fits

/-! ## the shapes of typed code -/

/-- shapes before each instruction of a piece of code and behind its end -/
structure Shapes (env : TypeEnv) (Γ Δ : LabelShapes) (code : Code) (T : Nat → Shape) : Prop where
  typed : ∀ pc (e : Emitted), code[pc]? = some e → OpTyped env Γ.Has e.op (T pc) (T (pc + 1))
  starts : ∀ pc (e : Emitted), code[pc]? = some e → e.Starts (T pc)
  levels : ∀ pc (e : Emitted), code[pc]? = some e → e.Levels (code.drop (pc + 1)) (T pc)
  placed : ∀ l ρ, (l, ρ) ∈ Δ →
    ∃ pc, ∃ e : Emitted, code[pc]? = some e ∧ e.op = .label l ∧ T pc = ρ

/-- one more shape in front -/
def shapesCons (σ : Shape) (T : Nat → Shape) : Nat → Shape
  | 0 => σ
  | pc + 1 => T pc

theorem Shapes.cons {env : TypeEnv} {Γ Δ : LabelShapes} {e : Emitted} {c : Code} {σ : Shape}
    {T : Nat → Shape} (h : Shapes env Γ Δ c T) (hop : OpTyped env Γ.Has e.op σ (T 0))
    (hs : e.Starts σ) (hl : e.Levels c σ) :
    Shapes env Γ Δ (e :: c) (shapesCons σ T) where
  typed
    | 0, e', he => by
      cases he
      exact hop
    | pc + 1, e', he => h.typed pc e' he
  starts
    | 0, e', he => by
      cases he
      exact hs
    | pc + 1, e', he => h.starts pc e' he
  levels
    | 0, e', he => by
      cases he
      exact hl
    | pc + 1, e', he => h.levels pc e' he
  placed l ρ hl := by
    obtain ⟨pc, e', he, hop, hT⟩ := h.placed l ρ hl
    exact ⟨pc + 1, e', he, hop, hT⟩

theorem Typed.shapes {env : TypeEnv} {Γ Δ : LabelShapes} {σ τ : Shape} {c : Code}
    (h : Typed env Γ σ c τ Δ) : ∃ T, T 0 = σ ∧ Shapes env Γ Δ c T := by
  induction h with
  | nil => exact ⟨fun _ => _, rfl, nofun, nofun, nofun, nofun⟩
  | @label l range statement σ code τ Δ hs _ ih =>
    obtain ⟨T, rfl, hT⟩ := ih
    have hcons := hT.cons .label hs (.of_op rfl)
    refine ⟨shapesCons (T 0) T, rfl, hcons.typed, hcons.starts, hcons.levels, ?_⟩
    intro l' ρ hl
    rcases List.mem_cons.mp hl with heq | hl
    · cases heq
      exact ⟨0, _, rfl, rfl, rfl⟩
    · exact hcons.placed l' ρ hl
  | op hop hs hl _ ih =>
    obtain ⟨T, rfl, hT⟩ := ih
    exact ⟨shapesCons _ T, rfl, hT.cons hop hs hl⟩

/-- the shapes of code whose labels are all its own -/
theorem Fits.shapes {env : TypeEnv} {Λ : LabelShapes} {σ τ : Shape} {c : Code}
    (h : Fits env [] σ c τ Λ) : ∃ Γ T, T 0 = σ ∧ Shapes env Γ Γ c T := by
  obtain ⟨Δ, h, -⟩ := h
  obtain ⟨T, h₀, hT⟩ := h.shapes
  exact ⟨Δ, T, h₀, hT⟩

end ScriptMachine
