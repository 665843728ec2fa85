import ScriptMachine.Heap.ArrayMethod
import Mathlib.Data.Finset.Card
import Mathlib.Data.Finset.Filter

/-!
# Arrays that are marked while they are rendered

The text of an array can be found without a path in the hand: the arrays on the way down carry a mark,
and an array that is met with its mark set has no text.  The marks are part of the heap, and what sets one
has to take it back.

* `Rendering`          computations on arrays with marks, which may go too deep;
* `Rendering.display`, `Rendering.join`   rendering by marks, so many levels deep;
* `Heap.Expands`       the text of a value as a tree, with the arrays around it;
* `Heap.free`          the number of arrays that can still be marked, which bounds the depth;
* `display_marked`     rendering inside some arrays gives the text there and leaves the marks as they are;
* `rendering_leaves_no_trace`   the main statement.
-/

namespace ScriptMachine

/-! ## rendering by marks -/

/-- an array, and whether it is being rendered -/
structure ArrayCell where
  items : Array Value
  rendering : Bool

/-- a computation that reads and marks arrays; there is no result if it goes deeper than it may -/
abbrev Rendering := StateT (Array ArrayCell) Option

namespace Rendering

/-- sets the mark of an array or takes it back; the result is the mark from before -/
def replaceMark (id : ArrayId) (mark : Bool) : Rendering Bool := do
  let cells ← get
  set (cells.modify id.index fun cell => { cell with rendering := mark })
  return (cells[id.index]?.map ArrayCell.rendering).getD false

def items (id : ArrayId) : Rendering (List Value) := do
  let cells ← get
  return ((cells[id.index]?.map ArrayCell.items).getD #[]).toList

/-- the texts of the items of an array, by the way in which `display` shows one of them -/
def render (display : Value → Rendering String) (separator : String) (id : ArrayId) :
    Rendering String := do
  if ← replaceMark id true then return ""
  let texts ← (← items id).mapM display
  let _ ← replaceMark id false
  return separator.intercalate texts

/-- the text of a value, with at most so many arrays inside each other -/
def display : Nat → Value → Rendering String
  | 0, _ => failure
  | levels + 1, .array id => render (display levels) "," id
  | _ + 1, v => return v.plainText

/-- the separator that an argument of `join` stands for -/
def separator (levels : Nat) : Option Value → Rendering String
  | none | some .undefined => return ","
  | some v => display levels v

/-- the method `join`: the separator is shown first, then the items are -/
def join (levels : Nat) (id : ArrayId) (args : List Value) : Rendering String := do
  render (display levels) (← separator levels args.head?) id

end Rendering

namespace Heap

/-- the arrays of a heap, those of a path marked -/
def marked (heap : Heap) (path : List ArrayId) : Array ArrayCell :=
  heap.arrays.mapIdx fun i items => ⟨items, decide (⟨i⟩ ∈ path)⟩

/-- the arrays of a heap, none of them marked -/
def unmarked (heap : Heap) : Array ArrayCell := heap.arrays.map (⟨·, false⟩)

/-- the separator that an argument of `join` stands for -/
def separator (heap : Heap) : Option Value → String
  | none | some .undefined => ","
  | some v => heap.text v

mutual

/-- The text of a value as a tree that is walked from the top: arrays are rendered in full wherever they
are met, but for those that the way from the top already goes through. -/
inductive Expands (heap : Heap) : List ArrayId → Value → String → Prop
  | plain {path : List ArrayId} {v : Value} (h : ∀ id, v ≠ .array id) : Expands heap path v v.plainText
  | again {path : List ArrayId} {id : ArrayId} (h : id ∈ path) : Expands heap path (.array id) ""
  | array {path : List ArrayId} {id : ArrayId} {texts : List String} (h : id ∉ path)
      (hitems : ExpandsAll heap (id :: path) (heap.items id).toList texts) :
    Expands heap path (.array id) (",".intercalate texts)

inductive ExpandsAll (heap : Heap) : List ArrayId → List Value → List String → Prop
  | nil {path : List ArrayId} : ExpandsAll heap path [] []
  | cons {path : List ArrayId} {v : Value} {t : String} {vs : List Value} {ts : List String}
      (h : Expands heap path v t) (rest : ExpandsAll heap path vs ts) :
    ExpandsAll heap path (v :: vs) (t :: ts)

end

/-- the number of arrays that are not on a path -/
def free (heap : Heap) (path : List ArrayId) : Nat :=
  ((Finset.range heap.arrays.size).filter fun i => ⟨i⟩ ∉ path).card

section
variable {heap : Heap} {path : List ArrayId} {id : ArrayId} {levels : Nat}

/-! ## the depth -/

theorem free_nil : heap.free [] = heap.arrays.size := by
  unfold free
  rw [Finset.filter_true_of_mem fun i _ => List.not_mem_nil, Finset.card_range]

theorem free_cons_lt (hlt : id.index < heap.arrays.size) (hid : id ∉ path) :
    heap.free (id :: path) < heap.free path := by
  refine Finset.card_lt_card (Finset.ssubset_iff_of_subset ?_ |>.mpr ⟨id.index, ?_, ?_⟩)
  · intro i hi
    rw [Finset.mem_filter] at hi ⊢
    exact ⟨hi.1, fun hmem => hi.2 (List.mem_cons_of_mem id hmem)⟩
  · exact Finset.mem_filter.mpr ⟨Finset.mem_range.mpr hlt, hid⟩
  · exact fun hi => (Finset.mem_filter.mp hi).2 List.mem_cons_self

theorem lt_of_mem_items {v : Value} (h : v ∈ (heap.items id).toList) :
    id.index < heap.arrays.size := by
  by_contra hge
  unfold items at h
  rw [Array.getElem?_eq_none (Nat.not_lt.mp hge)] at h
  exact List.not_mem_nil h

/-- inside one more array there are still enough levels for its items -/
theorem free_lt_of_mem {v : Value} (h : heap.free path < levels + 1) (hid : id ∉ path)
    (hv : v ∈ (heap.items id).toList) : heap.free (id :: path) < levels :=
  Nat.lt_of_lt_of_le (free_cons_lt (lt_of_mem_items hv) hid) (Nat.le_of_lt_succ h)

/-! ## the text -/

theorem textWithin_plain {v : Value} (hv : ∀ id, v ≠ .array id) :
    heap.textWithin (levels + 1) path v = v.plainText := by
  cases v with
  | array id => exact absurd rfl (hv id)
  | _ => rfl

theorem expandsAll_iff {f : Value → String} {vs : List Value} {ts : List String}
    (h : ∀ v ∈ vs, ∀ t, heap.Expands path v t ↔ t = f v) :
    heap.ExpandsAll path vs ts ↔ ts = vs.map f := by
  induction vs generalizing ts with
  | nil =>
    refine ⟨fun hts => ?_, fun hts => ?_⟩
    · cases hts
      rfl
    · subst hts
      exact .nil
  | cons v vs ih =>
    obtain ⟨hv, hvs⟩ := List.forall_mem_cons.mp h
    refine ⟨fun hts => ?_, fun hts => ?_⟩
    · cases hts with
      | cons hfirst hrest => rw [List.map_cons, (hv _).mp hfirst, (ih hvs).mp hrest]
    · subst hts
      exact .cons ((hv _).mpr rfl) ((ih hvs).mpr rfl)

/-- A value has one text, and it is found within as many levels as there are arrays that can be met. -/
theorem expands_iff (hlevels : heap.free path < levels) (v : Value) (t : String) :
    heap.Expands path v t ↔ t = heap.textWithin levels path v := by
  -- on the levels: what is inside an array has one array less to meet
  induction levels generalizing path v t with
  | zero => exact absurd hlevels (Nat.not_lt_zero _)
  | succ levels ih =>
    by_cases hv : ∀ id, v ≠ .array id
    · rw [textWithin_plain hv]
      refine ⟨fun ht => ?_, fun ht => ht ▸ .plain hv⟩
      cases ht with
      | plain => rfl
      | again => exact absurd rfl (hv _)
      | array => exact absurd rfl (hv _)
    obtain ⟨id, rfl⟩ := not_forall_not.mp hv
    by_cases hid : id ∈ path
    · rw [textWithin, if_pos hid]
      refine ⟨fun ht => ?_, fun ht => ht ▸ .again hid⟩
      cases ht with
      | plain h => exact absurd rfl (h id)
      | again => rfl
      | array h => exact absurd hid h
    · have hall (texts : List String) : heap.ExpandsAll (id :: path) (heap.items id).toList texts
          ↔ texts = (heap.items id).toList.map (heap.textWithin levels (id :: path)) :=
        expandsAll_iff fun v hv t => ih (free_lt_of_mem hlevels hid hv) v t
      rw [textWithin, if_neg hid]
      refine ⟨fun ht => ?_, fun ht => ht ▸ .array hid ((hall _).mpr rfl)⟩
      cases ht with
      | plain h => exact absurd rfl (h id)
      | again h => exact absurd h hid
      | array _ hitems => rw [(hall _).mp hitems]

/-- with enough levels it makes no difference how many there are -/
theorem textWithin_eq {levels' : Nat} (h : heap.free path < levels) (h' : heap.free path < levels')
    (v : Value) : heap.textWithin levels path v = heap.textWithin levels' path v :=
  (expands_iff h' v _).mp ((expands_iff h v _).mpr rfl)

/-! ## the marks -/

theorem getElem?_marked (path : List ArrayId) (i : Nat) :
    (heap.marked path)[i]?
      = heap.arrays[i]?.map fun items => ⟨items, decide (⟨i⟩ ∈ path)⟩ :=
  Array.getElem?_mapIdx

theorem marked_nil : heap.marked [] = heap.unmarked := by
  refine Array.ext_getElem? fun i => ?_
  rw [getElem?_marked]
  exact Array.getElem?_map.symm

theorem marked_congr {path' : List ArrayId} (h : ∀ id, id ∈ path ↔ id ∈ path') :
    heap.marked path = heap.marked path' := by
  refine Array.ext_getElem? fun i => ?_
  rw [getElem?_marked, getElem?_marked, funext fun items =>
    congrArg (ArrayCell.mk items) (decide_eq_decide.mpr (h ⟨i⟩))]

/-- marking one more array, or taking the mark of the innermost one back -/
theorem modify_marked {path' : List ArrayId} {mark : Bool} (hself : decide (id ∈ path') = mark)
    (hother : ∀ other, other ≠ id → (other ∈ path' ↔ other ∈ path)) :
    (heap.marked path).modify id.index (fun cell => { cell with rendering := mark })
      = heap.marked path' := by
  refine Array.ext_getElem? fun i => ?_
  rw [Array.getElem?_modify, getElem?_marked, getElem?_marked]
  by_cases hi : id.index = i
  · subst hi
    rw [if_pos rfl, Option.map_map, ← hself]
    rfl
  · have hne : (⟨i⟩ : ArrayId) ≠ id := fun h => hi (congrArg ArrayId.index h).symm
    rw [if_neg hi, decide_eq_decide.mpr (hother ⟨i⟩ hne)]

end

end Heap

namespace Rendering

section
variable {heap : Heap} {path : List ArrayId} {id : ArrayId} {levels : Nat}

theorem run_bind {α β : Type} {x : Rendering α} {f : α → Rendering β} {cells cells' : Array ArrayCell}
    {a : α} (h : x.run cells = some (a, cells')) : (x >>= f).run cells = (f a).run cells' := by
  rw [StateT.run_bind, h]
  rfl

theorem replaceMark_true (hpath : id ∈ path → id.index < heap.arrays.size) :
    (replaceMark id true).run (heap.marked path)
      = some (decide (id ∈ path), heap.marked (id :: path)) := by
  have hmarked : (heap.marked path).modify id.index (fun cell => { cell with rendering := true })
      = heap.marked (id :: path) :=
    Heap.modify_marked (decide_eq_true List.mem_cons_self) fun other hne => by
      rw [List.mem_cons, or_iff_right hne]
  show some (((heap.marked path)[id.index]?.map ArrayCell.rendering).getD false, _) = _
  rw [hmarked, Heap.getElem?_marked]
  by_cases hlt : id.index < heap.arrays.size
  · rw [Array.getElem?_eq_getElem hlt]
    rfl
  · rw [Array.getElem?_eq_none (Nat.not_lt.mp hlt), decide_eq_false fun hid => hlt (hpath hid)]
    rfl

theorem replaceMark_false (heap : Heap) (hid : id ∉ path) :
    ∃ mark, (replaceMark id false).run (heap.marked (id :: path)) = some (mark, heap.marked path) := by
  have hmarked : (heap.marked (id :: path)).modify id.index (fun cell => { cell with rendering := false })
      = heap.marked path :=
    Heap.modify_marked (decide_eq_false hid) fun other hne => by
      rw [List.mem_cons, or_iff_right hne]
  refine ⟨((heap.marked (id :: path))[id.index]?.map ArrayCell.rendering).getD false, ?_⟩
  rw [← hmarked]
  rfl

theorem items_marked :
    (items id).run (heap.marked path) = some ((heap.items id).toList, heap.marked path) := by
  have hitems : (heap.marked path)[id.index]?.map ArrayCell.items = heap.arrays[id.index]? := by
    rw [Heap.getElem?_marked, Option.map_map]
    exact Option.map_id'
  show some ((((heap.marked path)[id.index]?.map ArrayCell.items).getD #[]).toList, _) = _
  rw [hitems]
  rfl

/-- showing values one after another, each of which leaves the marks as they are -/
theorem mapM_marked {display : Value → Rendering String} {f : Value → String} {vs : List Value}
    (h : ∀ v ∈ vs, (display v).run (heap.marked path) = some (f v, heap.marked path)) :
    (vs.mapM display).run (heap.marked path) = some (vs.map f, heap.marked path) := by
  induction vs with
  | nil => rfl
  | cons v vs ih =>
    obtain ⟨hv, hvs⟩ := List.forall_mem_cons.mp h
    rw [List.mapM_cons, run_bind hv, run_bind (ih hvs)]
    rfl

/-- an array that is marked already has no text -/
theorem render_again {display : Value → Rendering String} (separator : String) (hid : id ∈ path)
    (hlt : id.index < heap.arrays.size) :
    (render display separator id).run (heap.marked path) = some ("", heap.marked path) := by
  have hsame : heap.marked (id :: path) = heap.marked path :=
    Heap.marked_congr fun other => ⟨fun h => (List.mem_cons.mp h).elim (· ▸ hid) fun h => h,
      List.mem_cons_of_mem id⟩
  unfold render
  rw [run_bind (replaceMark_true fun _ => hlt), decide_eq_true hid, hsame]
  rfl

/-- an array that is not marked is so while its items are shown, and no longer -/
theorem render_items {display : Value → Rendering String} {f : Value → String} (separator : String)
    (hid : id ∉ path)
    (hitems : ∀ v ∈ (heap.items id).toList,
      (display v).run (heap.marked (id :: path)) = some (f v, heap.marked (id :: path))) :
    (render display separator id).run (heap.marked path)
      = some (separator.intercalate ((heap.items id).toList.map f), heap.marked path) := by
  obtain ⟨mark, hback⟩ := replaceMark_false heap hid
  unfold render
  rw [run_bind (replaceMark_true fun h => absurd h hid), decide_eq_false hid]
  show (items id >>= fun vs => vs.mapM display >>= fun texts => replaceMark id false >>= fun _ =>
    pure (separator.intercalate texts)).run (heap.marked (id :: path)) = _
  rw [run_bind items_marked, run_bind (mapM_marked hitems), run_bind hback]
  rfl

end

end Rendering

/-! ## rendering -/

open Rendering

section
variable {heap : Heap} {path : List ArrayId} {id : ArrayId} {levels : Nat}

/-- **Rendering inside some arrays gives the text there and leaves the marks as they are.** -/
theorem display_marked (hpath : ∀ id ∈ path, id.index < heap.arrays.size)
    (hlevels : heap.free path < levels) (v : Value) :
    (display levels v).run (heap.marked path)
      = some (heap.textWithin levels path v, heap.marked path) := by
  induction levels generalizing path v with
  | zero => exact absurd hlevels (Nat.not_lt_zero _)
  | succ levels ih =>
    by_cases hv : ∀ id, v ≠ .array id
    · rw [Heap.textWithin_plain hv]
      cases v with
      | array id => exact absurd rfl (hv id)
      | _ => rfl
    obtain ⟨id, rfl⟩ := not_forall_not.mp hv
    rw [display, Heap.textWithin]
    by_cases hid : id ∈ path
    · rw [if_pos hid]
      exact render_again "," hid (hpath id hid)
    · rw [if_neg hid]
      refine render_items "," hid fun v hv => ih ?_ (Heap.free_lt_of_mem hlevels hid hv) v
      exact List.forall_mem_cons.mpr ⟨Heap.lt_of_mem_items hv, hpath⟩

theorem display_unmarked (hlevels : heap.arrays.size < levels) (v : Value) :
    (display levels v).run heap.unmarked = some (heap.text v, heap.unmarked) := by
  have hfree : heap.free [] < levels := Heap.free_nil.trans_lt hlevels
  have hsize : heap.free [] < heap.arrays.size + 1 := Heap.free_nil.trans_lt (Nat.lt_succ_self _)
  have hpath : ∀ id ∈ ([] : List ArrayId), id.index < heap.arrays.size :=
    fun _ h => absurd h List.not_mem_nil
  rw [← Heap.marked_nil, display_marked hpath hfree, Heap.textWithin_eq hfree hsize]
  rfl

theorem separator_unmarked (hlevels : heap.arrays.size < levels) (arg : Option Value) :
    (separator levels arg).run heap.unmarked = some (heap.separator arg, heap.unmarked) := by
  unfold separator Heap.separator
  split
  · rfl
  · rfl
  · exact display_unmarked hlevels _

theorem callArray_join (heap : Heap) (id : ArrayId) (args : List Value) :
    heap.callArray id .join args
      = (.ok (.string (heap.join (heap.separator args.head?) id)), heap) := by
  unfold Heap.callArray Heap.separator
  rfl

theorem join_unmarked (hlevels : heap.arrays.size < levels) (id : ArrayId) (args : List Value) :
    (join levels id args).run heap.unmarked
      = some (heap.join (heap.separator args.head?) id, heap.unmarked) := by
  have hfree (v : Value) (hv : v ∈ (heap.items id).toList) : heap.free [id] < heap.arrays.size :=
    Heap.free_nil ▸ Heap.free_cons_lt (Heap.lt_of_mem_items hv) List.not_mem_nil
  have hrender (separator : String) : (render (display levels) separator id).run heap.unmarked
      = some (heap.join separator id, heap.unmarked) := by
    rw [← Heap.marked_nil]
    refine render_items separator List.not_mem_nil fun v hv => ?_
    rw [display_marked (List.forall_mem_singleton.mpr (Heap.lt_of_mem_items hv))
      ((hfree v hv).trans hlevels), Heap.textWithin_eq ((hfree v hv).trans hlevels) (hfree v hv)]
  unfold join
  rw [run_bind (separator_unmarked hlevels args.head?), hrender]

/-- **Rendering arrays ends on every heap and leaves no trace.**  Take a heap whose arrays are not marked,
and more levels than it has arrays.  Values that are shown one after another have the texts that the
machine gives them, which are the only ones they expand to; the items of an array are joined with a
separator as the machine does it, the arrays among them expanded inside that array.  Behind it all, the
arrays have the items that they had, and no marks. -/
theorem rendering_leaves_no_trace (heap : Heap) (hlevels : heap.arrays.size < levels) :
    (∀ vs : List Value,
      (vs.mapM (display levels)).run heap.unmarked = some (vs.map heap.text, heap.unmarked))
    ∧ (∀ (v : Value) (t : String), heap.Expands [] v t ↔ t = heap.text v)
    ∧ ∀ (id : ArrayId) (args : List Value), ∃ texts,
      (∀ ts, heap.ExpandsAll [id] (heap.items id).toList ts ↔ ts = texts)
      ∧ (join levels id args).run heap.unmarked
        = some ((heap.separator args.head?).intercalate texts, heap.unmarked)
      ∧ heap.callArray id .join args
        = (.ok (.string ((heap.separator args.head?).intercalate texts)), heap) := by
  refine ⟨fun vs => ?_, fun v t => ?_, fun id args => ?_⟩
  · rw [← Heap.marked_nil]
    refine mapM_marked fun v _ => ?_
    rw [Heap.marked_nil]
    exact display_unmarked hlevels v
  · exact Heap.expands_iff (Heap.free_nil.trans_lt (Nat.lt_succ_self _)) v t
  · refine ⟨(heap.items id).toList.map (heap.textWithin heap.arrays.size [id]), fun ts => ?_,
      join_unmarked hlevels id args, ?_⟩
    · refine Heap.expandsAll_iff fun v hv => Heap.expands_iff ?_ v
      exact Heap.free_nil ▸ Heap.free_cons_lt (Heap.lt_of_mem_items hv) List.not_mem_nil
    · rw [callArray_join]
      rfl

end

/-- a heap with an array that contains itself and twice another one -/
def selfContaining : Heap :=
  { Heap.empty with
    arrays := #[#[.string "a", .array ⟨0⟩, .array ⟨1⟩, .array ⟨1⟩], #[.string "b", .string "c"]] }

theorem rendering_leaves_no_trace_twice :
    ([Value.array ⟨0⟩, .array ⟨0⟩].mapM (display 3)).run selfContaining.unmarked
        = some (["a,,b,c,b,c", "a,,b,c,b,c"], selfContaining.unmarked)
      ∧ (join 3 ⟨0⟩ [.string "-"]).run selfContaining.unmarked
        = some ("a--b,c-b,c", selfContaining.unmarked) := by
  have hlevels : selfContaining.arrays.size < 3 := by decide
  obtain ⟨hdisplay, -, hjoin⟩ := rendering_leaves_no_trace selfContaining hlevels
  have htext : selfContaining.text (.array ⟨0⟩) = "a,,b,c,b,c" := by cbv
  refine ⟨?_, ?_⟩
  · rw [hdisplay, List.map_cons, List.map_singleton, htext]
  · obtain ⟨texts, -, hrun, hcall⟩ := hjoin ⟨0⟩ [.string "-"]
    have hvalue : (selfContaining.callArray ⟨0⟩ .join [.string "-"]).1
        = .ok (.string "a--b,c-b,c") := by cbv
    rw [hcall] at hvalue
    rw [hrun, Value.string.inj (Except.ok.inj hvalue)]

end ScriptMachine
