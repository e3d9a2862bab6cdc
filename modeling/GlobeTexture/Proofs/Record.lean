import GlobeTexture.Proofs.Transaction

/-! # The record of a host

A host keeps a record of the calls it receives, but for reports of progress. Work that an operation concludes is
recorded as one transaction, whether it succeeds, meets a fault or leaves the range of words. -/

namespace GlobeTexture

/-- The text of a reported error; progress has none. -/
def Remark.error? : Remark → Option String
  | progress _ => none
  | error m => some m

/-- A transaction as a host records it. -/
structure Block where
  errors : List String
  ending : Ending

/-- The calls of a transaction that reports nothing but errors. -/
def Block.calls (b : Block) : List HostCall :=
  transaction (b.errors.map .error) b.ending

/-- The lines of a transaction in the record. -/
def Block.lines (b : Block) : List String :=
  "begin" :: b.errors.map (fun m => s!"error: {m}") ++ [match b.ending with | .commit => "commit" | .drop => "rollback"]

/-! ### Whole transactions -/

namespace HostCall

/-- Whether a transaction is open after a call, if the call may be made when none is open or one is. -/
def next? : Bool → HostCall → Option Bool
  | false, opened => some true
  | true, remarked _ => some true
  | true, committed => some false
  | true, rolledBack => some false
  | _, _ => none

/-- Whole transactions, one after another. -/
def Settled (cs : List HostCall) : Prop :=
  ∃ bs : List Block, cs = bs.flatMap Block.calls

theorem settled_nil : Settled [] :=
  ⟨[], rfl⟩

theorem settled_block (b : Block) : Settled b.calls :=
  ⟨[b], by simp⟩

theorem Settled.append {cs ds : List HostCall} (hc : Settled cs) (hd : Settled ds) : Settled (cs ++ ds) := by
  obtain ⟨bs, rfl⟩ := hc
  obtain ⟨bs', rfl⟩ := hd
  exact ⟨bs ++ bs', by simp⟩

theorem filterMap_record?_block (b : Block) : b.calls.filterMap record? = b.lines := by
  have herrors : ((b.errors.map .error).map remarked).filterMap record? = b.errors.map fun m => s!"error: {m}" := by
    simp [List.filterMap_map, Function.comp_def, record?]
  have hend : [b.ending.call].filterMap record? =
      [match b.ending with | .commit => "commit" | .drop => "rollback"] := by
    cases b.ending <;> rfl
  rw [Block.calls, transaction, List.filterMap_append, hend]
  exact congrArg ("begin" :: · ++ _) herrors

theorem foldlM_next?_remarks (rs : List Remark) : (rs.map remarked).foldlM next? true = some true := by
  induction rs with
  | nil => rfl
  | cons r rs ih => exact ih

theorem foldlM_next?_block (b : Block) : b.calls.foldlM next? false = some false := by
  have hend : next? true b.ending.call = some false := by cases b.ending <;> rfl
  have hopen : (opened :: (b.errors.map .error).map remarked).foldlM next? false = some true :=
    foldlM_next?_remarks _
  rw [Block.calls, transaction, List.foldlM_append, hopen]
  simp [hend]

/-- No transaction is opened in another, and none is open at the end. -/
theorem Settled.foldlM_next? {cs : List HostCall} (h : Settled cs) : cs.foldlM next? false = some false := by
  obtain ⟨bs, rfl⟩ := h
  induction bs with
  | nil => rfl
  | cons b bs ih =>
    rw [List.flatMap_cons, List.foldlM_append, foldlM_next?_block]
    exact ih

theorem countP_block (b : Block) :
    b.calls.countP (· matches opened) =
      b.calls.countP (· matches committed) + b.calls.countP (· matches rolledBack) := by
  obtain ⟨errors, ending⟩ := b
  cases ending <;> simp [Block.calls, transaction, Ending.call, List.countP_append, Function.comp_def]

theorem Settled.countP_opened {cs : List HostCall} (h : Settled cs) :
    cs.countP (· matches opened) = cs.countP (· matches committed) + cs.countP (· matches rolledBack) := by
  obtain ⟨bs, rfl⟩ := h
  induction bs with
  | nil => rfl
  | cons b bs ih =>
    simp only [List.flatMap_cons, List.countP_append]
    have := countP_block b
    omega

end HostCall

/-! ### What is recorded -/

namespace Event

/-- The calls of which a host keeps a record. -/
def recorded (es : List Event) : List HostCall :=
  (calls es).filter fun c => c.record?.isSome

theorem records_eq_recorded (es : List Event) : records es = (recorded es).filterMap HostCall.record? := by
  simp only [records, recorded, List.filterMap_filter]
  congr 1
  funext c
  cases c.record? <;> rfl

@[simp] theorem recorded_append (es fs : List Event) : recorded (es ++ fs) = recorded es ++ recorded fs := by
  simp [recorded]

theorem recorded_call_cons (c : HostCall) (es : List Event) :
    recorded (call c :: es) = if c.record?.isSome then c :: recorded es else recorded es := by
  simp [recorded, List.filter_cons]

theorem Quiet.recorded_eq {es : List Event} (h : Quiet es) : recorded es = [] := by
  rw [recorded, h.calls_eq]
  simp [HostCall.record?]

theorem filter_remarks (rs : List Remark) :
    (rs.map HostCall.remarked).filter (fun c => c.record?.isSome) =
      ((rs.filterMap Remark.error?).map .error).map .remarked := by
  induction rs with
  | nil => rfl
  | cons r rs ih =>
    cases r with
    | progress x => exact ih
    | error m => exact congrArg (.remarked (.error m) :: ·) ih

theorem recorded_transaction (rs : List Remark) (ending : Ending) :
    recorded ((transaction rs ending).map call) = (⟨rs.filterMap Remark.error?, ending⟩ : Block).calls := by
  have hcalls : calls ((transaction rs ending).map call) = transaction rs ending := by
    simp [calls, List.filterMap_map, Function.comp_def, call?]
  have hend : [ending.call].filter (fun c => c.record?.isSome) = [ending.call] := by cases ending <;> rfl
  rw [recorded, hcalls, transaction, List.filter_append, List.filter_cons_of_pos rfl, filter_remarks, hend]
  rfl

end Event

section Conclude
variable {α β : Type} (op : Operation) {work : Traced β}

/-- Work that reports nothing but progress is recorded as one transaction, however it ends. -/
theorem Operation.recorded_conclude (h : Event.Quiet work.events) :
    ∃ b : Block, Event.recorded (op.conclude work).events = b.calls := by
  cases hwork : work.result with
  | ok b =>
    refine ⟨⟨[], .commit⟩, ?_⟩
    rw [op.events_conclude_of_ok hwork, Event.recorded_append, Event.recorded_call_cons, h.recorded_eq]
    rfl
  | error e =>
    cases e with
    | fault f =>
      refine ⟨⟨[f.message], .drop⟩, ?_⟩
      rw [op.events_conclude_of_fault hwork, Event.recorded_append, Event.recorded_call_cons, Event.recorded_append,
        h.recorded_eq]
      rfl
    | outOfRange =>
      refine ⟨⟨[], .drop⟩, ?_⟩
      rw [op.events_conclude_of_outOfRange hwork, Event.recorded_append, Event.recorded_call_cons, h.recorded_eq]
      rfl

variable [Pixel α] (options : Options)

theorem Operation.recorded_run (src : Source α) :
    ∃ b : Block, Event.recorded (op.run src options).events = b.calls := by
  rw [run_eq]
  exact op.recorded_conclude (op.draw_drawn src options).quiet

theorem Operation.recorded_applied (l : Layer α) :
    ∃ b : Block, Event.recorded (op.applied l options).events = b.calls := by
  have hquiet : Event.Quiet (l.redrawn (op.draw l.pixels.source options)).events :=
    (op.draw_drawn l.pixels.source options).quiet
  rw [applied_eq]
  exact op.recorded_conclude hquiet

end Conclude

end GlobeTexture
