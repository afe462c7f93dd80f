import MiniC.Memory.Fault

/-!
# Histories of memory

Operations are performed on a memory one after the other (`History.run`), and each is written down
with what the memory answered (`History.log`); one that fails leaves the memory as it is. What holds
of the empty history and is kept by every further entry holds of every history
(`History.run_induction`).

Some operations that succeed leave something on record (`History.records`). What is seen of the
memory and is replaced by what goes on record is the latest of the records (`History.view_run`).
-/

set_option autoImplicit false

namespace MiniC.History

variable {σ ω α β : Type} (perform : ω → σ → Except MemoryFault (α × σ))

/-- What the memory answers to an operation. -/
def answer (op : ω) (s : σ) : Except MemoryFault α := (perform op s).map Prod.fst

/-- The memory after an operation. -/
def after (op : ω) (s : σ) : σ :=
  match perform op s with
  | .ok (_, t) => t
  | .error _ => s

/-- The memory after several operations. -/
def run (ops : List ω) (s : σ) : σ := ops.foldl (fun t op => after perform op t) s

/-- The operations with their answers, the first one first. -/
def log : List ω → σ → List (ω × Except MemoryFault α)
  | [], _ => []
  | op :: ops, s => (op, answer perform op s) :: log ops (after perform op s)

variable {perform} {op : ω} {s t : σ} {a : α} {fault : MemoryFault}

theorem answer_of_ok (h : perform op s = .ok (a, t)) : answer perform op s = .ok a := by
  rw [answer, h]
  rfl

theorem after_of_ok (h : perform op s = .ok (a, t)) : after perform op s = t := by rw [after, h]

theorem answer_of_error (h : perform op s = .error fault) : answer perform op s = .error fault := by
  rw [answer, h]
  rfl

/-- An operation that fails leaves the memory as it is. -/
theorem after_of_error (h : perform op s = .error fault) : after perform op s = s := by
  rw [after, h]

/-- What has a result after it was mapped had one before. -/
theorem exists_of_map_eq_ok {f : β → α} {x : Except MemoryFault β} (h : x.map f = .ok a) :
    ∃ b, x = .ok b ∧ f b = a := by
  cases x with
  | error fault => cases h
  | ok b => exact ⟨b, rfl, Except.ok.inj h⟩

/-- What holds of the empty history and is kept by every entry holds of the history of a run. -/
theorem run_induction {P : List (ω × Except MemoryFault α) → σ → Prop} (start : P [] s)
    (succeeds : ∀ {entries op t a u}, P entries t → perform op t = .ok (a, u) →
      P (entries ++ [(op, .ok a)]) u)
    (fails : ∀ {entries op t fault}, P entries t → perform op t = .error fault →
      P (entries ++ [(op, .error fault)]) t)
    (ops : List ω) : P (log perform ops s) (run perform ops s) := by
  -- any entries may have come before, so that the hypothesis can be used after the first operation
  suffices h : ∀ entries t, P entries t →
    P (entries ++ log perform ops t) (run perform ops t) from h [] s start
  induction ops with
  | nil =>
    intro entries t ht
    rwa [log, List.append_nil]
  | cons op ops ih =>
    intro entries t ht
    rw [log, List.append_cons]
    cases hperform : perform op t with
    | error fault =>
      have hrest := ih _ _ (fails ht hperform)
      rwa [answer_of_error hperform, run, List.foldl_cons, after_of_error hperform]
    | ok result =>
      obtain ⟨a, u⟩ := result
      have hrest := ih _ _ (succeeds ht hperform)
      rwa [answer_of_ok hperform, run, List.foldl_cons, after_of_ok hperform]

/-! ## Records -/

/-- What an operation leaves on record, unless it failed. -/
def recorded? (record? : ω → α → Option β) : ω × Except MemoryFault α → Option β
  | (op, .ok a) => record? op a
  | (_, .error _) => none

/-- What is on record, the first one first. -/
def records (record? : ω → α → Option β) (entries : List (ω × Except MemoryFault α)) : List β :=
  entries.filterMap (recorded? record?)

/-- The latest of the records; the first value if there is none. -/
def latest (record? : ω → α → Option β) (first : β) (entries : List (ω × Except MemoryFault α)) :
    β :=
  (records record? entries).getLastD first

theorem records_concat_ok (record? : ω → α → Option β) (entries : List (ω × Except MemoryFault α))
    (op : ω) (a : α) :
    records record? (entries ++ [(op, .ok a)]) = records record? entries ++
      (record? op a).toList := by
  unfold records
  rw [List.filterMap_append]
  cases h : record? op a <;> simp [recorded?, h]

theorem records_concat_error (record? : ω → α → Option β)
    (entries : List (ω × Except MemoryFault α)) (op : ω)
    (fault : MemoryFault) : records record? (entries ++ [(op, .error fault)]) =
      records record? entries := by
  simp [records, recorded?]

/-- What every operation that succeeds replaces by its record, or leaves alone if it has none, is
the latest record. -/
theorem view_run (view : σ → β) (record? : ω → α → Option β)
    (hstep : ∀ {op t a u}, perform op t = .ok (a, u) → view u = (record? op a).getD (view t))
    (ops : List ω) (s : σ) :
    view (run perform ops s) = latest record? (view s) (log perform ops s) := by
  refine run_induction (P := fun entries t => view t =
    latest record? (view s) entries) rfl ?_ ?_ ops
  · intro entries op t a u ht hperform
    rw [hstep hperform, ht, latest, latest, records_concat_ok]
    cases record? op a with
    | none => simp
    | some b => simp
  · intro entries op t fault ht _
    rw [ht, latest, latest, records_concat_error]

end MiniC.History
