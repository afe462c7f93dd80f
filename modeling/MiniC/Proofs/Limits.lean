import MiniC.Proofs.Fuel

/-!
# Limits of runs

A run with more heap, a greater depth of calls and more input is the same run, unless the smaller
one met one of its limits (`Run.run_of_raised_limits`): a limit shows in nothing but the four errors
that say that it was met, and until then both runs put out the same.
-/

set_option autoImplicit false

namespace MiniC

/-! ## Limits -/

/-- The faults that say that a limit of the run was met: the capacity of the heap, the depth of
calls or the end of the input. -/
def RuntimeFault.isLimit : RuntimeFault → Bool
  | memory (.heapExhausted ..) => true
  | memory (.invalidHeapAccess _) => true
  | recursionLimit _ => true
  | inputUnavailable => true
  | _ => false

/-- The run halted because it met a limit. -/
def Halt.isLimit : Halt → Bool
  | error (.fault cause _) => cause.isLimit
  | _ => false

/-- The limits of the one configuration are at most those of the other. -/
structure Config.AtMost (config config' : Config) : Prop where
  heapCapacity : config.heapCapacity ≤ config'.heapCapacity
  maxCallDepth : config.maxCallDepth ≤ config'.maxCallDepth
  strict : config'.strict = config.strict

namespace Heap

/-- The same heap, perhaps with more room. -/
structure Raised (h h' : Heap) : Prop where
  capacity : h.capacity ≤ h'.capacity
  used : h'.used = h.used
  bytes : h'.bytes = h.bytes

variable {h h' : Heap} (hraised : h.Raised h')
include hraised

/-- An address inside a heap is inside a larger one. -/
theorem Raised.wordStart? {address : Int32} {a : Nat} (ha : h.wordStart? address = some a) :
    h'.wordStart? address = some a := by
  unfold Heap.wordStart? at ha ⊢
  rw [Option.filter_eq_some_iff] at ha ⊢
  obtain ⟨hn, hle⟩ := ha
  refine ⟨hn, ?_⟩
  have hcapacity := hraised.capacity
  simp only [decide_eq_true_eq] at hle ⊢
  omega

/-- A larger heap has the same bytes. -/
theorem Raised.byte (a : Nat) : h'.byte a = h.byte a := by
  unfold Heap.byte
  rw [hraised.bytes]

/-- What can be read is the same where there is more room. -/
theorem Raised.read (address : Int32) :
    h'.read address = h.read address ∨ h.read address = .error (.invalidHeapAccess address) := by
  unfold Heap.read
  cases ha : h.wordStart? address with
  | none => exact .inr rfl
  | some a =>
    rw [hraised.wordStart? ha]
    simp only [hraised.byte, true_or]

/-- What can be written is written where there is more room, too. -/
theorem Raised.write (address value : Int32) :
    (∃ k k', h.write address value = .ok k ∧ h'.write address value = .ok k' ∧ k.Raised k') ∨
      h.write address value = .error (.invalidHeapAccess address) := by
  unfold Heap.write
  cases ha : h.wordStart? address with
  | none => exact .inr rfl
  | some a =>
    rw [hraised.wordStart? ha]
    refine .inl ⟨_, _, rfl, rfl, hraised.capacity, hraised.used, ?_⟩
    simp only [hraised.bytes]

/-- What is handed out is handed out at the same address where there is more room; a request that is
refused for another reason than the lack of room is refused there too. -/
theorem Raised.allocate (size : Int32) :
    (∃ address k k', h.allocate size = .ok (address, k) ∧
      h'.allocate size = .ok (address, k') ∧ k.Raised k') ∨
      (∃ f, h.allocate size = .error f ∧ h'.allocate size = .error f) ∨
      ∃ used capacity, h.allocate size = .error (.heapExhausted size used capacity) := by
  unfold Heap.allocate
  cases Word.toNat? size with
  | none => exact .inr (.inl ⟨_, rfl, rfl⟩)
  | some n =>
    dsimp only
    by_cases hfull : h.capacity < h.used + n
    · rw [if_pos hfull]
      exact .inr (.inr ⟨_, _, rfl⟩)
    · have hroom : ¬ h'.capacity < h'.used + n := by
        have hcapacity := hraised.capacity
        rw [hraised.used]
        omega
      rw [if_neg hfull, if_neg hroom, hraised.used]
      by_cases hlast : h.used < 1 <<< 31
      · rw [if_pos hlast, if_pos hlast]
        exact .inl ⟨_, _, _, rfl, rfl, hraised.capacity, rfl, hraised.bytes⟩
      · rw [if_neg hlast, if_neg hlast]
        exact .inr (.inl ⟨_, rfl, rfl⟩)

end Heap

/-- The same state, perhaps with more room on the heap and with more input. -/
structure State.Raised (s t : State Scripted) : Prop where
  stack : t.stack = s.stack
  heap : s.heap.Raised t.heap
  arrays : t.arrays = s.arrays
  input : s.console.input <+: t.console.input
  output : t.console.output = s.console.output
  diagnostics : t.diagnostics = s.diagnostics

/-! ## A run against one with raised limits -/

namespace Cut

open Run

/-- A run against one with raised limits: they are the same until the first meets a limit. -/
def limits : Cut Scripted where
  related := State.Raised
  stopped halt s t := halt.isLimit ∧ s.console.output.toList <+: t.console.output.toList
  stack h := h.stack
  arrays h := h.arrays
  withStack h _ := { h with stack := rfl }
  withArrays h _ := { h with arrays := rfl }
  later h htu := ⟨h.1, h.2.trans (Scripted.output_isPrefix htu.console)⟩

variable {α : Type} {x y : Run Scripted α}

/-- The first computation meets a limit before it puts anything out. -/
theorem matched_of_limit (hy : Adds y) {s t : State Scripted} (hst : s.Raised t) {halt : Halt}
    {u : State Scripted} (hx : x s = .error halt u) (hlimit : halt.isLimit)
    (hout : u.console.output = s.console.output) : Matched limits (x s) (y t) := by
  rw [hx]
  apply Matched.stopped
  refine ⟨hlimit, ?_⟩
  rw [hout, ← hst.output]
  exact Scripted.output_isPrefix (hy.later_endState t).console

variable (image : Image) (config : Config)

theorem orFault_error {f : MemoryFault} (s : State Scripted) :
    (orFault image (.error f) : Run Scripted α) s =
      .error (.error (.fault (.memory f) (image.locationIn s.stack))) s := rfl

/-- A read follows itself up to the end of the smaller heap. -/
theorem follows_load (address : Int32) :
    Follows limits (load image (.heap address))
      (load (image.withConfig config) (.heap address)) := by
  have hadds : Adds (load (image.withConfig config) (.heap address) : Run Scripted Int32) :=
    (reportless_load _ _).adds
  constructor
  · intro s t hst
    rcases hst.heap.read address with hsame | hfault
    · change Matched limits (orFault image (s.heap.read address) s)
        (orFault image (t.heap.read address) t)
      rw [hsame]
      exact (follows_orFault image _).matched hst
    · apply matched_of_limit hadds hst
      · change orFault image (s.heap.read address) s = _
        rw [hfault]
        exact orFault_error image s
      · rfl
      · rfl
  · exact hadds

/-- A write follows itself up to the end of the smaller heap. -/
theorem follows_store (address value : Int32) :
    Follows limits (store image (.heap address) value)
      (store (image.withConfig config) (.heap address) value) := by
  have hadds : Adds (store (image.withConfig config) (.heap address) value : Run Scripted Unit) :=
    (reportless_store _ _ value).adds
  constructor
  · intro s t hst
    have hs : store image (.heap address) value s =
        (orFault image (s.heap.write address value) >>= fun heap => set { s with heap }) s := rfl
    have ht : store (image.withConfig config) (.heap address) value t =
        (orFault image (t.heap.write address value) >>= fun heap => set { t with heap }) t := rfl
    rcases hst.heap.write address value with ⟨k, k', hk, hk', hraised⟩ | hfault
    · rw [hs, ht, hk, hk']
      exact .ok { hst with heap := hraised }
    · apply matched_of_limit hadds hst
      · rw [hs, hfault]
        rfl
      · rfl
      · rfl
  · exact hadds

/-- An allocation follows itself as long as it fits the smaller heap. -/
theorem follows_callMalloc (e arg : ExprId) :
    Follows limits (callMalloc image e arg) (callMalloc (image.withConfig config) e arg) := by
  apply (follows_valueOf image arg).bind
  intro size
  have hadds := (reportless_allocate (κ := Scripted) (image.withConfig config) e size).adds
  constructor
  · intro s t hst
    -- both heaps have room, or both refuse the size, or only the smaller one is full
    rcases hst.heap.allocate size with
      ⟨address, k, k', hk, hk', hraised⟩ | ⟨f, hf, hf'⟩ | ⟨used, capacity, hfull⟩
    · have hbound : State.Raised { s with heap := k } { t with heap := k' } :=
        { hst with heap := hraised }
      have hfollows : Matched limits (bindExpr e address { s with heap := k })
          (bindExpr e address { t with heap := k' }) := (follows_bindExpr e address).matched hbound
      rw [bind_apply, bind_apply]
      change Matched limits ((orFault image (s.heap.allocate size) >>= _) s)
        ((orFault image (t.heap.allocate size) >>= _) t)
      rw [hk, hk']
      exact hfollows
    · rw [bind_apply, bind_apply]
      change Matched limits ((orFault image (s.heap.allocate size) >>= _) s)
        ((orFault image (t.heap.allocate size) >>= _) t)
      rw [hf, hf']
      exact (follows_faultHere (α := Unit) image (.memory f)).matched hst
    · apply matched_of_limit hadds hst
      · rw [bind_apply]
        change (orFault image (s.heap.allocate size) >>= _) s = _
        rw [hfull]
        rfl
      · rfl
      · rfl
  · exact hadds

/-- Reading where there is no more input. -/
theorem callGet_of_input_nil (e : ExprId) {s : State Scripted} (hs : s.console.input = []) :
    callGet image e s = .error (.error (.fault .inputUnavailable (image.locationIn s.stack)))
      { s with console := { s.console with input := s.console.input.tail } } := by
  rw [callGet, bind_apply, get_apply]
  dsimp only
  rw [bind_apply, set_apply]
  dsimp only [Console.readInt]
  rw [hs]
  rfl

/-- Reading takes the first integer of the input. -/
theorem callGet_of_input_cons (e : ExprId) {s : State Scripted} {value : Int32} {rest : List Int32}
    (hs : s.console.input = value :: rest) :
    callGet image e s =
      bindExpr e value { s with console := { s.console with input := rest } } := by
  rw [callGet, bind_apply, get_apply]
  dsimp only
  rw [bind_apply, set_apply]
  dsimp only [Console.readInt]
  rw [hs]
  rfl

/-- A number is read alike as long as the shorter input lasts. -/
theorem follows_callGet (e : ExprId) :
    Follows limits (callGet image e) (callGet (image.withConfig config) e) := by
  have hadds := (reportless_callGet (κ := Scripted) (image.withConfig config) e).adds
  constructor
  · intro s t hst
    cases hinput : s.console.input with
    | nil => exact matched_of_limit hadds hst (callGet_of_input_nil image e hinput) rfl rfl
    | cons value rest =>
      obtain ⟨more, hmore⟩ := hst.input
      rw [hinput] at hmore
      rw [callGet_of_input_cons image e hinput, callGet_of_input_cons _ e hmore.symm]
      apply (follows_bindExpr e value).matched
      exact { hst with input := List.prefix_append rest more }
  · exact hadds

theorem follows_callPrint (arg : ExprId) :
    Follows limits (callPrint image arg) (callPrint (image.withConfig config) arg) := by
  apply (follows_valueOf image arg).bind
  intro value
  constructor
  · intro s t hst
    apply Matched.ok
    refine { hst with output := ?_ }
    exact congrArg (Array.push · value) hst.output
  · intro s
    exact ⟨.write value (.refl _), List.prefix_refl _⟩

/-- A report does not depend on the limits. -/
theorem limits_report {image : Image} {config : Config}
    (hstrict : config.strict = image.config.strict) (e : ExprId) (construct : Unsupported) :
    Follows limits (report image e construct) (report (image.withConfig config) e construct) := by
  unfold report
  rw [Image.withConfig_config, hstrict]
  apply Follows.ite
  · exact .throw _
  · apply Follows.bind
    · constructor
      · intro s t hst
        apply Matched.ok
        exact { hst with diagnostics := congrArg (Array.push · _) hst.diagnostics }
      · intro s
        exact ⟨.notify _ (.refl _), _, Array.toList_push.symm⟩
    · intro _
      exact follows_bindExpr e 0

/-- A call follows itself up to the lower limit on the depth. -/
theorem follows_depth {limit limit' : Nat} (hlimit : limit ≤ limit') {x y : Run Scripted Unit}
    (h : Follows limits x y) :
    Follows limits
      (do
        if limit < (← get).stack.depth then faultHere image (.recursionLimit limit)
        x)
      (do
        if limit' < (← get).stack.depth then faultHere image (.recursionLimit limit')
        y) := by
  have hadds : Adds (do
      if limit' < (← get).stack.depth then faultHere image (.recursionLimit limit')
      y) := by
    apply Within.bind laterEffects (Within.of_readOnly laterEffects readOnly_get)
    intro t
    dsimp only
    split
    · exact Within.bind laterEffects (Within.of_readOnly laterEffects (readOnly_faultHere image _))
        fun _ => h.adds
    · exact h.adds
  constructor
  · intro s t hst
    -- above the lower limit the first run is cut, and below it neither check fails
    by_cases hdeep : limit < s.stack.depth
    · apply matched_of_limit hadds hst
      · rw [bind_apply]
        change (if limit < s.stack.depth then _ else x) s = _
        rw [if_pos hdeep]
        rfl
      · rfl
      · rfl
    · have hdeep' : ¬ limit' < t.stack.depth := by
        rw [hst.stack]
        omega
      rw [bind_apply, bind_apply]
      change Matched limits ((if limit < s.stack.depth then _ else x) s)
        ((if limit' < t.stack.depth then _ else y) t)
      rw [if_neg hdeep, if_neg hdeep']
      exact h.matched hst
  · exact hadds

/-- Configurations with higher limits fit the cut. -/
theorem limits_fit {image : Image} {config : Config} (h : image.config.AtMost config) :
    limits.Fits image config where
  report e construct := limits_report h.strict e construct
  load address := follows_load image config address
  store address value := follows_store image config address value
  get e := follows_callGet image config e
  print arg := follows_callPrint image config arg
  malloc e arg := follows_callMalloc image config e arg
  depth hxy := follows_depth image h.maxCallDepth hxy

end Cut

/-! ## Raised limits -/

namespace Run

/-- Whether a computation ended because it met a limit of the run. -/
def metLimit {κ α : Type} (r : EStateM.Result Halt (State κ) α) : Bool := (halt? r).any Halt.isLimit

/-- The first run of a program, with the given limits and input, ends like this. -/
abbrev RunsTo (p : Program) (config : Config) (input : List Int32)
    (r : EStateM.Result Halt (State Scripted) Int32) : Prop :=
  Ends (Image.load p config) (.initial (Image.load p config) (.ofInput input)) r

/-- What holds of the answer, output and diagnostics of runs that differ at most in what they left
unused. -/
structure Agree {α : Type} (r r' : EStateM.Result Halt (State Scripted) α) : Prop where
  result : result? r' = result? r
  halt : halt? r' = halt? r
  output : (endState r').console.output = (endState r).console.output
  diagnostics : (endState r').diagnostics = (endState r).diagnostics

/-- Runs agree if the first one met no limit. -/
theorem Matched.agree {α : Type} {r r' : EStateM.Result Halt (State Scripted) α}
    (h : Matched Cut.limits r r') (hlimit : metLimit r = false) : Agree r r' := by
  cases h with
  | ok hst => exact ⟨rfl, rfl, hst.output, hst.diagnostics⟩
  | error hst => exact ⟨rfl, rfl, hst.output, hst.diagnostics⟩
  | stopped hstop => exact absurd hstop.1 (Bool.eq_false_iff.1 hlimit)

/-- The output of the first run is the beginning of that of the second. -/
theorem Matched.output_isPrefix {α : Type} {r r' : EStateM.Result Halt (State Scripted) α}
    (h : Matched Cut.limits r r') :
    (endState r).console.output.toList <+: (endState r').console.output.toList := by
  have hout {s t : State Scripted} (hst : s.Raised t) :
      s.console.output.toList <+: t.console.output.toList := hst.output ▸ List.prefix_refl _
  cases h with
  | ok hst => exact hout hst
  | error hst => exact hout hst
  | stopped hstop => exact hstop.2

/-- A run and one with higher limits match up to the limits. -/
theorem matched_of_raised (p : Program) {config config' : Config} (hconfig : config.AtMost config')
    {input input' : List Int32} (hinput : input <+: input') (fuel : Nat) :
    Matched Cut.limits
      (run (Image.load p config) fuel (.initial (Image.load p config) (.ofInput input)))
      (run (Image.load p config') fuel (.initial (Image.load p config') (.ofInput input'))) := by
  have hfits : Cut.limits.Fits (Image.load p config) config' := Cut.limits_fit hconfig
  apply (follows_run hfits (fun hspare => absurd hspare (Nat.lt_irrefl 0)) fuel).matched
  exact {
    stack := rfl
    heap := ⟨hconfig.heapCapacity, rfl, rfl⟩
    arrays := rfl
    input := hinput
    output := rfl
    diagnostics := rfl }

/-- A run that does not meet a limit is the same with raised limits and more input: it has the same
answer, output and diagnostics. If it meets a limit, then its output is a prefix of the output that
the run with raised limits has, if that ends. -/
theorem run_of_raised_limits (p : Program) {config config' : Config}
    (hconfig : config.AtMost config') {input input' : List Int32} (hinput : input <+: input')
    {r : EStateM.Result Halt (State Scripted) Int32} (h : RunsTo p config input r) :
    (metLimit r = false → ∃ r', RunsTo p config' input' r' ∧ Agree r r') ∧
    (metLimit r = true → ∀ r', RunsTo p config' input' r' →
      (endState r).console.output.toList <+: (endState r').console.output.toList) := by
  constructor
  · intro hlimit
    obtain ⟨⟨fuel, hfuel⟩, hdone⟩ := h
    have hmatched := matched_of_raised p hconfig hinput fuel
    rw [hfuel] at hmatched
    have hagree : Agree r _ := hmatched.agree hlimit
    refine ⟨_, ⟨⟨fuel, rfl⟩, ?_⟩, hagree⟩
    rw [hagree.halt]
    exact hdone
  · intro _ r' h'
    obtain ⟨fuel, hfuel⟩ := h.of_add
    obtain ⟨fuel', hfuel'⟩ := h'.of_add
    have hmatched := matched_of_raised p hconfig hinput (fuel + fuel')
    rw [hfuel, Nat.add_comm, hfuel'] at hmatched
    exact hmatched.output_isPrefix

/-- A run with a result met no limit. -/
theorem metLimit_of_result {α : Type} {r : EStateM.Result Halt (State Scripted) α} {a : α}
    (h : result? r = some a) : metLimit r = false := by
  unfold metLimit
  rw [halt?_of_result h]
  rfl

/-- The heap has room for the one block that is asked for; without the second number the run ends
early, having put out the first. -/
theorem run_of_raised_limits_of_input :
    ∃ p r cut, Program.parse
        "int GET(); void PRINT(int n); int* MALLOC(int n);
         int main() { int* a = MALLOC(4); *a = GET(); PRINT(*a); return GET(); }" = .ok p ∧
      RunsTo p { heapCapacity := 4, maxCallDepth := 1 } [2, 6] r ∧ result? r = some 6 ∧
      (∃ r', RunsTo p {} [2, 6, 7] r' ∧ Agree r r') ∧
      RunsTo p { heapCapacity := 4, maxCallDepth := 1 } [2] cut ∧ metLimit cut = true ∧
      ∀ r', RunsTo p {} [2, 6] r' →
        (endState cut).console.output.toList <+: (endState r').console.output.toList := by
  have hconfig : Config.AtMost { heapCapacity := 4, maxCallDepth := 1 } {} :=
    ⟨by decide, by decide, rfl⟩
  -- the parsed program and both runs, as three evaluations
  obtain ⟨p, r, cut, hp, hr, hresult, hcut, hmet⟩ : ∃ p r cut, Program.parse
        "int GET(); void PRINT(int n); int* MALLOC(int n);
         int main() { int* a = MALLOC(4); *a = GET(); PRINT(*a); return GET(); }" = .ok p ∧
      (∃ fuel, run (Image.load p { heapCapacity := 4, maxCallDepth := 1 }) fuel
        (.initial (Image.load p { heapCapacity := 4, maxCallDepth := 1 })
          (Scripted.ofInput [2, 6])) = r) ∧ result? r = some 6 ∧
      (∃ fuel, run (Image.load p { heapCapacity := 4, maxCallDepth := 1 }) fuel
        (.initial (Image.load p { heapCapacity := 4, maxCallDepth := 1 }) (Scripted.ofInput [2])) =
          cut) ∧ metLimit cut = true :=
    ⟨_, _, _, Program.parse_eq_ok (by decide +kernel), ⟨20, rfl⟩, by decide +kernel, ⟨20, rfl⟩,
      by decide +kernel⟩
  have hruns : RunsTo p { heapCapacity := 4, maxCallDepth := 1 } [2, 6] r := by
    refine ⟨hr, ?_⟩
    rw [halt?_of_result hresult]
    exact nofun
  have hends : RunsTo p { heapCapacity := 4, maxCallDepth := 1 } [2] cut := by
    refine ⟨hcut, fun hfuel => ?_⟩
    rw [metLimit, hfuel] at hmet
    cases hmet
  have hsame := (run_of_raised_limits p hconfig (List.prefix_append [2, 6] [7]) hruns).1
  have hprefix := (run_of_raised_limits p hconfig (List.prefix_append [2] [6]) hends).2
  exact ⟨p, r, cut, hp, hruns, hresult, hsame (metLimit_of_result hresult), hends,
    hmet, hprefix hmet⟩

end Run

end MiniC
