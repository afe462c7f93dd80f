import MiniC.Proofs.OperationEffect
import MiniC.Proofs.ParsedProgram

/-!
# The frame of the file

The variables of a call live in its frame, those of the file in the frame at the bottom. That frame
is as it should be (`State.Clean`) while it binds variables of the file only. Most operations do not
change what it binds (`Run.KeepsFile`). Those that do are the introduction of a variable and an
assignment to a name: both bind the variable in the frame of the latest call or else in that of the
file (`State.Gives`).
-/

set_option autoImplicit false

namespace MiniC

/-! ## Clean states -/

namespace Program

variable {p : Program} {d : DeclId}

theorem isGlobal_iff :
    p.IsGlobal d ↔
      d.index < p.decls.size ∧ (p.decl d).isFunction = false ∧ (p.decl d).isFileLevel = true := by
  constructor
  · rintro ⟨hlt, type, init, hk⟩
    exact ⟨hlt, by rw [Decl.isFunction, hk], by rw [Decl.isFileLevel, hk]; rfl⟩
  · rintro ⟨hlt, hf, hl⟩
    refine ⟨hlt, ?_⟩
    unfold Decl.isFunction at hf
    unfold Decl.isFileLevel at hl
    cases hk : (p.decl d).kind with
    | function _ _ _ => simp [hk] at hf
    | «variable» type init storage =>
      rw [hk] at hl
      exact ⟨type, init, by rw [of_decide_eq_true hl]⟩

instance : Decidable (p.IsGlobal d) := decidable_of_iff _ isGlobal_iff.symm

end Program

namespace State

variable {κ : Type}

/-- The frame of the file binds variables of the file only. -/
def Clean (p : Program) (s : State κ) : Prop :=
  ∀ d, (s.stack.global.decl? d).isSome = true → p.IsGlobal d

/-- What is asked of the frame of the file is asked of each of its bindings. -/
theorem clean_iff_forall_mem {p : Program} {s : State κ} :
    s.Clean p ↔ ∀ binding ∈ s.stack.global.decls.toList, p.IsGlobal ⟨binding.1⟩ := by
  constructor
  · intro h binding hb
    refine h ⟨binding.1⟩ ?_
    rw [Frame.decl?, Std.TreeMap.mem_toList_iff_getElem?_eq_some.1 hb]
    rfl
  · intro h d hd
    obtain ⟨value, hvalue⟩ := Option.isSome_iff_exists.1 hd
    exact h (d.index, value) (Std.TreeMap.mem_toList_iff_getElem?_eq_some.2 hvalue)

instance {p : Program} {s : State κ} : Decidable (s.Clean p) :=
  decidable_of_iff _ clean_iff_forall_mem.symm

/-- At first the frame of the file binds nothing. -/
theorem clean_initial (image : Image) (console : κ) :
    (initial image console).Clean image.program := by
  intro d hd
  simp [initial, CallStack.empty] at hd

/-- Whether the frame of the file is clean depends on its variables. -/
theorem Clean.of_decls_eq {p : Program} {s t : State κ} (hs : s.Clean p)
    (h : t.stack.global.decls = s.stack.global.decls) : t.Clean p := by
  intro d hd
  rw [Frame.decl?, h] at hd
  exact hs d hd

end State

/-! ## Computations that keep the bindings of the file -/

namespace Run

variable {κ α β : Type}

/-- The frame of the file binds the same values. -/
def SameFile (s t : State κ) : Prop := t.stack.global.decls = s.stack.global.decls

/-- A computation that changes no binding of the file. -/
abbrev KeepsFile : Run κ α → Prop := Within SameFile SameFile

/-- A change that binds no variable binds none in the frame of the file. -/
theorem decls_global_modifyTop (stack : CallStack) {f : Frame → Frame}
    (hf : ∀ frame, (f frame).decls = frame.decls) :
    (stack.modifyTop f).global.decls = stack.global.decls := by
  rcases stack with ⟨_ | _, _⟩
  · exact hf _
  · rfl

/-- Computations that leave the variables of the file alone may follow one another. -/
theorem fileEffects : NodeEffects (fun _ => True) (SameFile (κ := κ)) SameFile where
  refl _ := rfl
  trans hst htu := htu.trans hst
  halted _ := rfl
  after hst htu := htu.trans hst
  bindExpr s _ _ := decls_global_modifyTop s.stack fun _ => rfl
  focusOn s _ := decls_global_modifyTop s.stack fun _ => rfl
  outside h := by rw [SameFile, h]

theorem keepsFile_pop : KeepsFile (modifyStack fun stack => stack.pop.2 : Run κ Unit) := by
  rintro ⟨⟨_ | _, _⟩, _⟩ <;> rfl

/-- What is introduced in the frame of a call is not bound in that of the file. -/
theorem ensures_forM_declare (bindings : List (DeclId × Int32)) {s : State κ}
    (hs : s.stack.calls ≠ []) :
    Ensures (bindings.forM fun (d, value) => declare d value) s (fun _ t => SameFile s t)
      fun _ t => SameFile s t := by
  let inCall (s t : State κ) : Prop := s.stack.calls ≠ [] → t.stack.calls ≠ [] ∧ SameFile s t
  have c : Effects inCall inCall :=
    ⟨fun _ h => ⟨h, rfl⟩, fun hst htu h => ⟨(htu (hst h).1).1, (htu (hst h).1).2.trans (hst h).2⟩,
      fun _ h => ⟨h, rfl⟩, fun hst htu h => ⟨(htu (hst h).1).1, (htu (hst h).1).2.trans (hst h).2⟩⟩
  have hdeclare : Within inCall inCall (bindings.forM fun (d, value) => declare d value) := by
    refine .forM c bindings fun binding _ t ht => ⟨by simpa using ht, ?_⟩
    rw [SameFile, CallStack.global_modifyTop ht]
  exact (hdeclare s).mono (fun _ t h => (h hs).2) fun _ t h => (h hs).2

theorem keepsFile_openFrame (function : DeclId) (body : StmtId) (bindings : List (DeclId × Int32)) :
    KeepsFile (openFrame function body bindings : Run κ Unit) := by
  intro s
  rw [openFrame, ensures_bind, ensures_modifyStack, ensures_bind]
  refine (ensures_forM_declare bindings (by simp [CallStack.push])).mono
    (fun _ t ht => ?_) fun _ t ht => ht
  exact (fileEffects.within_focusOn _ t).mono (fun _ u hu => Eq.trans hu ht) fun _ u hu =>
    Eq.trans hu ht

section

variable (image : Image)

/-- Parameters are bound in the frame of the call. -/
theorem keepsFile_enterBody (callee : DeclId) (params : List DeclId) (body : StmtId)
    (args : List ExprId) : KeepsFile (enterBody image callee params body args : Run κ Unit) := by
  have c : NodeEffects (κ := κ) _ _ _ := fileEffects
  refine c.after_read (readOnly_checkArity image _ _ _) fun _ => ?_
  refine c.after_read (.forM (fun _ => readOnly_checkConversion image _ _) _) fun _ => ?_
  refine c.after_read (.mapM (readOnly_valueOf image) args) fun values => ?_
  refine c.after_read readOnly_get fun s => ?_
  dsimp only
  split
  · exact c.after_read (readOnly_faultHere image _) fun _ => keepsFile_openFrame _ _ _
  · exact keepsFile_openFrame _ _ _

/-- A call leaves the variables of the file alone until its body is executed. -/
theorem keepsFile_enterCall [Console κ] (e : ExprId) (callee : DeclId) (args : List ExprId) :
    KeepsFile (enterCall image e callee args : Run κ (Option StmtId)) := by
  have c : NodeEffects (κ := κ) _ _ _ := fileEffects
  unfold enterCall
  split
  · exact c.bind (c.callBuiltin image trivial _ args) fun _ => c.readOnly (.pure _)
  · dsimp only
    split
    · exact c.bind (keepsFile_enterBody image callee _ _ args) fun _ => c.readOnly (.pure _)
    · exact c.readOnly (readOnly_faultHere image _)

/-- So does the call of the entry function. -/
theorem keepsFile_enterMain : KeepsFile (enterMain image : Run κ StmtId) := by
  have c : NodeEffects (κ := κ) _ _ _ := fileEffects
  unfold enterMain
  split
  · exact .throw c.toEffects _
  · dsimp only
    split
    · exact c.bind (keepsFile_openFrame _ _ _) fun _ => c.readOnly (.pure _)
    · exact c.readOnly (readOnly_fault _ _)

end

end Run

/-! ## Giving a variable a value -/

theorem Frame.isSome_decl?_bindDecl (frame : Frame) (d d' : DeclId) (value : Int32) :
    ((frame.bindDecl d value).decl? d').isSome = true ↔ d' = d ∨
      (frame.decl? d').isSome = true := by
  rw [Frame.decl?_bindDecl]
  split
  · next h => simp [h]
  · next h => simp [h]

/-- The frame of the latest call has the variable. -/
def CallStack.holds (stack : CallStack) (d : DeclId) : Bool :=
  match stack.calls with
  | frame :: _ => (frame.decl? d).isSome
  | [] => false

/-- A variable was given a value, in the frame of the latest call or else in that of the file. -/
def State.Gives {κ : Type} (d : DeclId) (s t : State κ) : Prop :=
  (Run.SameFile s t ∧ t.stack.holds d = true) ∨
    (t.stack.holds d = false ∧
      ∀ d', (t.stack.global.decl? d').isSome = true ↔ d' = d ∨
        (s.stack.global.decl? d').isSome = true)

namespace Run

variable {κ α β : Type} {s t u : State κ} {d : DeclId}

/-- What is given after the file was left alone is given from the beginning. -/
theorem SameFile.gives (h : SameFile s t) (hg : State.Gives d t u) : State.Gives d s u := by
  unfold State.Gives at hg ⊢
  have hdecl : ∀ d', t.stack.global.decl? d' = s.stack.global.decl? d' := fun d' => by
    rw [Frame.decl?, Frame.decl?, h]
  simp only [hdecl] at hg
  exact hg.imp_left fun hsame => ⟨hsame.1.trans h, hsame.2⟩

theorem gives_declare (s : State κ) (d : DeclId) (value : Int32) :
    State.Gives d s { s with stack := s.stack.modifyTop (·.bindDecl d value) } := by
  rcases s with ⟨⟨_ | ⟨frame, callers⟩, global⟩, _, _, _, _⟩
  · exact .inr ⟨rfl, fun d' => Frame.isSome_decl?_bindDecl global d d' value⟩
  · exact .inl ⟨rfl, (Frame.isSome_decl?_bindDecl frame d d value).2 (.inl rfl)⟩

/-- Nothing is taken away from the bindings of the file. -/
theorem not_clean_of_gives {p : Program} (h : State.Gives d s t) (hs : ¬ s.Clean p) :
    ¬ t.Clean p := by
  intro ht
  rcases h with ⟨hsame, -⟩ | ⟨-, hbound⟩
  · exact hs (ht.of_decls_eq hsame.symm)
  · exact hs fun d' hd' => ht d' ((hbound d').2 (.inr hd'))

/-- The frame of the file stays clean exactly if the variable is one of the file or held by the
call. -/
theorem clean_iff_of_gives {p : Program} (h : State.Gives d s t) (hs : s.Clean p) :
    t.Clean p ↔ p.IsGlobal d ∨ t.stack.holds d = true := by
  rcases h with ⟨hsame, hholds⟩ | ⟨hholds, hbound⟩
  · exact ⟨fun _ => .inr hholds, fun _ => hs.of_decls_eq hsame⟩
  · constructor
    · intro ht
      exact .inl (ht d ((hbound d).2 (.inl rfl)))
    · rintro (hd | hd) d' hd'
      · rcases (hbound d').1 hd' with rfl | hd'
        · exact hd
        · exact hs d' hd'
      · rw [hholds] at hd
        cases hd

/-- A computation that, if it has a result, has given a variable a value. -/
abbrev GivesVariable (d : DeclId) : Run κ α → Prop := Within (State.Gives d) SameFile

/-- A variable may be given its value at the end. -/
theorem KeepsFile.bind_gives {x : Run κ α} {f : α → Run κ β} (hx : KeepsFile x)
    (hf : ∀ a, GivesVariable d (f a)) : GivesVariable d (x >>= f) := by
  intro s
  rw [ensures_bind]
  refine (hx s).mono (fun a t hst => ?_) fun _ _ h => h
  exact (hf a t).mono (fun _ _ htu => hst.gives htu) fun _ _ htu => Eq.trans htu hst

/-- An assignment gives a value to its variable. -/
theorem givesVariable_assignDecl (d : DeclId) (value : Int32) :
    GivesVariable d (assignDecl d value : Run κ Unit) := by
  intro s
  rw [assignDecl, ensures_modifyStack]
  split
  · exact gives_declare s d value
  · next hd =>
    refine .inr ⟨?_, fun d' => s.stack.global.isSome_decl?_bindDecl d d' value⟩
    rcases s with ⟨⟨_ | ⟨frame, callers⟩, global⟩, _, _, _, _⟩
    · rfl
    · exact Bool.eq_false_iff.2 hd

variable (image : Image)

/-- An assignment to a name gives the variable a value. -/
theorem givesVariable_assign [Console κ] {e lhs rhs : ExprId}
    (hk : (image.program.expr e).kind = .binary .assign lhs rhs)
    (hd : image.program.assigned? e = some d) :
    GivesVariable d (assign image e lhs rhs : Run κ Unit) := by
  have c : NodeEffects (κ := κ) _ _ _ := fileEffects
  obtain ⟨lhs', rhs', type, init, storage, hk', htarget, hdecl, harray⟩ :=
    Program.assigned?_eq_some_iff.1 hd
  obtain ⟨rfl, rfl⟩ : lhs = lhs' ∧ rhs = rhs' := by simpa [hk] using hk'
  have hstore : GivesVariable d (do
      let value ← valueOf image rhs
      bindExpr lhs value
      bindExpr e value
      assignTarget image e (image.program.stripParens lhs) value : Run κ Unit) := by
    refine KeepsFile.bind_gives (c.readOnly (readOnly_valueOf image rhs)) fun value => ?_
    refine KeepsFile.bind_gives (c.within_bindExpr trivial value) fun _ => ?_
    refine KeepsFile.bind_gives (c.within_bindExpr trivial value) fun _ => ?_
    unfold assignTarget
    simp only [htarget, hdecl, harray, Bool.false_eq_true, if_false]
    exact givesVariable_assignDecl d value
  unfold assign
  dsimp only
  split
  · exact KeepsFile.bind_gives (c.readOnly (readOnly_checkConversion image _ rhs)) fun _ => hstore
  · exact hstore

/-- An initialisation gives a value to its variable. -/
theorem givesVariable_initialise {type : CType} {init : Option ExprId} {storage : Storage}
    (hk : (image.program.decl d).kind = .variable type init storage) :
    GivesVariable d (initialise image d : Run κ Unit) := by
  refine (within_initialise image hk).mono (fun s t ⟨value, ht⟩ => ?_) fun s t ht => ?_
  · have hg := gives_declare s d value
    unfold State.Gives SameFile at hg ⊢
    rw [ht]
    exact hg
  · rw [SameFile, ht]

/-- A declaration of a function gives no value. -/
theorem keepsFile_initialise {returnType : CType} {params : List DeclId} {body : Option StmtId}
    (hk : (image.program.decl d).kind = .function returnType params body) :
    KeepsFile (initialise image d : Run κ Unit) := by
  unfold initialise
  rw [hk]
  exact fileEffects.readOnly (.pure ())

end Run

end MiniC
