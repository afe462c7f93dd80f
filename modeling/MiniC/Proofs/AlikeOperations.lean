import MiniC.Proofs.AlikeOutcomes
import MiniC.Proofs.AlikePrograms

/-!
# Operations of programs that differ in parentheses

In programs that are the same except for parentheses, every operation of the direct evaluator agrees
with that on the other expressions, given the same values of the operands.
-/

set_option autoImplicit false

namespace MiniC.Direct

open MiniC.Parenthesised
open Run (Place)

variable {κ : Type} {image image' : Image}

/-- Images that are the same except for parentheses, where the provided functions have their
names. -/
structure ImageAlike (image image' : Image) : Prop where
  program : ProgramAlike .run image.program image'.program
  config : image'.config = image.config
  builtins : image'.builtins = image.builtins
  entry : image'.entry = image.entry
  named : ∀ {d b}, image.builtin? d = some b → (image.program.decl d).name = b.name

namespace ImageAlike

/-- The built-in functions are the same in both images. -/
theorem builtin?_eq (h : ImageAlike image image') (d : DeclId) :
    image'.builtin? d = image.builtin? d := by
  rw [Image.builtin?, Image.builtin?, h.builtins]

/-- It does not matter which of the two images has the parentheses. -/
theorem symm (h : ImageAlike image image') : ImageAlike image' image where
  program := h.program.symm
  config := h.config.symm
  builtins := h.builtins.symm
  entry := h.entry.symm
  named hb := by
    rw [h.builtin?_eq] at hb
    rw [h.program.name, h.named hb]

end ImageAlike

/-- A function of some name is the same in both programs. -/
theorem functionNamed?_eq {p p' : Program} (h : ProgramAlike .run p p') (x : String) :
    p'.functionNamed? x = p.functionNamed? x := by
  rw [Program.functionNamed?, Program.functionNamed?, h.items]
  congr 1
  funext item
  cases item with
  | function d => simp only [h.name]
  | «variable» d => rfl

theorem name_of_functionNamed? {p : Program} {x : String} {d : DeclId}
    (h : p.functionNamed? x = some d) :
    (p.decl d).name = x := by
  obtain ⟨item, -, hitem⟩ := List.exists_of_findSome?_eq_some h
  split at hitem
  · split at hitem
    · next hname =>
      cases hitem
      exact hname
    · cases hitem
  · cases hitem

/-- Images of programs that are the same except for parentheses. -/
theorem imageAlike_load {p p' : Program} (h : ProgramAlike .run p p') (config : Config) :
    ImageAlike (Image.load p config) (Image.load p' config) where
  program := h
  config := rfl
  builtins := by
    have hsame : p'.functionNamed? = p.functionNamed? := funext (functionNamed?_eq h)
    rw [Image.load, Image.load, hsame]
  entry := functionNamed?_eq h _
  named {d b} hb := by
    obtain ⟨l₁, l₂, hl, -⟩ := List.lookup_eq_some_iff.1 hb
    have hmem : (d, b) ∈ (Image.load p config).builtins := by rw [hl]; simp
    obtain ⟨b', -, hb'⟩ := List.mem_filterMap.1 hmem
    obtain ⟨d', hd', heq⟩ := Option.map_eq_some_iff.1 hb'
    cases heq
    exact name_of_functionNamed? hd'

variable (h : ImageAlike image image')
include h

/-! ## Values -/

/-- Expressions that are alike have the same type in their images. -/
theorem ImageAlike.typeOf {c : Demand} {e e' : ExprId}
    (he : ExprAlike image.program image'.program c e e') :
    image'.typeOf e' = image.typeOf e := by
  have := h
  exact he.type

/-- A construct without a meaning is reported alike; its place is not compared. -/
theorem agree_report (e e' : ExprId) (construct : Unsupported) :
    Agree Eq (report image e construct : Exec Scripted Int32) (report image' e' construct) := by
  unfold report
  rw [h.config]
  split
  · exact agree_fault _
  · intro s s' hs
    refine .ok rfl ⟨?_, ?_⟩
    · dsimp only
      rw [hs.same]
      rfl
    · simp [hs.constructs]

/-- The value of a variable is the same. -/
theorem agree_valueOfDecl (d : DeclId) :
    Agree Eq (valueOfDecl image d : Exec κ Int32) (valueOfDecl image' d) := by
  unfold valueOfDecl
  rw [h.program.name]
  refine agree_get (fun _ _ => rfl) fun s => ?_
  cases (s.top.decl? d).or (s.global.decl? d) with
  | some value => exact agree_pure rfl
  | none => exact agree_fault _

theorem agree_reference (e e' : ExprId) (d : DeclId) :
    Agree Eq (reference image e d : Exec Scripted Int32) (reference image' e' d) := by
  have hkind := h.program.decl d
  simp only [reference, h.program.name, h.builtin?_eq]
  generalize (image.program.decl d).kind = kind, (image'.program.decl d).kind = kind' at hkind
  cases hkind with
  | «variable» type storage _ _ =>
    dsimp only
    split
    · exact agree_valueOfDecl h d
    · exact agree_report h e e' _
  | function _ _ _ =>
    dsimp only
    split
    · exact agree_pure rfl
    · exact agree_report h e e' _

omit h in
theorem agree_sizeOf (type : CType) : Agree Eq (sizeOf type : Exec κ Int32) (sizeOf type) := by
  unfold sizeOf
  split
  · exact agree_pure rfl
  · split
    · exact agree_pure rfl
    · exact agree_fault _

omit h in
/-- The same is read of memory. -/
theorem agree_load (place : Place) : Agree Eq (load place : Exec κ Int32) (load place) := by
  refine agree_get (fun _ _ => by cases place <;> rfl) fun s => ?_
  cases place with
  | heap address => exact agree_orFault _
  | array id index => exact agree_orFault _

omit h in
/-- The same is stored in memory. -/
theorem agree_store (place : Place) (value : Int32) :
    Agree Eq (store place value : Exec κ Unit) (store place value) := by
  cases place with
  | heap address =>
    exact agree_memory (fun s => s.heap.write address value)
      (fun s heap => { s with heap }) (fun _ => ())
      (fun _ _ => rfl) (fun _ _ _ => rfl) fun _ _ => rfl
  | array id index =>
    exact agree_memory (fun s => s.arrays.set id index value)
      (fun s arrays => { s with arrays }) (fun _ => ())
      (fun _ _ => rfl) (fun _ _ _ => rfl) fun _ _ => rfl

omit h in
theorem agree_declare (d : DeclId) (value : Int32) :
    Agree (fun _ _ => True) (declare d value : Exec κ Unit) (declare d value) :=
  agree_modify fun _ _ hs => hs.modifyTop _

omit h in
theorem agree_assignDecl (d : DeclId) (value : Int32) :
    Agree (fun _ _ => True) (assignDecl d value : Exec κ Unit) (assignDecl d value) := by
  refine agree_modify fun s s' hs => ?_
  rw [hs.top_eq]
  split
  · exact hs.modifyTop _
  · exact hs.update (fun s => { s with global := s.global.bindDecl d value })
      (fun _ _ => rfl) fun _ => rfl

/-- A conversion is checked by types, which are the same. -/
theorem agree_checkConversion {c : Demand} {e e' : ExprId} (expected : CType)
    (he : ExprAlike image.program image'.program c e e') :
    Agree (fun _ _ => True) (checkConversion image expected e : Exec κ Unit)
      (checkConversion image' expected e') := by
  have := h
  unfold checkConversion
  rw [he.type]
  dsimp only
  split
  · exact agree_fault _
  · exact agree_pure trivial

omit h in
/-- The numbers of arguments are the same. -/
theorem agree_checkArity (function : String) {expected got got' : Nat} (hgot : got' = got) :
    Agree (fun _ _ => True) (checkArity function expected got : Exec κ Unit)
      (checkArity function expected got') := by
  subst hgot
  unfold checkArity
  split
  · exact agree_fault _
  · exact agree_pure trivial

/-! ## Operators -/

/-- The place of an element depends on the type and the value of the base and on the index. -/
theorem agree_elementPlace {c : Demand} {base base' : ExprId} (index index' : ExprId)
    (b i : Option Int32) (hb : ExprAlike image.program image'.program c base base') :
    Agree Eq (elementPlace image base index b i : Exec κ Place)
      (elementPlace image' base' index' b i) := by
  refine (agree_valueOf base base' b).bind fun start _ hstart => ?_
  refine (agree_valueOf index index' i).bind fun i _ hi => agree_pure ?_
  rw [hstart, hi, h.typeOf hb]

/-- A unary operator gives the same for the same value. -/
theorem agree_unary (e e' : ExprId) (op : UnaryOp) (operand operand' : ExprId) (v : Option Int32) :
    Agree Eq (unary image e op operand v : Exec Scripted Int32)
      (unary image' e' op operand' v) := by
  have hvalue := agree_valueOf (κ := Scripted) operand operand' v
  have hreport := agree_report h e e' (.unaryOperator op)
  cases op with
  | deref =>
    refine hvalue.bind fun address _ haddress => ?_
    subst haddress
    exact agree_load _
  | neg | plus | not | bitNot =>
    refine hvalue.bind fun value _ heq => ?_
    subst heq
    exact agree_pure rfl
  | addressOf | preInc | preDec | postInc | postDec => exact hreport

omit h in
/-- An operator that is carried out needs the value of its operand. -/
theorem asks_unary (e : ExprId) {op : UnaryOp} (hop : op.asks = true) (operand : ExprId) :
    Asks (unary image e op operand : Option Int32 → Exec Scripted Int32) := by
  cases op with
  | deref => exact asks_valueOf operand _
  | neg | plus | not | bitNot => exact asks_valueOf operand _
  | addressOf | preInc | preDec | postInc | postDec => cases hop

/-- An arithmetic operator gives the same for operands of the same types and values. -/
theorem agree_arith {c c' : Demand} {lhs lhs' rhs rhs' : ExprId} (op : ArithOp) (l r : Option Int32)
    (hl : ExprAlike image.program image'.program c lhs lhs')
    (hr : ExprAlike image.program image'.program c' rhs rhs') :
    Agree Eq (arith image op lhs rhs l r : Exec κ Int32) (arith image' op lhs' rhs' l r) := by
  refine (agree_valueOf lhs lhs' l).bind fun l _ heq => ?_
  subst heq
  refine (agree_valueOf rhs rhs' r).bind fun r _ heq => ?_
  subst heq
  cases op with
  | additive op =>
    dsimp only
    rw [h.typeOf hl, h.typeOf hr]
    split
    · exact agree_pure rfl
    · exact agree_fault _
  | multiplicative op =>
    dsimp only
    split
    · exact agree_pure rfl
    · exact agree_fault _

/-- Every operator but an assignment gives the same for operands of the same types and values. -/
theorem agree_binary {c c' : Demand} (e e' : ExprId) {lhs lhs' rhs rhs' : ExprId} (op : BinaryOp)
    (l r : Option Int32) (hl : ExprAlike image.program image'.program c lhs lhs')
    (hr : ExprAlike image.program image'.program c' rhs rhs') :
    Agree Eq (binary image e op lhs rhs l r : Exec Scripted Int32)
      (binary image' e' op lhs' rhs' l r) := by
  cases op with
  | arith op => exact agree_arith h op l r hl hr
  | comparison op =>
    refine (agree_valueOf lhs lhs' l).bind fun l _ heq => ?_
    subst heq
    exact (agree_valueOf rhs rhs' r).bind fun r _ heq => agree_pure (by rw [heq])
  | logical _ | bitwise _ | assign | compoundAssign _ => exact agree_report h e e' _

omit h in
/-- What both operands are needed for asks for the second one's value, or has already asked in vain
for the first one's. -/
theorem asks_second {α : Type} (lhs rhs : ExprId) (l : Option Int32)
    (f : Int32 → Int32 → Exec κ α) :
    Asks fun r => valueOf lhs l >>= fun l => valueOf rhs r >>= fun r => f l r := by
  cases l with
  | some l => exact fun _ => ⟨rhs, rfl⟩
  | none => exact fun _ => ⟨lhs, rfl⟩

omit h in
/-- An operator that is carried out needs the values of both operands. -/
theorem asks_binary (e : ExprId) {op : BinaryOp} (hop : op.asks = true) (lhs rhs : ExprId)
    (l : Option Int32) :
    Asks (binary image e op lhs rhs l : Option Int32 → Exec Scripted Int32) := by
  cases op with
  | arith op => exact asks_second lhs rhs l _
  | comparison op => exact asks_second lhs rhs l _
  | logical _ | bitwise _ | assign | compoundAssign _ => cases hop

/-! ## Assignments -/

/-- Targets with the same values, whose parts are the same except for parentheses. -/
inductive TargetAlike (image image' : Image) : Target → Target → Prop
  | name (d : DeclId) : TargetAlike image image' (.name d) (.name d)
  | pointee (operand operand' : ExprId) (v : Option Int32) :
    TargetAlike image image' (.pointee operand v) (.pointee operand' v)
  | element {c : Demand} {base base' : ExprId} (index index' : ExprId) (b i : Option Int32) :
    ExprAlike image.program image'.program c base base' →
      TargetAlike image image' (.element base index b i) (.element base' index' b i)
  | unsupported : TargetAlike image image' .unsupported .unsupported

/-- The same value goes to the same place. -/
theorem agree_assignTarget (e e' : ExprId) (value : Int32) {target target' : Target}
    (ht : TargetAlike image image' target target') :
    Agree Eq (assignTarget image e value target : Exec Scripted Int32)
      (assignTarget image' e' value target') := by
  have hreport := agree_report h e e' .assignmentTarget
  cases ht with
  | name d =>
    have hkind := h.program.decl d
    simp only [assignTarget]
    generalize (image.program.decl d).kind = kind, (image'.program.decl d).kind = kind' at hkind
    cases hkind with
    | «variable» type storage _ _ =>
      dsimp only
      split
      · exact hreport
      · exact (agree_assignDecl d value).bind fun _ _ _ => agree_pure rfl
    | function _ _ _ => exact hreport
  | pointee operand operand' v =>
    refine (agree_valueOf operand operand' v).bind fun address _ heq => ?_
    subst heq
    exact (agree_store _ value).bind fun _ _ _ => agree_pure rfl
  | element index index' b i hb =>
    refine (agree_elementPlace h index index' b i hb).bind fun place _ heq => ?_
    subst heq
    exact (agree_store place value).bind fun _ _ _ => agree_pure rfl
  | unsupported => exact hreport

/-- An assignment gives the same for targets with the same parts. -/
theorem agree_assign {c c' : Demand} (e e' : ExprId) {lhs lhs' rhs rhs' : ExprId} (op : BinaryOp)
    (r : Option Int32) {target target' : Target}
    (hl : ExprAlike image.program image'.program c lhs lhs')
    (hr : ExprAlike image.program image'.program c' rhs rhs')
    (ht : TargetAlike image image' target target') :
    Agree Eq (assign image e op lhs rhs r target : Exec Scripted Int32)
      (assign image' e' op lhs' rhs' r target') := by
  cases op with
  | assign =>
    have hvalue : Agree Eq (do assignTarget image e (← valueOf rhs r) target : Exec Scripted Int32)
        (do assignTarget image' e' (← valueOf rhs' r) target') := by
      refine (agree_valueOf rhs rhs' r).bind fun value _ heq => ?_
      subst heq
      exact agree_assignTarget h e e' value ht
    unfold assign
    dsimp only
    rw [h.typeOf hl]
    split
    · exact (agree_checkConversion h _ hr).bind fun _ _ _ => hvalue
    · exact hvalue
  | arith _ | comparison _ | logical _ | bitwise _ | compoundAssign _ => exact agree_report h e e' _

/-! ## Calls and variables -/

omit h in
theorem agree_callGet : Agree Eq (callGet : Exec Scripted (Option Int32)) callGet := by
  intro s s' hs
  have hconsole : s'.console = s.console := by rw [hs.same]
  have hnext : State.Alike { s with console := (Console.readInt s.console).2 }
      { s' with console := (Console.readInt s'.console).2 } :=
    hs.update (fun s => { s with console := (Console.readInt s.console).2 })
      (fun _ _ => rfl) fun _ => rfl
  unfold callGet
  rw [bind_apply, bind_apply, get_apply, get_apply]
  dsimp only
  rw [bind_apply, bind_apply, set_apply, set_apply]
  dsimp only
  rw [hconsole] at hnext ⊢
  cases (Console.readInt s.console).1 with
  | some value => exact agree_pure rfl _ _ hnext
  | none => exact agree_fault _ _ _ hnext

omit h in
/-- A built-in function gives the same for the same values of its arguments. -/
theorem agree_callBuiltin {R : ExprId → ExprId → Prop} {args args' : List ExprId} (b : Builtin)
    (values : List (Option Int32)) (hargs : List.Forall₂ R args args') :
    Agree Eq (callBuiltin b args values : Exec Scripted (Option Int32))
      (callBuiltin b args' values) := by
  refine (agree_checkArity b.name hargs.length_eq.symm).bind fun _ _ _ => ?_
  cases b with
  | get => exact agree_callGet
  | print =>
    cases hargs with
    | nil => exact agree_pure rfl
    | @cons arg arg' _ _ _ _ =>
      cases values with
      | nil => exact agree_pure rfl
      | cons v values =>
        refine (agree_valueOf arg arg' v).bind fun value _ heq => ?_
        subst heq
        refine (agree_modify fun s s' hs => ?_).bind fun _ _ _ => agree_pure rfl
        -- the consoles are the same, so the same is put out
        exact hs.update (fun s => { s with console := Console.writeInt value s.console })
          (fun _ _ => rfl) fun _ => rfl
  | malloc =>
    cases hargs with
    | nil => exact agree_pure rfl
    | @cons arg arg' _ _ _ _ =>
      cases values with
      | nil => exact agree_pure rfl
      | cons v values =>
        refine (agree_valueOf arg arg' v).bind fun size _ heq => ?_
        subst heq
        -- so are the heaps
        exact agree_memory (fun s => s.heap.allocate size) (fun s block =>
          { s with heap := block.2 })
          (fun block => some block.1) (fun _ _ => rfl) (fun _ _ _ => rfl) fun _ _ => rfl
  | free =>
    cases hargs with
    | nil => exact agree_pure rfl
    | @cons arg arg' _ _ _ _ =>
      cases values with
      | nil => exact agree_pure rfl
      | cons v values =>
        refine (agree_valueOf arg arg' v).bind fun address _ heq => ?_
        subst heq
        refine (agree_modify fun s s' hs => ?_).bind fun _ _ _ => agree_pure rfl
        exact hs.update (fun s => { s with heap := s.heap.free address }) (fun _ _ => rfl) fun _ =>
          rfl

omit h in
theorem agree_openCall (function : DeclId) (bindings : List (DeclId × Int32)) :
    Agree (fun _ _ => True) (openCall function bindings : Exec κ Unit)
      (openCall function bindings) := by
  refine (agree_modify fun s s' hs => ?_).bind fun _ _ _ =>
    agree_forM (List.forall₂_same.2 fun _ _ => ?_)
  · exact hs.update (fun s => { s with calls := ⟨some function, ∅⟩ :: s.calls })
      (fun _ _ => rfl) fun _ => rfl
  · exact agree_declare _ _

omit h in
theorem agree_closeCall : Agree (fun _ _ => True) (closeCall : Exec κ Unit) closeCall :=
  agree_modify fun _ _ hs =>
    hs.update (fun s => { s with calls := s.calls.tail }) (fun _ _ => rfl) fun _ => rfl

omit h in
theorem forall₂_zip {α β γ : Type} {R : β → γ → Prop} {S : α × β → α × γ → Prop}
    (as : List α) {bs : List β}
    {cs : List γ} (hbc : List.Forall₂ R bs cs) (hS : ∀ a b c, R b c → S (a, b) (a, c)) :
    List.Forall₂ S (as.zip bs) (as.zip cs) := by
  induction hbc generalizing as with
  | nil =>
    rw [List.zip_nil_right, List.zip_nil_right]
    exact .nil
  | cons h _ ih =>
    cases as with
    | nil => exact .nil
    | cons a as => exact .cons (hS a _ _ h) (ih as)

omit h in
theorem forall₂_zip_swap {α β γ : Type} {R : β → γ → Prop} {S : β × α → γ × α → Prop}
    (as : List α) {bs : List β}
    {cs : List γ} (hbc : List.Forall₂ R bs cs) (hS : ∀ a b c, R b c → S (b, a) (c, a)) :
    List.Forall₂ S (bs.zip as) (cs.zip as) := by
  induction hbc generalizing as with
  | nil => exact .nil
  | cons h _ ih =>
    cases as with
    | nil => exact .nil
    | cons a as => exact .cons (hS a _ _ h) (ih as)

/-- Parameters get the same values. -/
theorem agree_enterBody {c : Demand} (callee : DeclId) (params : List DeclId)
    {args args' : List ExprId}
    (values : List (Option Int32))
    (hargs : List.Forall₂ (ExprAlike image.program image'.program c) args args') :
    Agree (fun _ _ => True) (enterBody image callee params args values : Exec κ Unit)
      (enterBody image' callee params args' values) := by
  unfold enterBody
  rw [h.program.name, h.config]
  refine (agree_checkArity _ hargs.length_eq.symm).bind fun _ _ _ => ?_
  have hchecks : List.Forall₂ (fun (a a' : DeclId × ExprId) =>
      Agree (fun _ _ => True)
        (checkConversion image (image.program.decl a.1).type a.2 : Exec κ Unit)
        (checkConversion image' (image'.program.decl a'.1).type a'.2)) (params.zip args)
          (params.zip args') :=
    forall₂_zip params hargs fun param _ _ he => by
      dsimp only
      rw [h.program.type]
      exact agree_checkConversion h _ he
  refine (agree_forM hchecks).bind fun _ _ _ => ?_
  have hvalues : List.Forall₂ (fun (a a' : ExprId × Option Int32) =>
      Agree Eq (valueOf a.1 a.2 : Exec κ Int32) (valueOf a'.1 a'.2)) (args.zip values)
        (args'.zip values) :=
    forall₂_zip_swap values hargs fun v arg arg' _ => agree_valueOf arg arg' v
  refine (agree_mapM hvalues).bind fun values _ heq => ?_
  subst heq
  refine agree_get (fun _ _ => rfl) fun s => ?_
  split
  · exact Agree.bind (R := Eq) (agree_fault _) fun _ _ _ => agree_openCall _ _
  · exact agree_openCall _ _

/-- A variable gets the same value. -/
theorem agree_initialise (d : DeclId) (v : Option Int32) :
    Agree (fun _ _ => True) (initialise image d v : Exec κ Unit) (initialise image' d v) := by
  have hkind := h.program.decl d
  simp only [initialise]
  generalize (image.program.decl d).kind = kind, (image'.program.decl d).kind = kind' at hkind
  cases hkind with
  | function _ _ _ => exact agree_pure trivial
  | «variable» type storage hinit _ =>
    cases hlength : type.length? with
    | some length =>
      simp only [hlength]
      intro s s' hs
      have hcreate :=
        hs.update (fun s => { s with arrays := (s.arrays.create length s.calls.length).2 })
        (fun _ _ => rfl) fun _ => rfl
      have hid : (s'.arrays.create length s'.calls.length).1 =
          (s.arrays.create length s.calls.length).1 := by
        rw [hs.same]
      change Matching _ (declare d _ _) (declare d _ _)
      rw [hid]
      exact agree_declare d _ _ _ hcreate
    | none =>
      simp only [hlength]
      cases hinit with
      | none => exact agree_declare d 0
      | @some init init' he =>
        refine (agree_checkConversion h type he).bind fun _ _ _ => ?_
        refine (agree_valueOf init init' v).bind fun value _ heq => ?_
        subst heq
        exact agree_declare d value

omit h in
/-- What is no array may go where no array is expected. -/
theorem checkConversion_eq {expected : CType} (hexpected : expected.isArray = false) {e : ExprId}
    (hplain : (image.typeOf e).isArray = false) :
    (checkConversion image expected e : Exec κ Unit) = pure () := by
  have hpass : Run.isForbiddenConversion expected (image.program.expr e).type = false := by
    simp [Run.isForbiddenConversion, hexpected,
      show (image.program.expr e).type.isArray = false from hplain]
  unfold checkConversion
  dsimp only
  rw [hpass]
  rfl

omit h in
/-- The initialiser of a plain variable needs a value. -/
theorem asks_initialise {d : DeclId} {type : CType} {init : ExprId} {storage : Storage}
    (hkind : (image.program.decl d).kind = .variable type (some init) storage)
    (hlength : type.length? = none)
    (hplain : (image.typeOf init).isArray = false) :
    Asks (initialise image d : Option Int32 → Exec κ Unit) := by
  have hexpected : type.isArray = false := by
    rw [Bool.eq_false_iff, ne_eq, CType.isArray_iff, hlength]
    exact nofun
  intro s
  refine ⟨init, ?_⟩
  simp only [initialise, hkind, hlength, checkConversion_eq hexpected hplain]
  rfl

end MiniC.Direct
