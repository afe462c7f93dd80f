import Mathlib.Data.List.Nodup
import MiniC.Proofs.ExpressionLayout
import MiniC.Proofs.ReportedPlaces

/-!
# Locations of expressions

Places identify expressions (`Program.locations_identify_expressions`). Every expression of a
program lies at the place of the token that introduces it (`Program.Introduces`), no token
introduces two expressions, and no two tokens lie at one place. So a place that a run reports for an
expression is the place of no other one.
-/

set_option autoImplicit false

namespace MiniC

namespace Program

/-- The lexeme that introduces an expression of the program. -/
inductive Introduces (p : Program) : Lexeme → ExprKind → Prop
  | literal (value : Nat) : Introduces p (.integer value) (.intLiteral (.ofNat value))
  | reference (d : DeclId) : Introduces p (.identifier (p.decl d).name) (.declRef d)
  | call (d : DeclId) (args : List ExprId) :
    Introduces p (.identifier (p.decl d).name) (.call d args)
  | paren (inner : ExprId) : Introduces p (.punct .leftParen) (.paren inner)
  | cast (operand : ExprId) : Introduces p (.punct .leftParen) (.cast operand)
  | subscript (base index : ExprId) : Introduces p (.punct .leftBracket) (.subscript base index)
  | unary (op : UnaryOp) (operand : ExprId) : Introduces p (.punct op.sign) (.unary op operand)
  | binary (op : BinaryOp) (lhs rhs : ExprId) : Introduces p (.punct op.sign) (.binary op lhs rhs)
  | sizeOf (type : CType) : Introduces p (.keyword .sizeofKw) (.sizeOf type)

/-- Just one expression of the program lies at a place. -/
def OneExprAt (p : Program) (loc : Location) : Prop :=
  ∃! e : ExprId, e.index < p.exprs.size ∧ (p.expr e).loc = loc

/-- No two expressions lie at one place. -/
def DistinctPlaces (p : Program) : Prop :=
  ∀ e e' : ExprId, e.index < p.exprs.size → e'.index < p.exprs.size →
    (p.expr e).loc = (p.expr e').loc → e = e'

theorem HasExprAt.one {p : Program} {loc : Location} (hp : p.DistinctPlaces) (h : p.HasExprAt loc) :
    p.OneExprAt loc := by
  obtain ⟨e, he, hloc⟩ := h
  refine ⟨e, ⟨he, hloc⟩, ?_⟩
  rintro e' ⟨he', hloc'⟩
  exact hp e' e he' he (hloc'.trans hloc.symm)

theorem OneExprAt.hasExprAt {p : Program} {loc : Location} (h : p.OneExprAt loc) :
    p.HasExprAt loc :=
  h.exists

theorem expr_of_toList {p : Program} {e : ExprId} {node : Expr}
    (h : p.exprs.toList[e.index]? = some node) :
    p.expr e = node := by
  rw [Array.getElem?_toList] at h
  obtain ⟨hlt, hnode⟩ := Array.getElem?_eq_some_iff.1 h
  simp [expr, Array.getD, hlt, hnode]

end Program

namespace Written

variable {stream : TokenStream} {file : File} {p : Program}

/-- An expression of a text and the node that it becomes: the node lies at the token that introduces
it. -/
structure Occurrence.LocatedNode (stream : TokenStream) (p : Program) (o : Occurrence)
    (node : MiniC.Expr) :
    Prop where
  spelled : o.SpelledIn (stream.tokens.map Token.lexeme)
  heads : o.expr.Heads node.kind
  token : ∃ token, stream.tokens[o.anchor]? = some token ∧ token.lexeme = o.expr.introducer ∧
    p.Introduces token.lexeme node.kind ∧ node.loc = token.loc

/-- What an expression names has the name that is written at its place. -/
theorem Resolution.name_of_mention {marks : List Mark} {ident : Mark → DeclId}
    (hresolution : Resolution stream p marks ident)
    (hplaces : (stream.tokens.map Token.loc).Nodup) {e : ExprId}
    (he : e.index < p.exprs.size) {role : Role} {d : DeclId}
    (hmention : (p.expr e).kind.mention? = some (role, d))
    {pos : Nat} (hloc : (p.expr e).loc = place stream pos) {x : String}
    (hx : stream.tokens[pos]?.map Token.lexeme = some (.identifier x)) : (p.decl d).name = x := by
  obtain ⟨use, huse, -, huseLoc, decl, hvisible, rfl⟩ := hresolution.mentions e he role d hmention
  have hlt {pos : Nat} {x : String}
    (h : stream.tokens[pos]?.map Token.lexeme = some (.identifier x)) :
      pos < stream.tokens.length := by
    obtain ⟨token, htoken, -⟩ := Option.map_eq_some_iff.1 h
    exact (List.getElem?_eq_some_iff.1 htoken).1
  -- the use lies at the same place, so it is the same token and has the same name
  have huseToken := hresolution.tokens use huse
  obtain rfl : pos = use.pos :=
    place_injective hplaces (hlt hx) (hlt huseToken) (hloc.symm.trans huseLoc)
  obtain rfl : use.name = x := Lexeme.identifier.inj (Option.some.inj (huseToken.symm.trans hx))
  rw [(hresolution.denotes decl hvisible.mem hvisible.declares).name, hvisible.name]

theorem Writes.locatedNode (h : Writes stream file) (hplaces : (stream.tokens.map Token.loc).Nodup)
    {marks : List Mark} {ident : Mark → DeclId}
    (hresolution : Resolution stream p marks ident) {o : Occurrence}
    (ho : o ∈ file.occurrences) {e : ExprId} (he : e.index < p.exprs.size)
    (hnode : o.Node stream (p.expr e)) : o.LocatedNode stream p (p.expr e) := by
  have hspelled : o.SpelledIn (stream.tokens.map Token.lexeme) :=
    h.lexemes ▸ file.spelledIn_of_mem o ho
  have hlexeme := hspelled.getElem?_anchor
  rw [List.getElem?_map] at hlexeme
  obtain ⟨token, htoken, hintroducer⟩ := Option.map_eq_some_iff.1 hlexeme
  have hloc : place stream o.anchor = token.loc := by
    rw [place, htoken]
    rfl
  refine ⟨hspelled, hnode.heads, token, htoken, hintroducer, ?_, hnode.loc.trans hloc⟩
  have hname {role : Role} {d : DeclId} {x : String}
    (hmention : (p.expr e).kind.mention? = some (role, d))
      (hx : o.expr.introducer = .identifier x) : (p.decl d).name = x :=
    hresolution.name_of_mention hplaces he hmention hnode.loc (hlexeme.trans (congrArg some hx))
  have hheads := hnode.heads
  rw [hintroducer]
  -- a tree and a node of different forms are excluded first
  cases hexpr : o.expr <;> cases hkind : (p.expr e).kind <;> rw [hexpr, hkind] at hheads <;>
    try exact hheads.elim
  case literal.intLiteral =>
    cases hheads
    exact .literal _
  case name.declRef x d =>
    obtain rfl : (p.decl d).name = x := hname (by rw [hkind]; rfl) (by rw [hexpr]; rfl)
    exact .reference d
  case call.call f args d ids =>
    obtain rfl : (p.decl d).name = f := hname (by rw [hkind]; rfl) (by rw [hexpr]; rfl)
    exact .call d ids
  case paren.paren => exact .paren _
  case subscript.subscript => exact .subscript _ _
  case unary.unary =>
    cases hheads
    exact .unary _ _
  case binary.binary =>
    cases hheads
    exact .binary _ _ _
  case cast.cast => exact .cast _
  case sizeOfType.sizeOf => exact .sizeOf _
  case sizeOf.sizeOf => exact .sizeOf _

theorem Writes.locatedNodes (h : Writes stream file) (hplaces : (stream.tokens.map Token.loc).Nodup)
    {marks : List Mark} {ident : Mark → DeclId} (hresolution : Resolution stream p marks ident)
    (hnodes : List.Forall₂ (Occurrence.Node stream) file.occurrences p.exprs.toList) :
    List.Forall₂ (Occurrence.LocatedNode stream p) file.occurrences p.exprs.toList := by
  rw [List.forall₂_iff_get] at hnodes ⊢
  refine ⟨hnodes.1, fun i hi hi' => ?_⟩
  have hnode := hnodes.2 i hi hi'
  have hexpr : p.exprs.toList.get ⟨i, hi'⟩ = p.expr ⟨i⟩ :=
    (Program.expr_of_toList (List.getElem?_eq_getElem hi')).symm
  rw [hexpr] at hnode ⊢
  exact h.locatedNode hplaces hresolution (List.get_mem _ _) (by simpa using hi') hnode

/-- No two expressions of a program lie at one place. -/
theorem Writes.nodup_places (h : Writes stream file) (hplaces : (stream.tokens.map Token.loc).Nodup)
    {nodes : List MiniC.Expr}
    (hnodes : List.Forall₂ (Occurrence.Node stream) file.occurrences nodes) :
    (nodes.map MiniC.Expr.loc).Nodup := by
  have hlength : file.lexemes.length = stream.tokens.length := by rw [← h.lexemes, List.length_map]
  -- the places of the nodes are those of different tokens, which lie at different places
  have hspread := file.spread_anchors
  have hlocs : (file.occurrences.map Occurrence.anchor).map (place stream) =
      nodes.map MiniC.Expr.loc := by
    rw [← List.forall₂_eq_eq_eq, List.map_map, List.forall₂_map_left_iff,
      List.forall₂_map_right_iff]
    exact hnodes.imp fun o node h => h.loc.symm
  rw [← hlocs]
  refine List.Nodup.map_on (fun a ha b hb hab => ?_) hspread.nodup
  exact place_injective hplaces (hlength ▸ (hspread.bounds a ha).2)
    (hlength ▸ (hspread.bounds b hb).2) hab

end Written

/-! ## Parsed programs -/

namespace Program

theorem distinctPlaces_of_nodup {p : Program} (h : (p.exprs.toList.map Expr.loc).Nodup) :
    p.DistinctPlaces := by
  intro e e' he he' hloc
  have hget {e : ExprId} (he : e.index < p.exprs.size) :
      (p.exprs.toList.map Expr.loc)[e.index]? = some (p.expr e).loc := by
    simp [expr, Array.getD, he]
  have hindex : e.index = e'.index := by
    refine (List.getElem?_inj (by simpa using he) h).1 ?_
    rw [hget he, hget he', hloc]
  exact congrArg ExprId.mk hindex

/-- Places identify expressions. Every expression of a program lies at the place of the token that
introduces it, and no other expression lies there; so there are at most as many expressions as
tokens. Whatever a run reports for an expression is reported for the place of just one expression;
what else is reported is at most that the function to be entered has no body. -/
theorem locations_identify_expressions {source : String} {p : Program} (h : parse source = .ok p) :
    ∃ stream, tokenize source = .ok stream ∧
      (∃ file, Written.Writes stream file ∧
        List.Forall₂ (Written.Occurrence.LocatedNode stream p) file.occurrences p.exprs.toList) ∧
      p.DistinctPlaces ∧ p.exprs.size ≤ stream.tokens.length ∧
      ∀ {κ : Type} [Console κ] (config : Config) (fuel : Nat) (s : State κ),
        (∀ d ∈ s.diagnostics, p.OneExprAt d.loc) →
          Run.Ensures (Run.run (Image.load p config) fuel) s
            (fun _ t => ∀ d ∈ t.diagnostics, p.OneExprAt d.loc)
            fun halt t => (∀ d ∈ t.diagnostics, p.OneExprAt d.loc) ∧
              ∀ cause loc, halt = .error (.fault cause loc) →
                p.OneExprAt loc ∨ Run.EntryLacksBody (Image.load p config) halt := by
  obtain ⟨stream, file, hstream, hfile, hlexemes, -⟩ := Written.exists_file_of_parse h
  have hwrites : Written.Writes stream file := ⟨hfile, hlexemes⟩
  have hplaces := nodup_places_of_tokenize hstream
  have hnodes := hwrites.nodes (Written.parse_eq_ofTokens hstream ▸ h)
  have hnodup := hwrites.nodup_places hplaces hnodes
  have hdistinct := distinctPlaces_of_nodup hnodup
  obtain ⟨ident, hresolution⟩ : ∃ ident, Written.Resolution stream p file.marks ident := by
    have hresolves := hwrites.resolves hplaces
    rwa [← Written.parse_eq_ofTokens hstream, h] at hresolves
  have hlocated := hwrites.locatedNodes hplaces hresolution hnodes
  refine ⟨stream, hstream, ⟨file, hwrites, hlocated⟩, hdistinct, ?_, ?_⟩
  · -- there are as many expressions as tokens that introduce one
    have hlength := file.spread_anchors.length_le
    rw [List.length_map, hnodes.length_eq, Array.length_toList, ← hlexemes,
      List.length_map] at hlength
    exact hlength
  · -- what a run reports lies at an expression, and only one expression lies there
    intro κ _ config fuel s hs
    have hrun := Run.reports_run (Image.load p config) (resolved_of_parse h).wellFormed fuel
      (s := s) fun d hd => (hs d hd).hasExprAt
    refine hrun.mono (fun _ t ht d hd => (ht d hd).one hdistinct) fun halt t ht => ?_
    refine ⟨fun d hd => (ht.1 d hd).one hdistinct, ?_⟩
    rintro cause loc rfl
    exact ht.2.imp_left fun hat => HasExprAt.one hdistinct hat

/-- The two numbers and the sign between them lie at three of the ten tokens, and the diagnostic of
a run is for one of these expressions. -/
theorem locations_of_a_conjunction :
    ∃ p stream, parse "int main() { 1 && 2; }" = .ok p ∧
      tokenize "int main() { 1 && 2; }" = .ok stream ∧
      p.exprs.size = 3 ∧ p.DistinctPlaces ∧ p.exprs.size ≤ stream.tokens.length ∧
      Run.Ensures (Run.run (Image.load p {}) 9) (.initial (Image.load p {}) (Scripted.ofInput []))
        (fun _ t => ∀ d ∈ t.diagnostics, p.OneExprAt d.loc) fun halt t =>
          (∀ d ∈ t.diagnostics, p.OneExprAt d.loc) ∧ ∀ cause loc, halt = .error (.fault cause loc) →
            p.OneExprAt loc ∨ Run.EntryLacksBody (Image.load p {}) halt := by
  obtain ⟨p, hp, hsize⟩ : ∃ p, parse "int main() { 1 && 2; }" = .ok p ∧ p.exprs.size = 3 :=
    exists_of_parse (by decide +kernel)
  obtain ⟨stream, hstream, -, hdistinct, hle, hrun⟩ := locations_identify_expressions hp
  refine ⟨p, stream, hp, hstream, hsize, hdistinct, hle, hrun {} 9 _ fun d hd => ?_⟩
  exact absurd hd (by simp [State.initial])

end Program

end MiniC
