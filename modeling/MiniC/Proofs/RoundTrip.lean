import MiniC.Proofs.NameResolution
import MiniC.Proofs.SourcePrinting
import MiniC.Proofs.UnfoldedFiles

/-!
# Printing, parsing and unfolding

A file that is printed can be parsed, and the program unfolds to the declarations of the file, each
once (`Written.unfold_parse_print`). The file has to be one that the grammar can tell from its
lexemes (`Written.File.WellFormed`), its names have to be in order (`Written.OtherwiseFine`), and it
must not say what a program does not keep: `sizeof` is asked of types only.
-/

set_option autoImplicit false

namespace MiniC.Written

/-! ## Files that can be printed -/

/-- A file that can be printed and read back. -/
structure File.Regular (file : File) : Prop where
  wellFormed : file.WellFormed
  /-- Literals are in range, and identifiers are words that are not reserved. -/
  printable : ∀ x ∈ file.lexemes, x.Printable
  /-- No expression asks for the size of an expression. -/
  sizes : ∀ o ∈ file.occurrences, ∀ operand, o.expr ≠ .sizeOf operand
  /-- The lengths of array parameters are positive where they are stated. -/
  lengths : ∀ d ∈ file.declarations, ∀ f, d.item = .function f →
    ∀ v ∈ f.params.toList, v.length ≠ some (some 0)
  /-- No scope declares a name twice unless it is that of a function, what is called is a function,
  and no function is defined twice. -/
  names : OtherwiseFine file.marks
  /-- Every name is declared before it is used. -/
  declared : ∀ use ∈ file.marks, use.role.declares = false → ∃ decl, Visible file.marks decl use

variable {file : File}

theorem File.Regular.allPlain (h : file.Regular) : AllPlain file.pieces := by
  intro e he
  obtain ⟨pos, hsubset⟩ := exists_pos_of_mem he 0
  refine ⟨pos, fun o ho => ?_⟩
  have hmem : o ∈ file.occurrences := hsubset ho
  have hprintable :=
    h.printable _ (List.mem_of_getElem? (file.spelledIn_of_mem o hmem).getElem?_anchor)
  have hsizes := h.sizes o hmem
  cases hexpr : o.expr with
  | literal value =>
    rw [hexpr] at hprintable
    exact hprintable
  | sizeOf operand => exact absurd hexpr (hsizes operand)
  | name | call | paren | subscript | unary | binary | cast | sizeOfType => trivial

theorem mem_inCommas {ls : List Lexeme} {lss : List (List Lexeme)} (h : ls ∈ lss) :
    ls ⊆ inCommas lss := by
  cases lss with
  | nil => cases h
  | cons first others =>
    rcases List.mem_cons.1 h with rfl | h
    · exact List.subset_append_left _ _
    · refine List.subset_append_of_subset_right _ fun x hx => ?_
      exact List.mem_flatMap.2 ⟨ls, h, List.mem_cons_of_mem _ hx⟩

/-- The names of parameters are among the lexemes of the function. -/
theorem Function.identifier_mem_lexemes {f : Function} {v : Param}
    (hv : v ∈ f.params.toList) {x : String} (hx : v.name = some x) : .identifier x ∈ f.lexemes := by
  have hparam : .identifier x ∈ v.lexemes := by simp [Param.lexemes, hx]
  have hparams : .identifier x ∈ f.params.lexemes := by
    revert hv
    cases f.params with
    | void => exact fun hv => absurd hv List.not_mem_nil
    | list params => exact fun hv => mem_inCommas (List.mem_map_of_mem hv) hparam
  simp [Function.lexemes, hparams]

theorem TopLevel.pieces_subset {d : TopLevel} (hd : d ∈ file.declarations) :
    d.item.pieces ⊆ file.pieces :=
  fun _ hp => List.mem_flatMap.2 ⟨d, hd, List.mem_append_right _ hp⟩

theorem File.Regular.plain (h : file.Regular) : ∀ d ∈ file.declarations, d.item.Plain := by
  intro d hd
  have hpieces := h.allPlain.subset (TopLevel.pieces_subset hd)
  cases hitem : d.item with
  | declaration v =>
    rw [hitem] at hpieces
    exact hpieces
  | function f =>
    rw [hitem] at hpieces
    refine ⟨fun v hv => ⟨?_, h.lengths d hd f hitem v hv⟩, hpieces⟩
    -- the empty text is no word
    intro hname
    have hlexeme : .identifier "" ∈ d.lexemes := by
      rw [TopLevel.lexemes, hitem]
      exact List.mem_append_right _ (f.identifier_mem_lexemes hv hname)
    obtain ⟨⟨⟨c, hc, -⟩, -⟩, -⟩ := h.printable _ (List.mem_flatMap.2 ⟨d, hd, hlexeme⟩)
    cases hc

/-! ## The round trip -/

/-- The tokens of a file whose names are in order have a program. -/
theorem Writes.exists_program {stream : TokenStream} (h : Writes stream file)
    (hplaces : (stream.tokens.map Token.loc).Nodup) (hnames : OtherwiseFine file.marks)
    (hdeclared : ∀ use ∈ file.marks, use.role.declares = false →
      ∃ decl, Visible file.marks decl use) :
    ∃ p, Program.ofTokens stream = .ok p := by
  have hresolves := h.resolves hplaces
  split at hresolves
  · next p hp => exact ⟨p, hp⟩
  · -- the only fault that is left is a name that is not declared
    obtain ⟨m, hm, fault, hfault, -⟩ := hresolves
    obtain ⟨-, hrole, hnone⟩ := hnames.undeclared hm hfault
    obtain ⟨decl, hdecl⟩ := hdeclared m hm hrole
    exact absurd hdecl (hnone decl)

/-- The program of a file unfolds to the declarations of the file, each once. -/
theorem Writes.unfold_eq {stream : TokenStream} (h : Writes stream file)
    (hplain : ∀ d ∈ file.declarations, d.item.Plain)
    {p : Program} (hp : Program.ofTokens stream = .ok p) : p.unfold = some file.condensed := by
  rw [ofTokens_eq_build h.wellFormed h.lexemes] at hp
  cases ht : file.build (.start stream) with
  | error e =>
    rw [ht] at hp
    cases hp
  | ok out =>
    rw [ht] at hp
    cases hp
    exact (file.unfolds_build hplain stream).of_ok ht

/-- Printing a file and parsing the text succeeds, and the program unfolds to the declarations of
the file: one item for every variable and every function, in the order in which they are first
declared, where a definition supplies the parameters and the body. An unfolding says the type of
every variable, as its declarator does (`Program.types_of_declaration`). -/
theorem unfold_parse_print {file : File} (h : file.Regular) :
    ∃ p, Program.parse file.print = .ok p ∧ p.unfold = some file.condensed := by
  obtain ⟨stream, hstream, hwrites⟩ := File.exists_writes_print h.wellFormed h.printable
  obtain ⟨p, hp⟩ := hwrites.exists_program (nodup_places_of_tokenize hstream) h.names h.declared
  refine ⟨p, ?_, hwrites.unfold_eq h.plain hp⟩
  rw [parse_eq_ofTokens hstream, hp]

/-- `int x, *p; int f(int a); int f(int n) { char c, *q; if (n) return f(n - 1); return x; }` -/
def redeclaringFile : File where
  declarations :=
    [⟨false, .declaration ⟨.int, ⟨0, "x", none, none⟩, [⟨1, "p", none, none⟩]⟩⟩,
      ⟨false, .function ⟨⟨.int, 0⟩, "f", .list [⟨⟨.int, 0⟩, some "a", none⟩], none⟩⟩,
      ⟨false, .function ⟨⟨.int, 0⟩, "f", .list [⟨⟨.int, 0⟩, some "n", none⟩], some
        [.declare ⟨.char, ⟨0, "c", none, none⟩, [⟨1, "q", none, none⟩]⟩,
          .ifThen (.name "n")
            (.ret (some (.call "f" [.binary (.arith (.additive .sub)) (.name "n") (.literal 1)]))),
          .ret (some (.name "x"))]⟩⟩]

theorem wellFormed_redeclaringFile : redeclaringFile.WellFormed := by
  have hx : Declarator.WellFormed .int ⟨0, "x", none, none⟩ := ⟨rfl, by simp, fun _ => rfl, by simp⟩
  have hp : Declarator.WellFormed .int ⟨1, "p", none, none⟩ := ⟨rfl, by simp, fun _ => rfl, by simp⟩
  have hc : Declarator.WellFormed .char ⟨0, "c", none, none⟩ :=
    ⟨rfl, by simp, fun _ => rfl, by simp⟩
  have hq : Declarator.WellFormed .char ⟨1, "q", none, none⟩ :=
    ⟨rfl, by simp, fun _ => rfl, by simp⟩
  have hlocals : Stmt.WellFormed (.declare ⟨.char, ⟨0, "c", none, none⟩, [⟨1, "q", none, none⟩]⟩) :=
    List.forall_mem_cons.2 ⟨hc, List.forall_mem_singleton.2 hq⟩
  have hparam (x : String) : Param.WellFormed ⟨⟨.int, 0⟩, some x, none⟩ := rfl
  have hcall :
      Expr.WellFormed (.call "f" [.binary (.arith (.additive .sub)) (.name "n") (.literal 1)]) := by
    simp [Expr.WellFormed, Expr.EachWellFormed, Expr.level, BinaryOp.level, BinaryOp.isAssignment]
  have hif : Stmt.WellFormed (.ifThen (.name "n") (.ret (some (.call "f"
      [.binary (.arith (.additive .sub)) (.name "n") (.literal 1)])))) :=
    ⟨trivial, fun e he => Option.some.inj he ▸ hcall⟩
  have hret : Stmt.WellFormed (.ret (some (.name "x"))) := fun e he => Option.some.inj he ▸ trivial
  intro d hd
  simp only [redeclaringFile, List.mem_cons, List.not_mem_nil, or_false] at hd
  rcases hd with rfl | rfl | rfl
  · simp [Item.WellFormed, Declaration.WellFormed, Declaration.declarators, hx, hp]
  · exact ⟨by simp [Params.WellFormed, hparam], by simp⟩
  · exact ⟨by simp [Params.WellFormed, hparam], by simp [hlocals, hif, hret]⟩

theorem regular_redeclaringFile : redeclaringFile.Regular where
  wellFormed := wellFormed_redeclaringFile
  printable := by decide +kernel
  sizes o ho operand := by
    have hexprs : redeclaringFile.occurrences.map Occurrence.expr =
        [.name "n", .name "n", .literal 1,
          .binary (.arith (.additive .sub)) (.name "n") (.literal 1), .call "f"
          [.binary (.arith (.additive .sub)) (.name "n") (.literal 1)], .name "x"] := rfl
    have hmem := List.mem_map_of_mem (f := Occurrence.expr) ho
    rw [hexprs] at hmem
    intro hsize
    rw [hsize] at hmem
    simp at hmem
  lengths d hd f hf v hv := by
    simp only [redeclaringFile, List.mem_cons, List.not_mem_nil, or_false] at hd
    rcases hd with rfl | rfl | rfl
    · cases hf
    · cases hf
      obtain rfl := List.mem_singleton.1 hv
      simp
    · cases hf
      obtain rfl := List.mem_singleton.1 hv
      simp
  names := by decide +kernel
  declared := by decide +kernel

/-- A prototype and the definition that follows it unfold to one function, which has the parameter
and the body of the definition; the variables of the file are declared one by one, and those of the
function in one list of `char`. -/
theorem unfold_parse_of_redeclared_function :
    redeclaringFile.print =
        "int x , * p ; int f ( int a ) ; int f ( int n ) " ++
          "{ char c , * q ; if ( n ) return f ( n - 1 ) ; return x ; } " ∧
      ∃ p, Program.parse redeclaringFile.print = .ok p ∧ p.unfold = some
        [.declaration ⟨.int, ⟨0, "x", none, none⟩, []⟩,
          .declaration ⟨.int, ⟨1, "p", none, none⟩, []⟩,
          .function ⟨⟨.int, 0⟩, "f", .list [⟨⟨.int, 0⟩, some "n", none⟩], some
            [.declare ⟨.char, ⟨0, "c", none, none⟩, [⟨1, "q", none, none⟩]⟩,
              .ifThen (.name "n")
                (.ret
                  (some (.call "f" [.binary (.arith (.additive .sub)) (.name "n") (.literal 1)]))),
              .ret (some (.name "x"))]⟩] := by
  constructor
  · decide +kernel
  · exact unfold_parse_print regular_redeclaringFile

end MiniC.Written
