import Bitwire.Proofs.Rereading

/-! The text of a Verilog module determines the module. The text lexes like a source, in which
the words of Verilog are names, and its tokens can be taken apart from the left: a port list ends
at its parenthesis, an expression at its semicolon, and the statements at the word that no
statement starts with. -/
namespace Bitwire.Verilog

open Text Grammar
open Bitwire (Key Lexes IsName)

/-! ## Modules that can be read back -/

def Stmt.WellFormed : Stmt → Prop
  | assign name value | wireAssign name value => IsName name ∧ value.Lexable ∧ value.Stratified
  | wire name => IsName name
  | missing => False

structure Module.WellFormed (m : Module) : Prop where
  name : IsName m.name
  ports : ∀ p ∈ m.ports, IsName p.name
  stmts : ∀ s ∈ m.stmts, s.WellFormed

/-! ## Tokens -/

def Port.keys (p : Port) : List Key := [
  (.identifier, directionWord p.direction), (.identifier, typeWord), (.identifier, p.name)]

def Stmt.keys : Stmt → List Key
  | assign name value => (.identifier, utf8 "assign") :: (.identifier, name) :: (.equals, []) ::
      (value.keys ++ [(.semicolon, [])])
  | wire name => [(.identifier, typeWord), (.identifier, name), (.semicolon, [])]
  | wireAssign name value => (.identifier, typeWord) :: (.identifier, name) :: (.equals, []) ::
      (value.keys ++ [(.semicolon, [])])
  | missing => []

namespace Module

def portKeys : List Port → List Key
  | [] => []
  | [p] => p.keys
  | p :: rest => p.keys ++ (.comma, []) :: portKeys rest

def keys (m : Module) : List Key :=
  (.identifier, utf8 "module") :: (.identifier, m.name) :: (.openParen, []) ::
    (portKeys m.ports ++ (.closeParen, []) :: (.semicolon, []) ::
      (m.stmts.flatMap Stmt.keys ++ [(.identifier, utf8 "endmodule")]))

end Module

theorem isName_typeWord : IsName typeWord :=
  isName_encodeChars 'w' ['i', 'r', 'e'] (by decide) (by decide) (by decide)

theorem isName_directionWord (d : Direction) : IsName (directionWord d) := by
  cases d with
  | input => exact isName_encodeChars 'i' ['n', 'p', 'u', 't'] (by decide) (by decide) (by decide)
  | output =>
    exact isName_encodeChars 'o' ['u', 't', 'p', 'u', 't'] (by decide) (by decide) (by decide)

theorem isName_assign : IsName (utf8 "assign") :=
  isName_encodeChars 'a' ['s', 's', 'i', 'g', 'n'] (by decide) (by decide) (by decide)

theorem isName_module : IsName (utf8 "module") :=
  isName_encodeChars 'm' ['o', 'd', 'u', 'l', 'e'] (by decide) (by decide) (by decide)

theorem isName_endmodule : IsName (utf8 "endmodule") :=
  isName_encodeChars 'e' ['n', 'd', 'm', 'o', 'd', 'u', 'l', 'e'] (by decide) (by decide)
    (by decide)

/-! ## The text lexes to the tokens -/

section Lexing

variable {after : Bytes} {keys : List Key}

theorem lexes_lineEnd (h : Lexes after keys) : Lexes (utf8 " \n" ++ after) keys :=
  .space (.blank (c := '\n') (by decide) h)

theorem notNext_lineEnd (rest : Bytes) : NotNext wordPart (utf8 " \n" ++ rest) :=
  notNext_char (c := ' ') (by decide) _

theorem notNext_semicolon (rest : Bytes) : NotNext wordPart (utf8 ";" ++ rest) :=
  notNext_char (c := ';') (by decide) _

theorem lexes_semicolon (h : Lexes after keys) :
    Lexes (utf8 ";" ++ after) ((.semicolon, []) :: keys) :=
  .symbol (k := .semicolon) (by decide) h

theorem lexes_tab (h : Lexes after keys) : Lexes (utf8 "\t" ++ after) keys :=
  .blank (c := '\t') (by decide) h

theorem Port.lexes {p : Port} (hp : IsName p.name) (hn : NotNext wordPart after)
    (h : Lexes after keys) : Lexes (p.text ++ after) (p.keys ++ keys) := by
  have hname := Lexes.name isName_typeWord (notNext_space _) (.space (.name hp hn h))
  simpa [Port.text, Port.keys] using
    Lexes.name (isName_directionWord p.direction) (notNext_space _) (.space hname)

theorem Module.lexes_portLines {ps : List Port} (hps : ∀ p ∈ ps, IsName p.name)
    (h : Lexes after keys) : Lexes (portLines ps ++ after) (portKeys ps ++ keys) := by
  induction ps with
  | nil => exact h
  | cons p ps ih =>
    obtain ⟨hp, hps⟩ := List.forall_mem_cons.mp hps
    cases ps with
    | nil =>
      simpa [portLines, portKeys] using
        lexes_tab (Port.lexes hp (notNext_lineEnd _) (lexes_lineEnd h))
    | cons q ps =>
      have hcomma : Lexes (utf8 ", \n" ++ (portLines (q :: ps) ++ after))
          ((.comma, []) :: (portKeys (q :: ps) ++ keys)) :=
        .symbol (k := .comma) (by decide) (lexes_lineEnd (ih hps))
      have hn : NotNext wordPart (utf8 ", \n" ++ (portLines (q :: ps) ++ after)) :=
        notNext_char (c := ',') (by decide) _
      simpa [portLines, portKeys] using lexes_tab (Port.lexes hp hn hcomma)

/-- What follows the word that a statement starts with, when a value follows. -/
theorem lexes_value {name : Bytes} {value : Expr} (hn : IsName name) (hv : value.Lexable)
    (h : Lexes after keys) :
    Lexes (name ++ (utf8 " = " ++ (value.text ++ (utf8 ";" ++ after))))
      ((.identifier, name) :: (.equals, []) :: (value.keys ++ (.semicolon, []) :: keys)) := by
  have hvalue := hv.lexes (notNext_semicolon after) (lexes_semicolon h)
  exact .name hn (notNext_space _) (.space (.symbol (k := .equals) (by decide) (.space hvalue)))

theorem Stmt.WellFormed.lexes {s : Stmt} (hs : s.WellFormed) (h : Lexes after keys) :
    Lexes (s.text ++ after) (s.keys ++ keys) := by
  cases s with
  | assign name value =>
    have hword : utf8 "assign " = utf8 "assign" ++ utf8 " " := rfl
    have hl := Lexes.name isName_assign (notNext_space _) (.space (lexes_value hs.1 hs.2.1 h))
    simpa [Stmt.text, Stmt.keys, hword] using hl
  | wire name =>
    have hname := Lexes.name hs (notNext_semicolon after) (lexes_semicolon h)
    have hl := Lexes.name isName_typeWord (notNext_space _) (.space hname)
    simpa [Stmt.text, Stmt.keys] using hl
  | wireAssign name value =>
    have hl := Lexes.name isName_typeWord (notNext_space _) (.space (lexes_value hs.1 hs.2.1 h))
    simpa [Stmt.text, Stmt.keys] using hl
  | missing => exact hs.elim

theorem Module.lexes_stmtLines {ss : List Stmt} (hss : ∀ s ∈ ss, s.WellFormed)
    (h : Lexes after keys) :
    Lexes (ss.flatMap stmtLine ++ after) (ss.flatMap Stmt.keys ++ keys) := by
  induction ss with
  | nil => exact h
  | cons s ss ih =>
    obtain ⟨hs, hss⟩ := List.forall_mem_cons.mp hss
    simpa [stmtLine] using lexes_tab (hs.lexes (lexes_lineEnd (ih hss)))

end Lexing

theorem Module.WellFormed.lexes {m : Module} (h : m.WellFormed) : Lexes m.text m.keys := by
  have hend : Lexes (utf8 "endmodule \n") [(.identifier, utf8 "endmodule")] :=
    .name isName_endmodule (notNext_space _) (lexes_lineEnd .done)
  have hbody : Lexes (utf8 "); \n" ++ (m.stmts.flatMap stmtLine ++ utf8 "endmodule \n"))
      ((.closeParen, []) :: (.semicolon, []) ::
        (m.stmts.flatMap Stmt.keys ++ [(.identifier, utf8 "endmodule")])) :=
    .symbol (k := .closeParen) (by decide) (.symbol (k := .semicolon) (by decide)
      (lexes_lineEnd (lexes_stmtLines h.stmts hend)))
  have hports : Lexes (utf8 "( \n" ++ (portLines m.ports ++
      (utf8 "); \n" ++ (m.stmts.flatMap stmtLine ++ utf8 "endmodule \n")))) _ :=
    .symbol (k := .openParen) (by decide) (lexes_lineEnd (lexes_portLines h.ports hbody))
  have hword : utf8 "module " = utf8 "module" ++ utf8 " " := rfl
  have hparen : utf8 " ( \n" = utf8 " " ++ utf8 "( \n" := rfl
  have hmodule := Lexes.name isName_module (notNext_space _)
    (.space (.name h.name (notNext_space _) (.space hports)))
  simpa [Module.text, Module.keys, hword, hparen] using hmodule

/-! ## The tokens determine the module -/

/-- A list can be cut only once where an element stands for the first time. -/
theorem append_cons_inj {α : Type} {a : α} {xs ys us vs : List α} (hx : a ∉ xs) (hy : a ∉ ys)
    (h : xs ++ a :: us = ys ++ a :: vs) : xs = ys ∧ us = vs := by
  rcases List.append_eq_append_iff.mp h with ⟨zs, rfl, hz⟩ | ⟨zs, rfl, hz⟩
  · cases zs with
    | nil => simpa using hz
    | cons z zs =>
      cases hz
      exact absurd (by simp) hy
  · cases zs with
    | nil => simpa [eq_comm] using hz
    | cons z zs =>
      cases hz
      exact absurd (by simp) hx

theorem semicolon_notMem_keys (e : Expr) : (Kind.semicolon, []) ∉ e.keys := by
  induction e with
  | binary left op right ihl ihr => cases op <;> simp [Expr.keys, BinaryOp.kind, ihl, ihr]
  | unary op operand ih => cases op <;> simp [Expr.keys, UnaryOp.kind, ih]
  | paren inner ih => simp [Expr.keys, ih]
  | name | literal | missing => simp [Expr.keys]

theorem chain_unique {ts : List Token} {e e' : Expr} (h : Derives (.chain 0) ts e)
    (h' : Derives (.chain 0) ts e') : e = e' := by
  have ha := advance_expression (c := ⟨⟨[], [], []⟩, .assign [], []⟩) (t := ⟨0, 0, .semicolon, []⟩)
    rfl h rfl
  rw [advance_expression rfl h' rfl] at ha
  cases ha
  rfl

/-- Stratified trees with the same tokens are the same. -/
theorem expr_eq_of_keys_eq {e e' : Expr} (hl : e.Lexable) (hs : e.Stratified) (hl' : e'.Lexable)
    (hs' : e'.Stratified) (h : e.keys = e'.keys) : e = e' := by
  -- any tokens with these keys will do, for the grammar does not look at places
  let ts : List Token := e.keys.map fun k => ⟨0, 0, k.1, k.2⟩
  have hts : ts.map Token.key = e.keys := by simp [ts, Function.comp_def, Token.key]
  exact chain_unique (chain_of_stratified hs hl hts) (chain_of_stratified hs' hl' (hts.trans h))

/-- A value ends at its semicolon. -/
theorem value_keys_append_inj {e e' : Expr} (he : e.Lexable ∧ e.Stratified)
    (he' : e'.Lexable ∧ e'.Stratified) {us vs : List Key}
    (h : e.keys ++ (.semicolon, []) :: us = e'.keys ++ (.semicolon, []) :: vs) :
    e = e' ∧ us = vs := by
  obtain ⟨hkeys, hrest⟩ := append_cons_inj (semicolon_notMem_keys e) (semicolon_notMem_keys e') h
  exact ⟨expr_eq_of_keys_eq he.1 he.2 he'.1 he'.2 hkeys, hrest⟩

theorem Stmt.keys_append_inj {s s' : Stmt} (hs : s.WellFormed) (hs' : s'.WellFormed)
    {us vs : List Key} (h : s.keys ++ us = s'.keys ++ vs) : s = s' ∧ us = vs := by
  have hwords : utf8 "assign" ≠ typeWord := by decide
  cases s with
  | assign name value =>
    cases s' with
    | assign name' value' =>
      simp only [Stmt.keys, List.cons_append, List.append_assoc, List.nil_append, List.cons.injEq,
        Prod.mk.injEq, true_and] at h
      obtain ⟨rfl, h⟩ := h
      obtain ⟨rfl, rfl⟩ := value_keys_append_inj hs.2 hs'.2 h
      exact ⟨rfl, rfl⟩
    | wire | wireAssign => simp [Stmt.keys, hwords] at h
    | missing => exact hs'.elim
  | wire name =>
    cases s' with
    | wire name' => simpa [Stmt.keys] using h
    | assign => simp [Stmt.keys, hwords.symm] at h
    | wireAssign => simp [Stmt.keys] at h
    | missing => exact hs'.elim
  | wireAssign name value =>
    cases s' with
    | wireAssign name' value' =>
      simp only [Stmt.keys, List.cons_append, List.append_assoc, List.nil_append, List.cons.injEq,
        Prod.mk.injEq, true_and] at h
      obtain ⟨rfl, h⟩ := h
      obtain ⟨rfl, rfl⟩ := value_keys_append_inj hs.2 hs'.2 h
      exact ⟨rfl, rfl⟩
    | assign => simp [Stmt.keys, hwords.symm] at h
    | wire => simp [Stmt.keys] at h
    | missing => exact hs'.elim
  | missing => exact hs.elim

theorem directionWord_injective : Function.Injective directionWord := by
  intro d d' h
  cases d <;> cases d' <;> first | rfl | exact absurd h (by decide)

theorem Port.keys_append_inj {p q : Port} {us vs : List Key}
    (h : p.keys ++ us = q.keys ++ vs) : p = q ∧ us = vs := by
  obtain ⟨d, name⟩ := p
  obtain ⟨d', name'⟩ := q
  simp only [Port.keys, List.cons_append, List.nil_append, List.cons.injEq, Prod.mk.injEq,
    true_and] at h
  obtain ⟨hd, rfl, rfl⟩ := h
  obtain rfl := directionWord_injective hd
  exact ⟨rfl, rfl⟩

namespace Module

theorem flatMap_keys_inj {ss ss' : List Stmt} (hss : ∀ s ∈ ss, s.WellFormed)
    (hss' : ∀ s ∈ ss', s.WellFormed)
    (h : ss.flatMap Stmt.keys ++ [(Kind.identifier, utf8 "endmodule")] =
      ss'.flatMap Stmt.keys ++ [(Kind.identifier, utf8 "endmodule")]) : ss = ss' := by
  -- no statement starts with the word that ends the module
  have hends {s : Stmt} (hs : s.WellFormed) (us : List Key) :
      [(Kind.identifier, utf8 "endmodule")] ≠ s.keys ++ us := by
    have ha : utf8 "endmodule" ≠ utf8 "assign" := by decide
    have hw : utf8 "endmodule" ≠ typeWord := by decide
    cases s with
    | missing => exact hs.elim
    | assign | wire | wireAssign => simp [Stmt.keys, ha, hw]
  induction ss generalizing ss' with
  | nil =>
    cases ss' with
    | nil => rfl
    | cons s' ss' =>
      rw [List.flatMap_cons, List.append_assoc] at h
      exact absurd h (hends (hss' s' List.mem_cons_self) _)
  | cons s ss ih =>
    obtain ⟨hs, hss⟩ := List.forall_mem_cons.mp hss
    cases ss' with
    | nil =>
      rw [List.flatMap_cons, List.append_assoc] at h
      exact absurd h.symm (hends hs _)
    | cons s' ss' =>
      obtain ⟨hs', htail⟩ := List.forall_mem_cons.mp hss'
      rw [List.flatMap_cons, List.flatMap_cons, List.append_assoc, List.append_assoc] at h
      obtain ⟨rfl, hrest⟩ := Stmt.keys_append_inj hs hs' h
      rw [ih hss htail hrest]

/-- After a port comes a comma exactly when another port follows. -/
theorem portKeys_cons (p : Port) (ps : List Port) :
    portKeys (p :: ps) = p.keys ++ if ps = [] then [] else (.comma, []) :: portKeys ps := by
  cases ps <;> simp [portKeys]

theorem portKeys_append_inj {ps qs : List Port} {us vs : List Key}
    (h : portKeys ps ++ (.closeParen, []) :: us = portKeys qs ++ (.closeParen, []) :: vs) :
    ps = qs ∧ us = vs := by
  induction ps generalizing qs with
  | nil =>
    cases qs with
    | nil => simpa [portKeys] using h
    | cons q qs => simp [portKeys_cons, portKeys, Port.keys] at h
  | cons p ps ih =>
    cases qs with
    | nil => simp [portKeys_cons, portKeys, Port.keys] at h
    | cons q qs =>
      rw [portKeys_cons, portKeys_cons, List.append_assoc, List.append_assoc] at h
      obtain ⟨rfl, hrest⟩ := Port.keys_append_inj h
      cases ps with
      | nil =>
        cases qs with
        | nil => simpa using hrest
        | cons q' qs => simp at hrest
      | cons p' ps =>
        cases qs with
        | nil => simp at hrest
        | cons q' qs =>
          simp only [reduceCtorEq, ↓reduceIte, List.cons_append, List.cons.injEq, true_and] at hrest
          obtain ⟨hps, hafter⟩ := ih hrest
          rw [hps]
          exact ⟨rfl, hafter⟩

/-- Modules with the same text are the same. -/
theorem eq_of_text_eq {m m' : Module} (h : m.WellFormed) (h' : m'.WellFormed)
    (ht : m.text = m'.text) : m = m' := by
  have hkeys : m.keys = m'.keys := by
    refine h.lexes.unique ?_
    rw [ht]
    exact h'.lexes
  obtain ⟨name, ports, stmts⟩ := m
  obtain ⟨name', ports', stmts'⟩ := m'
  simp only [keys, List.cons.injEq, Prod.mk.injEq, true_and] at hkeys
  obtain ⟨rfl, hrest⟩ := hkeys
  obtain ⟨rfl, hstmts⟩ := portKeys_append_inj hrest
  obtain rfl := flatMap_keys_inj h.stmts h'.stmts (List.cons.inj hstmts).2
  rfl

end Module

end Bitwire.Verilog
