import Bitwire.Proofs.Stratified

/-! Writing an expression and reading it again. Expressions are written without parentheses of
their own, so that any tree that can be written is read as some tree, and as itself exactly when it
is stratified; the trees of a parsed design all are. -/
namespace Bitwire

open Text Grammar
open String (utf8EncodeChar)

/-! ## The text of an expression -/

theorem Lexes.space {after : Bytes} {keys : List Key} (h : Lexes after keys) :
    Lexes (utf8 " " ++ after) keys :=
  .blank (c := ' ') (by decide) h

theorem notNext_space (rest : Bytes) : NotNext wordPart (utf8 " " ++ rest) :=
  notNext_char (c := ' ') (by decide) rest

namespace Expr

/-- The text of a tree lexes to its tokens before anything that does not go on with a word. -/
theorem Lexable.lexes {e : Expr} (h : e.Lexable) {after : Bytes} {keys : List Key}
    (hn : NotNext wordPart after) (ha : Lexes after keys) :
    Lexes (e.text ++ after) (e.keys ++ keys) := by
  induction e generalizing after keys with
  | binary left op right ihl ihr =>
    obtain ⟨hl, hop, hr⟩ := h
    obtain ⟨-, -, hsymbol, hspell, -⟩ := binaryToken_spec hop.token
    have hrest : Lexes (utf8 " " ++ (op.symbol ++ (utf8 " " ++ (right.text ++ after))))
        ((op.kind, []) :: (right.keys ++ keys)) := by
      rw [← hspell]
      exact .space (.symbol hsymbol (.space (ihr hr hn ha)))
    simpa [text, hop.written_eq, Expr.keys] using ihl hl (notNext_space _) hrest
  | unary op operand ih =>
    obtain ⟨hop, ho⟩ := h
    obtain ⟨-, -, hsymbol, hspell, -⟩ := unaryToken_spec hop.token
    have hl := Lexes.symbol hsymbol (ih ho hn ha)
    rw [hspell] at hl
    simpa [text, Expr.keys] using hl
  | paren inner ih =>
    have hclose : Lexes (utf8 " )" ++ after) ((.closeParen, []) :: keys) :=
      .space (.symbol (k := .closeParen) (by decide) ha)
    have hopen : Lexes (utf8 "( " ++ (inner.text ++ (utf8 " )" ++ after)))
        ((.openParen, []) :: (inner.keys ++ (.closeParen, []) :: keys)) :=
      .symbol (k := .openParen) (by decide) (.space (ih h (notNext_space _) hclose))
    simpa [text, Expr.keys] using hopen
  | name text => exact .name h hn ha
  | literal text => exact .literal h (fun c rest hc => isDecimal_le_wordPart (hn c rest hc)) ha
  | missing => exact h.elim

theorem Lexable.faults {e : Expr} (h : e.Lexable) : e.faults = [] := by
  induction e with
  | binary left op right ihl ihr =>
    obtain ⟨hl, hop, hr⟩ := h
    obtain ⟨-, -, -, -, hfaults⟩ := binaryToken_spec hop.token
    simp only [Expr.faults, ihl hl, hfaults, ihr hr, List.append_nil]
  | unary op operand ih =>
    obtain ⟨hop, ho⟩ := h
    obtain ⟨-, -, -, -, hfaults⟩ := unaryToken_spec hop.token
    simp only [Expr.faults, hfaults, ih ho, List.append_nil]
  | paren inner ih => exact ih h
  | name | literal => rfl
  | missing => exact h.elim

theorem Lexable.lower {e : Expr} (h : e.Lexable) : e.lower = .ok e := by
  rw [e.lower_eq, h.faults]
  rfl

theorem Lexable.hasHole {e : Expr} (h : e.Lexable) : e.hasHole = false := by
  induction e with
  | binary left op right ihl ihr => simp [Expr.hasHole, ihl h.1, ihr h.2.2]
  | unary op operand ih => exact ih h.2
  | paren inner ih => exact ih h
  | name | literal => rfl
  | missing => exact h.elim

end Expr

/-! ## The tokens of any tree are read to their end -/

/-- Wherever an operand may start, the tokens of a tree are read up to a place where it may end,
though what they were read as need not be the tree. -/
theorem advance_keys {e : Expr} (h : e.Lexable) {ts : List Token} (hk : ts.map Token.key = e.keys)
    (c : Context) (level : Level) :
    ∃ pending value, (Progress.operand c level).advance ts = some (.operator c pending value) := by
  induction e generalizing ts c level with
  | binary left op right ihl ihr =>
    obtain ⟨hl, hop, hr⟩ := h
    obtain ⟨us, vs, rfl, hus, hvs⟩ := List.map_eq_append_iff.mp hk
    obtain ⟨t, ws, rfl, ht, hws⟩ := List.map_eq_cons_iff.mp hvs
    obtain ⟨pending, value, hleft⟩ := ihl hl hus c level
    have hkind : BinaryOp.ofKind? t.kind = some op := by
      rw [show t.kind = op.kind from congrArg Prod.fst ht]
      exact (binaryToken_iff.mp hop.token).1
    -- how the operator regroups what waits does not matter: an operand may start after it
    have hstep : (Progress.operator c pending value).step t = .next (.operand c
        ⟨((pending.absorb op.tier value).1, op) :: (pending.absorb op.tier value).2, []⟩) := by
      simp only [Progress.step, Context.readOperator, hkind]
    rw [Progress.advance_append hleft, Progress.advance_cons hstep]
    exact ihr hr hws c _
  | unary op operand ih =>
    obtain ⟨hop, ho⟩ := h
    obtain ⟨t, us, rfl, ht, hus⟩ := List.map_eq_cons_iff.mp hk
    have htok : UnaryToken t.kind op := by
      rw [show t.kind = op.kind from congrArg Prod.fst ht]
      exact hop.token
    rw [Progress.advance_cons (step_unary htok c level)]
    exact ih ho hus c _
  | paren inner ih =>
    obtain ⟨l, us, rfl, hl, hus⟩ := List.map_eq_cons_iff.mp hk
    obtain ⟨vs, ws, rfl, hvs, hws⟩ := List.map_eq_append_iff.mp hus
    obtain ⟨r, rfl, hr⟩ := List.map_eq_singleton_iff.mp hws
    obtain ⟨pending, value, hinner⟩ := ih h hvs { c with outer := level :: c.outer } .empty
    have hclose : r.kind = Context.closer { c with outer := level :: c.outer } :=
      congrArg Prod.fst hr
    rw [Progress.advance_cons (step_openParen (congrArg Prod.fst hl) c level),
      Progress.advance_snoc hinner (step_closer hclose pending value)]
    exact ⟨_, _, rfl⟩
  | name text =>
    obtain ⟨t, rfl, ht⟩ := List.map_eq_singleton_iff.mp hk
    have hkind : t.kind = .identifier := congrArg Prod.fst ht
    simp [Progress.advance, Progress.step, Context.readOperand, hkind]
  | literal text =>
    obtain ⟨t, rfl, ht⟩ := List.map_eq_singleton_iff.mp hk
    have hkind : t.kind = .literal := congrArg Prod.fst ht
    simp [Progress.advance, Progress.step, Context.readOperand, hkind]
  | missing => exact h.elim

/-! ## Rereading -/

/-- A source that assigns what a text stands for. -/
def assignmentOf (text : Bytes) : Bytes :=
  utf8 "top mod m ( ) \x7b y = " ++ text ++ utf8 "; \x7d"

def assignmentKeys : List Key := [
  (.topWord, []), (.modWord, []), (.identifier, utf8 "m"), (.openParen, []), (.closeParen, []),
  (.openBrace, []), (.identifier, utf8 "y"), (.equals, [])]

theorem lexes_assignmentOf {e : Expr} (h : e.Lexable) :
    Lexes (assignmentOf e.text)
      (assignmentKeys ++ (e.keys ++ [(.semicolon, []), (.closeBrace, [])])) := by
  have hm : IsName (utf8 "m") := isName_encodeChars 'm' [] (by decide) (by decide) (by decide)
  have hy : IsName (utf8 "y") := isName_encodeChars 'y' [] (by decide) (by decide) (by decide)
  have hend : Lexes (utf8 "; \x7d") [(.semicolon, []), (.closeBrace, [])] :=
    .symbol (k := .semicolon) (by decide) (.space (.symbol (k := .closeBrace) (by decide) .done))
  have hvalue := h.lexes (notNext_char (c := ';') (by decide) _) hend
  have hy : Lexes (utf8 "y = " ++ (e.text ++ utf8 "; \x7d")) ((.identifier, utf8 "y") ::
      (.equals, []) :: (e.keys ++ [(.semicolon, []), (.closeBrace, [])])) :=
    .name hy (notNext_space _) (.space (.symbol (k := .equals) (by decide) (.space hvalue)))
  have hports : Lexes (utf8 "( ) \x7b " ++ (utf8 "y = " ++ (e.text ++ utf8 "; \x7d")))
      ((.openParen, []) :: (.closeParen, []) :: (.openBrace, []) :: (.identifier, utf8 "y") ::
        (.equals, []) :: (e.keys ++ [(.semicolon, []), (.closeBrace, [])])) :=
    .symbol (k := .openParen) (by decide) (.space (.symbol (k := .closeParen) (by decide)
      (.space (.symbol (k := .openBrace) (by decide) (.space hy)))))
  rw [assignmentOf, List.append_assoc]
  exact .keyword (k := .topWord) (by decide) (notNext_space _) (.space
    (.keyword (k := .modWord) (by decide) (notNext_space _) (.space
      (.name hm (notNext_space _) (.space hports)))))

theorem advance_assignmentKeys {ts : List Token} (h : ts.map Token.key = assignmentKeys) :
    Progress.start.advance ts =
      some (.operand ⟨⟨utf8 "m", [], []⟩, .assign (utf8 "y"), []⟩ .empty) := by
  simp only [assignmentKeys, List.map_eq_cons_iff, List.map_eq_nil_iff] at h
  obtain ⟨t₁, -, rfl, h₁, t₂, -, rfl, h₂, t₃, -, rfl, h₃, t₄, -, rfl, h₄, t₅, -, rfl, h₅,
    t₆, -, rfl, h₆, t₇, -, rfl, h₇, t₈, -, rfl, h₈, rfl⟩ := h
  simp only [Token.key, Prod.mk.injEq] at h₁ h₂ h₃ h₄ h₅ h₆ h₇ h₈
  simp [Progress.advance, Progress.step, Progress.only, h₁, h₂, h₃, h₄, h₅, h₆, h₇, h₈]

/-- The design that an assignment of a tree is read as. -/
def assigned (e : Expr) : Design := ⟨utf8 "m", [], [.assign (utf8 "y") e]⟩

theorem exists_reread {e : Expr} (h : e.Lexable) :
    ∃ e', Design.parse (assignmentOf e.text) = .ok (assigned e') ∧ (e.Stratified → e' = e) := by
  obtain ⟨ts, hk, hitems⟩ := (lexes_assignmentOf h).items
  obtain ⟨front, us, rfl, hfront, hus⟩ := List.map_eq_append_iff.mp hk
  obtain ⟨es, back, rfl, hes, hback⟩ := List.map_eq_append_iff.mp hus
  obtain ⟨semicolon, ws, rfl, hsemicolon, hws⟩ := List.map_eq_cons_iff.mp hback
  obtain ⟨brace, rfl, hbrace⟩ := List.map_eq_singleton_iff.mp hws
  have hs : semicolon.kind = .semicolon := congrArg Prod.fst hsemicolon
  have hb : brace.kind = .closeBrace := congrArg Prod.fst hbrace
  obtain ⟨pending, value, hread⟩ :=
    advance_keys h hes ⟨⟨utf8 "m", [], []⟩, .assign (utf8 "y"), []⟩ .empty
  refine ⟨pending.join value, (parse_of_items hitems _).mpr ?_, ?_⟩
  · rw [Progress.advance_append (advance_assignmentKeys hfront), Progress.advance_append hread,
      Progress.advance_cons (step_closer hs pending value)]
    simp only [Progress.advance, Context.closeLevel, Progress.step, hb]
    rfl
  · intro hstrat
    have hchain := readsPhrase_of_derives (chain_of_stratified hstrat h hes)
    obtain ⟨extra, value', -, rfl, hread'⟩ := hchain
      ⟨⟨utf8 "m", [], []⟩, .assign (utf8 "y"), []⟩ [] (by simp)
    have heq := hread.symm.trans hread'
    rw [List.append_nil] at heq
    cases heq
    rfl

namespace Expr

/-- A tree and all the trees in it. -/
def parts : Expr → List Expr
  | binary left op right => binary left op right :: (left.parts ++ right.parts)
  | unary op operand => unary op operand :: operand.parts
  | paren inner => paren inner :: inner.parts
  | name text => [name text]
  | literal text => [literal text]
  | missing => [missing]

theorem mem_parts (e : Expr) : e ∈ e.parts := by
  cases e <;> exact List.mem_cons_self

theorem parts_spec {e : Expr} (hl : e.Lexable) (hs : e.Stratified) :
    ∀ x ∈ e.parts, x.Lexable ∧ x.Stratified := by
  induction e with
  | binary left op right ihl ihr =>
    refine List.forall_mem_cons.mpr ⟨⟨hl, hs⟩, List.forall_mem_append.mpr ⟨?_, ?_⟩⟩
    · exact ihl hl.1 hs.2.2.1
    · exact ihr hl.2.2 hs.2.2.2
  | unary op operand ih => exact List.forall_mem_cons.mpr ⟨⟨hl, hs⟩, ih hl.2 hs.2⟩
  | paren inner ih => exact List.forall_mem_cons.mpr ⟨⟨hl, hs⟩, ih hl hs⟩
  | name | literal => exact List.forall_mem_singleton.mpr ⟨hl, hs⟩
  | missing => exact hl.elim

end Expr

def Stmt.exprs : Stmt → List Expr
  | assign _ value | declareAssign _ _ value => value.parts
  | declare _ _ | missing => []

/-- All the trees in a design, at any depth. -/
def Design.exprs (d : Design) : List Expr := d.stmts.flatMap Stmt.exprs

theorem exprs_of_parse {src : Bytes} {d : Design} (h : Design.parse src = .ok d) :
    ∀ e ∈ d.exprs, e.Lexable ∧ e.Stratified := by
  intro e he
  obtain ⟨s, hs, he⟩ := List.mem_flatMap.mp he
  have hw := (wellFormed_of_parse h).stmts s hs
  cases s with
  | assign name value => exact Expr.parts_spec hw.2.1 hw.2.2 e he
  | declareAssign name type value => exact Expr.parts_spec hw.2.2.1 hw.2.2.2 e he
  | declare | missing => cases he

/-- The text of an expression that can be written is always read, and it is read as the expression
itself exactly when that is stratified. Every expression in a parsed design can be written and is
stratified, so that it is read as itself. -/
theorem reread_eq_self_iff_stratified :
    (∀ e : Expr, e.Lexable → ∃ lowered e', e.lower = .ok lowered ∧ lowered.hasHole = false ∧
      Design.parse (assignmentOf lowered.text) = .ok (assigned e') ∧ (e' = e ↔ e.Stratified)) ∧
    (∀ (src : Bytes) (d : Design), Design.parse src = .ok d → ∀ e ∈ d.exprs,
      e.Lexable ∧ e.Stratified ∧ ∃ lowered, e.lower = .ok lowered ∧ lowered.hasHole = false ∧
        Design.parse (assignmentOf lowered.text) = .ok (assigned e)) := by
  constructor
  · intro e h
    obtain ⟨e', hparse, hself⟩ := exists_reread h
    have hmem : e' ∈ (assigned e').exprs :=
      List.mem_flatMap.mpr ⟨_, List.mem_singleton.mpr rfl, e'.mem_parts⟩
    refine ⟨e, e', h.lower, h.hasHole, hparse, ?_, hself⟩
    rintro rfl
    exact (exprs_of_parse hparse e' hmem).2
  · intro src d h e he
    obtain ⟨hl, hs⟩ := exprs_of_parse h e he
    obtain ⟨e', hparse, hself⟩ := exists_reread hl
    rw [hself hs] at hparse
    exact ⟨hl, hs, e, hl.lower, hl.hasHole, hparse⟩

/-- The text of `~` before an unparenthesised `a | b` is read as something else, and `~b` inside
`a | ~b` as itself. -/
theorem reread_negations :
    let a : Expr := .name (utf8 "a")
    let b : Expr := .name (utf8 "b")
    let e : Expr := .unary .negate (.binary a .bitOr b)
    let d : Design := assigned (.binary a .bitOr (.unary .negate b))
    (e.Lexable ∧ ∃ lowered e', e.lower = .ok lowered ∧
      Design.parse (assignmentOf lowered.text) = .ok (assigned e') ∧ e' ≠ e) ∧
    (Design.parse (utf8 "top mod m ( ) \x7b y = a | ~b; \x7d") = .ok d ∧
      .unary .negate b ∈ d.exprs ∧ ∃ lowered, (Expr.unary .negate b).lower = .ok lowered ∧
        Design.parse (assignmentOf lowered.text) = .ok (assigned (.unary .negate b))) := by
  intro a b e d
  have ha : IsName (utf8 "a") := isName_encodeChars 'a' [] (by decide) (by decide) (by decide)
  have hb : IsName (utf8 "b") := isName_encodeChars 'b' [] (by decide) (by decide) (by decide)
  have hl : e.Lexable := ⟨fun _ h => (nomatch h), ha, fun _ h => (nomatch h), hb⟩
  have hs : ¬ e.Stratified := fun h => absurd h.1 (by decide)
  have hd : Design.parse (utf8 "top mod m ( ) \x7b y = a | ~b; \x7d") = .ok d := rfl
  have hmem : .unary .negate b ∈ d.exprs := by decide
  obtain ⟨lowered, e', hlower, -, hparse, hself⟩ := reread_eq_self_iff_stratified.1 e hl
  obtain ⟨-, -, lowered', hlower', -, hparse'⟩ := reread_eq_self_iff_stratified.2 _ d hd _ hmem
  exact ⟨⟨hl, lowered, e', hlower, hparse, fun h => hs (hself.mp h)⟩,
    hd, hmem, lowered', hlower', hparse'⟩

end Bitwire
