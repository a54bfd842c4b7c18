import Bitwire.Proofs.Lines
import Bitwire.Proofs.Rereading

/-! Operators that touch. Unary operators are written right before their operands, so that two of them
stand side by side where one is applied to the other, and a reader of Verilog may take them for one
operator. In the text of a parsed expression operators touch nowhere else: binary operators have a
blank on each side. -/
namespace Bitwire

open Text

/-! ## Places in a text -/

/-- The characters of the operators that are written with one character. -/
def operatorBytes : Bytes := utf8 "~&|^"

/-- The places where two of these characters touch, counted from `start`, each with the two. -/
def fusedFrom : (start : Nat) → Bytes → List (Nat × Bytes)
  | _, [] | _, [_] => []
  | start, b :: c :: rest =>
    if b ∈ operatorBytes ∧ c ∈ operatorBytes then
      (start, [b, c]) :: fusedFrom (start + 1) (c :: rest)
    else fusedFrom (start + 1) (c :: rest)

theorem mem_fusedFrom_iff {start i : Nat} {text pair : Bytes} :
    (i, pair) ∈ fusedFrom start text ↔ ∃ before b c after, text = before ++ b :: c :: after ∧
      i = start + before.length ∧ pair = [b, c] ∧ b ∈ operatorBytes ∧ c ∈ operatorBytes := by
  induction text generalizing start with
  | nil => simp [fusedFrom]
  | cons x text ih =>
    cases text with
    | nil =>
      constructor
      · intro h
        cases h
      · rintro ⟨before, b, c, after, h, -⟩
        have hlength := congrArg List.length h
        simp only [List.length_cons, List.length_nil, List.length_append] at hlength
        omega
    | cons y text =>
      have hcons : (i, pair) ∈ fusedFrom start (x :: y :: text) ↔
          (i = start ∧ pair = [x, y] ∧ x ∈ operatorBytes ∧ y ∈ operatorBytes) ∨
            (i, pair) ∈ fusedFrom (start + 1) (y :: text) := by
        rw [fusedFrom]
        split
        · next h => simp [h]
        · next h => simp [h]
      rw [hcons, ih]
      constructor
      · rintro (⟨rfl, rfl, hx, hy⟩ | ⟨before, b, c, after, htext, rfl, hpair⟩)
        · exact ⟨[], x, y, text, rfl, rfl, rfl, hx, hy⟩
        · refine ⟨x :: before, b, c, after, by rw [htext, List.cons_append], ?_, hpair⟩
          rw [List.length_cons]
          omega
      · rintro ⟨before, b, c, after, htext, rfl, rfl, hb, hc⟩
        cases before with
        | nil =>
          cases htext
          exact Or.inl ⟨rfl, rfl, hb, hc⟩
        | cons z before =>
          obtain ⟨rfl, hrest⟩ := List.cons.inj htext
          refine Or.inr ⟨before, b, c, after, hrest, ?_, rfl, hb, hc⟩
          rw [List.length_cons]
          omega

theorem fusedFrom_cons_of_notMem {b : UInt8} (hb : b ∉ operatorBytes) (start : Nat) (text : Bytes) :
    fusedFrom start (b :: text) = fusedFrom (start + 1) text := by
  cases text with
  | nil => rfl
  | cons c text => rw [fusedFrom, if_neg fun h => hb h.1]

theorem fusedFrom_of_notMem {text : Bytes} (h : ∀ b ∈ text, b ∉ operatorBytes) (start : Nat) :
    fusedFrom start text = [] := by
  induction text generalizing start with
  | nil => rfl
  | cons b text ih =>
    obtain ⟨hb, htext⟩ := List.forall_mem_cons.mp h
    rw [fusedFrom_cons_of_notMem hb, ih htext]

/-- Nothing touches where a text goes on with another character. -/
theorem fusedFrom_append {text : Bytes} (h : ∀ b ∈ text.head?, b ∉ operatorBytes) (start : Nat)
    (front : Bytes) :
    fusedFrom start (front ++ text) =
      fusedFrom start front ++ fusedFrom (start + front.length) text := by
  induction front generalizing start with
  | nil => rfl
  | cons b front ih =>
    cases front with
    | nil =>
      cases text with
      | nil => rfl
      | cons c text =>
        have hc : c ∉ operatorBytes := h c rfl
        simp [fusedFrom, hc]
    | cons c front =>
      have hrest := ih (start + 1)
      simp only [List.cons_append, fusedFrom, List.length_cons] at hrest ⊢
      rw [hrest]
      split <;> simp [Nat.add_assoc, Nat.add_comm 1]

/-! ## Places in a tree -/

namespace Expr

/-- The nodes of a tree, each with the place of its text, when the text of the tree is at `start`. -/
def nodesFrom (start : Nat) : Expr → List (Nat × Expr)
  | binary left op right => (start, binary left op right) :: (left.nodesFrom start ++
      right.nodesFrom (start + (left.text.length + 1 + op.written.length + 1)))
  | unary op operand => (start, unary op operand) :: operand.nodesFrom (start + op.symbol.length)
  | paren inner => (start, paren inner) :: inner.nodesFrom (start + 2)
  | name text => [(start, name text)]
  | literal text => [(start, literal text)]
  | missing => [(start, missing)]

theorem map_snd_nodesFrom (start : Nat) (e : Expr) : (e.nodesFrom start).map Prod.snd = e.parts := by
  induction e generalizing start with
  | binary left op right ihl ihr => simp [nodesFrom, parts, ihl, ihr]
  | unary op operand ih => simp [nodesFrom, parts, ih]
  | paren inner ih => simp [nodesFrom, parts, ih]
  | name | literal | missing => rfl

/-- The text of a node stands in its place. -/
theorem exists_place {start i : Nat} {e x : Expr} (h : (i, x) ∈ e.nodesFrom start) :
    ∃ before after, e.text = before ++ x.text ++ after ∧ i = start + before.length := by
  have hspace : (utf8 " ").length = 1 := rfl
  have hopen : (utf8 "( ").length = 2 := rfl
  induction e generalizing start with
  | binary left op right ihl ihr =>
    rcases List.mem_cons.mp h with h | h
    · cases h
      exact ⟨[], [], by simp, rfl⟩
    · rcases List.mem_append.mp h with h | h
      · obtain ⟨before, after, htext, rfl⟩ := ihl h
        refine ⟨before, after ++ utf8 " " ++ op.written ++ utf8 " " ++ right.text, ?_, rfl⟩
        simp [text, htext]
      · obtain ⟨before, after, htext, rfl⟩ := ihr h
        refine ⟨left.text ++ utf8 " " ++ op.written ++ utf8 " " ++ before, after, ?_, ?_⟩
        · simp [text, htext]
        · simp only [List.length_append, hspace, Nat.add_assoc]
  | unary op operand ih =>
    rcases List.mem_cons.mp h with h | h
    · cases h
      exact ⟨[], [], by simp, rfl⟩
    · obtain ⟨before, after, htext, rfl⟩ := ih h
      refine ⟨op.symbol ++ before, after, by simp [text, htext], ?_⟩
      rw [List.length_append, Nat.add_assoc]
  | paren inner ih =>
    rcases List.mem_cons.mp h with h | h
    · cases h
      exact ⟨[], [], by simp, rfl⟩
    · obtain ⟨before, after, htext, rfl⟩ := ih h
      refine ⟨utf8 "( " ++ before, after ++ utf8 " )", by simp [text, htext], ?_⟩
      rw [List.length_append, hopen, Nat.add_assoc]
  | name | literal | missing =>
    cases List.mem_singleton.mp h
    exact ⟨[], [], by simp, rfl⟩

/-- Two unary operators, the first of which is applied to the second. -/
def stack? : Expr → Option (UnaryOp × UnaryOp)
  | unary outer (unary inner _) => some (outer, inner)
  | _ => none

/-- The unary nodes directly on unary nodes, with their places. -/
def stacksFrom (start : Nat) (e : Expr) : List (Nat × UnaryOp × UnaryOp) :=
  (e.nodesFrom start).filterMap fun n => n.2.stack?.map fun ops => (n.1, ops)

theorem stack?_eq_some_iff {e : Expr} {outer inner : UnaryOp} :
    e.stack? = some (outer, inner) ↔ ∃ x, e = unary outer (unary inner x) := by
  constructor
  · intro h
    unfold stack? at h
    split at h
    · next x =>
      cases h
      exact ⟨x, rfl⟩
    · cases h
  · rintro ⟨x, rfl⟩
    rfl

theorem exists_node_of_mem_stacksFrom {start i : Nat} {e : Expr} {outer inner : UnaryOp}
    (h : (i, outer, inner) ∈ e.stacksFrom start) :
    ∃ x, (i, unary outer (unary inner x)) ∈ e.nodesFrom start := by
  obtain ⟨⟨i, node⟩, hmem, hnode⟩ := List.mem_filterMap.mp h
  obtain ⟨ops, hstack, he⟩ := Option.map_eq_some_iff.mp hnode
  cases he
  obtain ⟨x, rfl⟩ := stack?_eq_some_iff.mp hstack
  exact ⟨x, hmem⟩

end Expr

/-! ## Where operators touch -/

theorem UnaryOp.Known.mem {op : UnaryOp} (h : op.Known) :
    op ∈ [negate, reduceAnd, reduceXor, reduceOr] := by
  cases op with
  | unknown code => exact absurd rfl (h code)
  | negate | reduceAnd | reduceXor | reduceOr => decide

theorem UnaryOp.Known.exists_byte {op : UnaryOp} (h : op.Known) :
    ∃ b ∈ operatorBytes, op.symbol = [b] := by
  cases op with
  | unknown code => exact absurd rfl (h code)
  | negate | reduceAnd | reduceXor | reduceOr => exact ⟨_, by decide, rfl⟩

theorem UnaryOp.Known.eq_of_symbol_eq {op op' : UnaryOp} (h : op.Known) (h' : op'.Known)
    (he : op.symbol = op'.symbol) : op = op' := by
  have hinj : ∀ x ∈ [negate, reduceAnd, reduceXor, reduceOr],
      ∀ y ∈ [negate, reduceAnd, reduceXor, reduceOr], x.symbol = y.symbol → x = y := by decide
  exact hinj op h.mem op' h'.mem he

theorem Made.operatorBytes_notMem {p : Char → Bool} {text : Bytes} (h : Made p text)
    (hp : ['~', '&', '|', '^'].all (! p ·) = true) : ∀ b ∈ text, b ∉ operatorBytes := by
  simp only [List.all_cons, List.all_nil, Bool.and_true, Bool.and_eq_true, Bool.not_eq_true'] at hp
  obtain ⟨hnot, hand, hor, hxor⟩ := hp
  have hops : operatorBytes = [0x7E, 0x26, 0x7C, 0x5E] := rfl
  intro b hb hmem
  rw [hops] at hmem
  simp only [List.mem_cons, List.not_mem_nil, or_false] at hmem
  rcases hmem with rfl | rfl | rfl | rfl
  · exact h.notMem (a := '~') rfl (by decide) hnot hb
  · exact h.notMem (a := '&') rfl (by decide) hand hb
  · exact h.notMem (a := '|') rfl (by decide) hor hb
  · exact h.notMem (a := '^') rfl (by decide) hxor hb

theorem IsName.operatorBytes_notMem {text : Bytes} (h : IsName text) :
    ∀ b ∈ text, b ∉ operatorBytes :=
  h.made.operatorBytes_notMem (by decide)

theorem IsDigits.operatorBytes_notMem {text : Bytes} (h : IsDigits text) :
    ∀ b ∈ text, b ∉ operatorBytes := by
  obtain ⟨c, cs, rfl, hcs⟩ := h
  exact Made.operatorBytes_notMem ⟨c :: cs, rfl, hcs⟩ (by decide)

theorem space_notMem_operatorBytes : space ∉ operatorBytes := by
  decide

theorem head_space_notMem (text : Bytes) : ∀ b ∈ (space :: text).head?, b ∉ operatorBytes := by
  rintro b ⟨⟩
  exact space_notMem_operatorBytes

theorem fusedFrom_symbol (op : BinaryOp) (start : Nat) : fusedFrom start op.symbol = [] := by
  cases op <;> rfl

/-- A binary operator between blanks touches nothing. -/
theorem fusedFrom_binary (left right : Bytes) {op : BinaryOp} (h : op.Known) (start : Nat) :
    fusedFrom start (left ++ utf8 " " ++ op.written ++ utf8 " " ++ right) = fusedFrom start left ++
      fusedFrom (start + (left.length + 1 + op.written.length + 1)) right := by
  have hspace : utf8 " " = [space] := rfl
  rw [hspace, List.append_assoc, List.append_assoc, List.append_assoc, List.singleton_append,
    List.singleton_append, fusedFrom_append (head_space_notMem _),
    fusedFrom_cons_of_notMem space_notMem_operatorBytes, fusedFrom_append (head_space_notMem _),
    h.written_eq, fusedFrom_symbol, fusedFrom_cons_of_notMem space_notMem_operatorBytes,
    List.nil_append]
  congr 2
  omega

theorem fusedFrom_paren (inner : Bytes) (start : Nat) :
    fusedFrom start (utf8 "( " ++ inner ++ utf8 " )") = fusedFrom (start + 2) inner := by
  have hopen : utf8 "( " = [0x28, space] := rfl
  have hclose : utf8 " )" = [space, 0x29] := rfl
  have hnone : fusedFrom (start + 1 + 1 + inner.length) [space, 0x29] = [] := rfl
  rw [List.append_assoc, hopen, List.cons_append, List.singleton_append,
    fusedFrom_cons_of_notMem (by decide), fusedFrom_cons_of_notMem space_notMem_operatorBytes,
    hclose, fusedFrom_append (head_space_notMem _), hnone, List.append_nil]

namespace Expr

/-- An operand that is no binary node starts with an operator only if it is a unary node. -/
theorem Lexable.head_notMem {e : Expr} (hl : e.Lexable) (ht : e.tier = 4)
    (hu : ∀ op x, e ≠ unary op x) : ∀ b ∈ e.text.head?, b ∉ operatorBytes := by
  cases e with
  | binary left op right => cases op <;> cases ht
  | unary op x => exact absurd rfl (hu op x)
  | paren inner =>
    rintro b ⟨⟩
    decide
  | name text => exact fun b hb => IsName.operatorBytes_notMem hl b (List.mem_of_head? hb)
  | literal text => exact fun b hb => IsDigits.operatorBytes_notMem hl b (List.mem_of_head? hb)
  | missing => exact hl.elim

/-- Operators touch exactly where unary nodes are stacked. -/
theorem Lexable.fusedFrom_text {e : Expr} (hl : e.Lexable) (hs : e.Stratified) (start : Nat) :
    fusedFrom start e.text =
      (e.stacksFrom start).map fun x => (x.1, x.2.1.symbol ++ x.2.2.symbol) := by
  induction e generalizing start with
  | binary left op right ihl ihr =>
    obtain ⟨hll, hop, hlr⟩ := hl
    obtain ⟨-, -, hsl, hsr⟩ := hs
    rw [text, fusedFrom_binary _ _ hop, ihl hll hsl, ihr hlr hsr, ← List.map_append]
    simp [stacksFrom, nodesFrom, stack?]
  | unary op operand ih =>
    obtain ⟨hop, hlo⟩ := hl
    obtain ⟨htier, hso⟩ := hs
    obtain ⟨b, hb, hsymbol⟩ := hop.exists_byte
    have hrest := ih hlo hso (start + 1)
    rw [text, hsymbol, List.singleton_append]
    by_cases hu : ∃ inner x, operand = unary inner x
    · obtain ⟨inner, x, rfl⟩ := hu
      obtain ⟨c, hc, hsymbol'⟩ := hlo.1.exists_byte
      rw [text, hsymbol', List.singleton_append] at hrest ⊢
      rw [fusedFrom, if_pos ⟨hb, hc⟩, hrest]
      simp [stacksFrom, nodesFrom, stack?, hsymbol, hsymbol']
    · have hnone : (unary op operand).stack? = none := by
        cases operand with
        | unary inner x => exact absurd ⟨inner, x, rfl⟩ hu
        | _ => rfl
      have hhead := hlo.head_notMem htier fun inner x he => hu ⟨inner, x, he⟩
      rw [← List.singleton_append, fusedFrom_append hhead, List.length_singleton, hrest]
      simp [fusedFrom, stacksFrom, nodesFrom, hnone, hsymbol]
  | paren inner ih =>
    rw [text, fusedFrom_paren, ih hl hs]
    simp [stacksFrom, nodesFrom, stack?]
  | name text =>
    rw [Expr.text, fusedFrom_of_notMem (IsName.operatorBytes_notMem hl)]
    rfl
  | literal text =>
    rw [Expr.text, fusedFrom_of_notMem (IsDigits.operatorBytes_notMem hl)]
    rfl
  | missing => exact hl.elim

/-- Two unary operators stand side by side exactly where one is applied to the other. -/
theorem Lexable.isInfix_iff {e : Expr} (hl : e.Lexable) (hs : e.Stratified) {outer inner : UnaryOp}
    (ho : outer.Known) (hi : inner.Known) :
    outer.symbol ++ inner.symbol <:+: e.text ↔ ∃ x, unary outer (unary inner x) ∈ e.parts := by
  rw [← e.map_snd_nodesFrom 0]
  constructor
  · rintro ⟨before, after, htext⟩
    obtain ⟨b, hb, hsymbol⟩ := ho.exists_byte
    obtain ⟨c, hc, hsymbol'⟩ := hi.exists_byte
    have hmem : (before.length, outer.symbol ++ inner.symbol) ∈ fusedFrom 0 e.text := by
      refine mem_fusedFrom_iff.mpr ⟨before, b, c, after, ?_, (Nat.zero_add _).symm, ?_, hb, hc⟩
      · rw [← htext, hsymbol, hsymbol']
        simp
      · rw [hsymbol, hsymbol']
        rfl
    rw [hl.fusedFrom_text hs] at hmem
    obtain ⟨⟨i, outer', inner'⟩, hstack, he⟩ := List.mem_map.mp hmem
    obtain ⟨x, hnode⟩ := exists_node_of_mem_stacksFrom hstack
    have hpart := List.mem_map_of_mem (f := Prod.snd) hnode
    obtain ⟨⟨ho', hi', -⟩, -⟩ := parts_spec hl hs _ (e.map_snd_nodesFrom 0 ▸ hpart)
    obtain ⟨b', -, hb'⟩ := ho'.exists_byte
    obtain ⟨houter, hinner⟩ := List.append_inj (congrArg Prod.snd he) (by simp [hb', hsymbol])
    obtain rfl := ho'.eq_of_symbol_eq ho houter
    obtain rfl := hi'.eq_of_symbol_eq hi hinner
    exact ⟨x, hpart⟩
  · rintro ⟨x, hx⟩
    obtain ⟨⟨i, -⟩, hmem, rfl⟩ := List.mem_map.mp hx
    obtain ⟨before, after, htext, -⟩ := exists_place hmem
    exact ⟨before, x.text ++ after, by simp [htext, text]⟩

/-! ## Blanks around binary operators -/

theorem Lexable.tight {e : Expr} (h : e.Lexable) : Tight e.text := by
  have hmade {text : Bytes} (h : Tight text) : Made (fun _ => true) text := by
    obtain ⟨cs, rfl, -, -⟩ := h
    exact ⟨cs, rfl, fun _ _ => rfl⟩
  have hspace : Made (fun _ => true) (utf8 " ") := .of_utf8 rfl
  induction e with
  | binary left op right ihl ihr =>
    obtain ⟨hl, hop, hr⟩ := h
    have hsymbol : Made (fun _ => true) op.symbol := by
      cases op <;> exact .of_utf8 rfl
    simpa [text, hop.written_eq] using
      (ihl hl).surround ((hspace.append hsymbol).append hspace) (ihr hr)
  | unary op operand ih =>
    obtain ⟨hop, ho⟩ := h
    have hsymbol : Tight op.symbol := by
      cases op with
      | unknown code => exact absurd rfl (hop code)
      | negate | reduceAnd | reduceXor | reduceOr => exact .of_utf8 (by decide) (by decide)
    have hnil : Made (fun _ => true) [] := ⟨[], rfl, by simp⟩
    simpa [text] using hsymbol.surround hnil (ih ho)
  | paren inner ih =>
    have hopen : Tight (utf8 "(") := .of_utf8 (by decide) (by decide)
    have hclose : Tight (utf8 ")") := .of_utf8 (by decide) (by decide)
    have hleft : utf8 "( " = utf8 "(" ++ utf8 " " := rfl
    have hright : utf8 " )" = utf8 " " ++ utf8 ")" := rfl
    simpa [text, hleft, hright] using
      hopen.surround ((hspace.append (hmade (ih h))).append hspace) hclose
  | name text => exact IsName.tight h
  | literal text => exact IsDigits.tight h
  | missing => exact h.elim

end Expr

/-- In the text of a parsed expression two of the characters `~ & | ^` touch exactly where a unary node
is directly on another, in the order of the nodes, and they are the symbols of the outer and the inner
one. So the text has a double `&` or `|`, or `^~`, exactly if the expression has one of these reductions
directly on the operator behind it; and a binary operator has one blank on each side. -/
theorem operators_touch_iff_stacked (src : Bytes) (d : Design) (h : Design.parse src = .ok d)
    (e : Expr) (he : e ∈ d.exprs) :
    ∃ lowered, e.lower = .ok lowered ∧ lowered.fault? = none ∧
      fusedFrom 0 lowered.text =
        (e.stacksFrom 0).map (fun x => (x.1, x.2.1.symbol ++ x.2.2.symbol)) ∧
      (∀ i x, (i, x) ∈ e.nodesFrom 0 →
        ∃ before after, lowered.text = before ++ x.text ++ after ∧ before.length = i) ∧
      (utf8 "&&" <:+: lowered.text ↔ ∃ x, .unary .reduceAnd (.unary .reduceAnd x) ∈ e.parts) ∧
      (utf8 "||" <:+: lowered.text ↔ ∃ x, .unary .reduceOr (.unary .reduceOr x) ∈ e.parts) ∧
      (utf8 "^~" <:+: lowered.text ↔ ∃ x, .unary .reduceXor (.unary .negate x) ∈ e.parts) ∧
      ∀ i left op right, (i, .binary left op right) ∈ e.nodesFrom 0 →
        ∃ before after, lowered.text =
            before ++ left.text ++ utf8 " " ++ op.symbol ++ utf8 " " ++ right.text ++ after ∧
          before.length = i ∧ Tight left.text ∧ Tight right.text := by
  obtain ⟨hl, hs⟩ := exprs_of_parse h e he
  have hknown : UnaryOp.negate.Known ∧ UnaryOp.reduceAnd.Known ∧ UnaryOp.reduceXor.Known ∧
      UnaryOp.reduceOr.Known := ⟨nofun, nofun, nofun, nofun⟩
  obtain ⟨hnot, hand, hxor, hor⟩ := hknown
  have hplace (i : Nat) (x : Expr) (hx : (i, x) ∈ e.nodesFrom 0) :
      ∃ before after, e.text = before ++ x.text ++ after ∧ before.length = i := by
    obtain ⟨before, after, htext, rfl⟩ := Expr.exists_place hx
    exact ⟨before, after, htext, (Nat.zero_add _).symm⟩
  refine ⟨e, hl.lower, Expr.fault?_of_faults hl.faults, hl.fusedFrom_text hs 0, hplace,
    hl.isInfix_iff hs hand hand, hl.isInfix_iff hs hor hor, hl.isInfix_iff hs hxor hnot, ?_⟩
  intro i left op right hx
  obtain ⟨before, after, htext, hi⟩ := hplace i _ hx
  have hpart := List.mem_map_of_mem (f := Prod.snd) hx
  obtain ⟨⟨hleft, hop, hright⟩, -⟩ := Expr.parts_spec hl hs _ (e.map_snd_nodesFrom 0 ▸ hpart)
  exact ⟨before, after, by simp [htext, Expr.text, hop.written_eq], hi, hleft.tight, hright.tight⟩

/-- The bar between two stacked reductions touches neither of them. -/
theorem touching_around_bar :
    let a : Expr := .name (utf8 "a")
    let b : Expr := .name (utf8 "b")
    let e : Expr := .binary (.unary .reduceAnd (.unary .reduceAnd a)) .bitOr
      (.unary .reduceXor (.unary .negate b))
    Design.parse (utf8 "top mod m ( ) \x7b y = &&a | ^~b; \x7d") = .ok (assigned e) ∧
      e ∈ (assigned e).exprs ∧ ∃ lowered, e.lower = .ok lowered ∧
        fusedFrom 0 lowered.text = [(0, utf8 "&&"), (6, utf8 "^~")] ∧
        utf8 "&&" <:+: lowered.text ∧ ¬ utf8 "||" <:+: lowered.text := by
  intro a b e
  have h : Design.parse (utf8 "top mod m ( ) \x7b y = &&a | ^~b; \x7d") = .ok (assigned e) := rfl
  have he : e ∈ (assigned e).exprs := by decide
  obtain ⟨lowered, hlower, -, hfused, -, hand, hor, -⟩ := operators_touch_iff_stacked _ _ h e he
  refine ⟨h, he, lowered, hlower, hfused, hand.mpr ⟨a, by decide⟩, fun hinfix => ?_⟩
  obtain ⟨x, hx⟩ := hor.mp hinfix
  simp [e, a, b, Expr.parts] at hx

end Bitwire
