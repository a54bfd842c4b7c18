import Bitwire.Proofs.Faults
import Bitwire.Proofs.Lexing

/-! Which trees are read from their own tokens. A tree is stratified when no operand binds more
loosely than its place allows. The grammar derives every stratified tree from its tokens and no
other tree, so that a design that was parsed has stratified trees only. -/
namespace Bitwire

open Text Grammar

/-! ## Operators and their tokens -/

def BinaryOp.Known (op : BinaryOp) : Prop := ∀ code, op ≠ .unknown code

def UnaryOp.Known (op : UnaryOp) : Prop := ∀ code, op ≠ .unknown code

def BinaryOp.kind : BinaryOp → Kind
  | shiftLeft => .shiftLeft
  | shiftRight => .shiftRight
  | bitAnd => .ampersand
  | bitXor => .caret
  | bitOr => .bar
  | unknown code => .unknown code

def UnaryOp.kind : UnaryOp → Kind
  | negate => .tilde
  | reduceAnd => .ampersand
  | reduceXor => .caret
  | reduceOr => .bar
  | unknown code => .unknown code

theorem BinaryOp.Known.written_eq {op : BinaryOp} (h : op.Known) : op.written = op.symbol := by
  cases op with
  | unknown code => exact absurd rfl (h code)
  | shiftLeft | shiftRight | bitAnd | bitXor | bitOr => rfl

theorem BinaryOp.Known.token {op : BinaryOp} (h : op.Known) : BinaryToken op.tier op.kind op := by
  cases op with
  | unknown code => exact absurd rfl (h code)
  | shiftLeft | shiftRight | bitAnd | bitXor | bitOr => constructor

theorem UnaryOp.Known.token {op : UnaryOp} (h : op.Known) : UnaryToken op.kind op := by
  cases op with
  | unknown code => exact absurd rfl (h code)
  | negate | reduceAnd | reduceXor | reduceOr => constructor

theorem binaryToken_spec {tier : Nat} {k : Kind} {op : BinaryOp} (h : BinaryToken tier k op) :
    op.Known ∧ k = op.kind ∧ k ∈ Kind.symbols ∧ k.spelling = op.symbol ∧ op.faults = [] := by
  cases h <;> exact ⟨fun _ h => (nomatch h), rfl, by decide, rfl, rfl⟩

theorem unaryToken_spec {k : Kind} {op : UnaryOp} (h : UnaryToken k op) :
    op.Known ∧ k = op.kind ∧ k ∈ Kind.symbols ∧ k.spelling = op.symbol ∧ op.faults = [] := by
  cases h <;> exact ⟨fun _ h => (nomatch h), rfl, by decide, rfl, rfl⟩

/-! ## Trees -/

namespace Expr

/-- How tightly a tree holds together from outside; whatever is no binary node does so best. -/
def tier : Expr → Nat
  | binary _ op _ => op.tier
  | unary _ _ | paren _ | name _ | literal _ | missing => 4

/-- Every operand holds together where it stands: a left operand at the tier of its operator, a
right operand at a tighter one, and the operand of a unary operator is no binary node. -/
def Stratified : Expr → Prop
  | binary left op right =>
    op.tier ≤ left.tier ∧ op.tier < right.tier ∧ left.Stratified ∧ right.Stratified
  | unary _ operand => operand.tier = 4 ∧ operand.Stratified
  | paren inner => inner.Stratified
  | name _ | literal _ | missing => True

/-- A tree without holes and unknown operators, in which names and literals can be written. -/
def Lexable : Expr → Prop
  | binary left op right => left.Lexable ∧ op.Known ∧ right.Lexable
  | unary op operand => op.Known ∧ operand.Lexable
  | paren inner => inner.Lexable
  | name text => IsName text
  | literal text => IsDigits text
  | missing => False

def keys : Expr → List Key
  | binary left op right => left.keys ++ (op.kind, []) :: right.keys
  | unary op operand => (op.kind, []) :: operand.keys
  | paren inner => (.openParen, []) :: (inner.keys ++ [(.closeParen, [])])
  | name text => [(.identifier, text)]
  | literal text => [(.literal, text)]
  | missing => []

theorem tier_le (e : Expr) : e.tier ≤ 4 := by
  cases e with
  | binary left op right => cases op <;> simp [tier, BinaryOp.tier]
  | unary | paren | name | literal | missing => exact Nat.le_refl 4

/-- A tree with its tokens, to stand where trees of a tier or tighter ones may. -/
structure Written (tier : Nat) (ts : List Token) (e : Expr) : Prop where
  le_tier : tier ≤ e.tier
  stratified : e.Stratified
  lexable : e.Lexable
  keys : ts.map Token.key = e.keys

end Expr

/-! ## From derivations to trees -/

/-- What a derivation of a phrase says of its tree. -/
def Grammar.Phrase.Forms : Phrase → List Token → Expr → Prop
  | chain tier, ts, e => tier ≤ 3 → e.Written tier ts
  | links tier left, ts, e => ∀ us, left.Written tier us → e.Written tier (us ++ ts)
  | unary, ts, e | primary, ts, e => e.Written 4 ts

theorem Expr.Written.loosen {n m : Nat} {ts : List Token} {e : Expr} (h : e.Written m ts)
    (hnm : n ≤ m) : e.Written n ts :=
  ⟨Nat.le_trans hnm h.le_tier, h.stratified, h.lexable, h.keys⟩

theorem written_of_operand {tier : Nat} {ts : List Token} {e : Expr} (ht : tier ≤ 3)
    (h : (Phrase.operand tier).Forms ts e) : e.Written (tier + 1) ts := by
  unfold Phrase.operand at h
  split at h
  · next hlt => exact h hlt
  · exact Expr.Written.loosen h (by omega)

theorem key_of_symbol {t : Token} (h : t.WellSpelled) (hk : t.kind ∈ Kind.symbols) :
    t.key = (t.kind, []) := by
  rw [Token.key, h.bare (Kind.hasText_bare (List.mem_append_right _ hk))]

/-- Trees that are derived from well-spelled tokens are stratified and stand for these tokens. -/
theorem forms_of_derives {p : Phrase} {ts : List Token} {e : Expr} (h : Derives p ts e)
    (hw : ∀ t ∈ ts, t.WellSpelled) : p.Forms ts e := by
  induction h with
  | @chain tier ts us first e _ _ ihf ihl =>
    intro ht
    have hf := written_of_operand ht (ihf fun t h => hw t (List.mem_append_left us h))
    exact ihl (fun t h => hw t (List.mem_append_right ts h)) ts (hf.loosen (Nat.le_succ tier))
  | noLinks =>
    intro us hus
    rwa [List.append_nil]
  | @link tier t op ts us left right e ht _ _ ihr ihl =>
    intro vs hvs
    obtain ⟨hknown, hkind, hsymbol, -, -⟩ := binaryToken_spec ht
    have htier : op.tier = tier := (binaryToken_iff.mp ht).2
    have hr := written_of_operand ht.tier_le (ihr fun x h => hw x (by simp [h]))
    have hkey : t.key = (op.kind, []) := hkind ▸ key_of_symbol (hw t (by simp)) hsymbol
    -- the node stands where its left operand stood, so that the links after it apply to it
    have hb : (Expr.binary left op right).Written tier (vs ++ t :: ts) := by
      refine ⟨Nat.le_of_eq htier.symm, ⟨?_, ?_, hvs.stratified, hr.stratified⟩,
        ⟨hvs.lexable, hknown, hr.lexable⟩, ?_⟩
      · rw [htier]
        exact hvs.le_tier
      · rw [htier]
        exact hr.le_tier
      · rw [List.map_append, List.map_cons, hvs.keys, hkey, hr.keys]
        rfl
    simpa using ihl (fun x h => hw x (by simp [h])) _ hb
  | @unary t op ts e ht _ ih =>
    obtain ⟨hknown, hkind, hsymbol, -, -⟩ := unaryToken_spec ht
    have he := ih fun x h => hw x (List.mem_cons_of_mem t h)
    have hkey : t.key = (op.kind, []) := hkind ▸ key_of_symbol (hw t (by simp)) hsymbol
    refine ⟨Nat.le_refl 4, ⟨Nat.le_antisymm e.tier_le he.le_tier, he.stratified⟩,
      ⟨hknown, he.lexable⟩, ?_⟩
    rw [List.map_cons, hkey, he.keys]
    rfl
  | plain _ ih => exact ih hw
  | @paren l r ts e hl _ hr ih =>
    have he := ih (fun x h => hw x (by simp [h])) (by decide)
    have hkl := key_of_symbol (hw l (by simp)) (by rw [hl]; decide)
    have hkr := key_of_symbol (hw r (by simp)) (by rw [hr]; decide)
    refine ⟨Nat.le_refl 4, he.stratified, he.lexable, ?_⟩
    rw [List.map_cons, List.map_append, List.map_singleton, hkl, hkr, he.keys, hl, hr]
    rfl
  | @name t ht =>
    refine ⟨Nat.le_refl 4, trivial, (hw t (by simp)).name ht, ?_⟩
    simp [Expr.keys, Token.key, ht]
  | @literal t ht =>
    refine ⟨Nat.le_refl 4, trivial, (hw t (by simp)).literal ht, ?_⟩
    simp [Expr.keys, Token.key, ht]

/-! ## From trees to derivations -/

/-- The tightest phrase for trees of a tier. -/
def Grammar.Phrase.ofTier (tier : Nat) : Phrase := if tier ≤ 3 then .chain tier else .unary

theorem chain_of_ofTier {n tier : Nat} {ts : List Token} {e : Expr} (hn : n ≤ tier)
    (h : Derives (.ofTier tier) ts e) : Derives (.chain n) ts e := by
  unfold Phrase.ofTier at h
  split at h
  · next hle => exact chain_loosen hn hle h
  · exact chain_of_operand (operand_of_unary n h)

theorem operand_of_ofTier {n tier : Nat} {ts : List Token} {e : Expr} (hn : n < tier)
    (h : Derives (.ofTier tier) ts e) : Derives (.operand n) ts e := by
  unfold Phrase.ofTier at h
  split at h
  · next hle => exact operand_of_chain hn hle h
  · exact operand_of_unary n h

theorem derives_of_stratified {e : Expr} (hs : e.Stratified) (hl : e.Lexable) {ts : List Token}
    (hk : ts.map Token.key = e.keys) : Derives (.ofTier e.tier) ts e := by
  induction e generalizing ts with
  | binary left op right ihl ihr =>
    obtain ⟨hleft, hright, hsl, hsr⟩ := hs
    obtain ⟨hll, hop, hlr⟩ := hl
    obtain ⟨us, vs, rfl, hus, hvs⟩ := List.map_eq_append_iff.mp hk
    obtain ⟨t, ws, rfl, ht, hws⟩ := List.map_eq_cons_iff.mp hvs
    have htok : BinaryToken op.tier t.kind op := by
      rw [show t.kind = op.kind from congrArg Prod.fst ht]
      exact hop.token
    have hc : Derives (.chain op.tier) (us ++ t :: ws) (.binary left op right) :=
      chain_snoc (chain_of_ofTier hleft (ihl hsl hll hus)) htok
        (operand_of_ofTier hright (ihr hsr hlr hws))
    have hp : Phrase.ofTier (Expr.binary left op right).tier = .chain op.tier := if_pos htok.tier_le
    rwa [hp]
  | unary op operand ih =>
    obtain ⟨htier, hso⟩ := hs
    obtain ⟨hop, hlo⟩ := hl
    obtain ⟨t, us, rfl, ht, hus⟩ := List.map_eq_cons_iff.mp hk
    have htok : UnaryToken t.kind op := by
      rw [show t.kind = op.kind from congrArg Prod.fst ht]
      exact hop.token
    have ho := ih hso hlo hus
    rw [htier] at ho
    exact Derives.unary htok ho
  | paren inner ih =>
    obtain ⟨l, us, rfl, hleft, hus⟩ := List.map_eq_cons_iff.mp hk
    obtain ⟨vs, ws, rfl, hvs, hws⟩ := List.map_eq_append_iff.mp hus
    obtain ⟨r, rfl, hright⟩ := List.map_eq_singleton_iff.mp hws
    exact .plain (.paren (congrArg Prod.fst hleft)
      (chain_of_ofTier (Nat.zero_le _) (ih hs hl hvs)) (congrArg Prod.fst hright))
  | name text =>
    obtain ⟨t, rfl, ht⟩ := List.map_eq_singleton_iff.mp hk
    obtain rfl : t.text = text := congrArg Prod.snd ht
    exact .plain (.name (congrArg Prod.fst ht))
  | literal text =>
    obtain ⟨t, rfl, ht⟩ := List.map_eq_singleton_iff.mp hk
    obtain rfl : t.text = text := congrArg Prod.snd ht
    exact .plain (.literal (congrArg Prod.fst ht))
  | missing => exact hl.elim

/-- The grammar derives a stratified tree from its own tokens. -/
theorem chain_of_stratified {e : Expr} (hs : e.Stratified) (hl : e.Lexable) {ts : List Token}
    (hk : ts.map Token.key = e.keys) : Derives (.chain 0) ts e :=
  chain_of_ofTier (Nat.zero_le _) (derives_of_stratified hs hl hk)

/-! ## Designs that were parsed -/

def Stmt.WellFormed : Stmt → Prop
  | assign name value => IsName name ∧ value.Lexable ∧ value.Stratified
  | declare name type => IsName name ∧ type ≠ .missing
  | declareAssign name type value =>
    IsName name ∧ type ≠ .missing ∧ value.Lexable ∧ value.Stratified
  | missing => False

/-- A design that can be written down so that it is read as it is. -/
structure Design.WellFormed (d : Design) : Prop where
  name : IsName d.name
  ports : ∀ p ∈ d.ports, IsName p.name ∧ p.type ≠ .missing
  stmts : ∀ s ∈ d.stmts, s.WellFormed

theorem typePhrase_ne_missing {ts : List Token} {type : BitType} (h : TypePhrase ts type) :
    type ≠ .missing := by
  cases h <;> exact fun h => nomatch h

theorem portPhrase_wellFormed {ts : List Token} {p : Port} (hw : ∀ t ∈ ts, t.WellSpelled)
    (h : PortPhrase ts p) : IsName p.name ∧ p.type ≠ .missing := by
  cases h with
  | @port _ n _ _ _ _ _ hk ht =>
    simp only [List.map_cons, List.cons.injEq] at hk
    exact ⟨(hw n (by simp)).name hk.1, typePhrase_ne_missing ht⟩

theorem stmtPhrase_wellFormed {ts : List Token} {s : Stmt} (hw : ∀ t ∈ ts, t.WellSpelled)
    (h : StmtPhrase ts s) : s.WellFormed := by
  have hvalue {us : List Token} {e : Expr} (hus : ∀ t ∈ us, t ∈ ts) (he : Derives (.chain 0) us e) :
      e.Lexable ∧ e.Stratified := by
    have hf := forms_of_derives he (fun t ht => hw t (hus t ht)) (Nat.zero_le 3)
    exact ⟨hf.lexable, hf.stratified⟩
  cases h with
  | @assign n q s us e hk he _ =>
    simp only [List.map_cons, List.cons.injEq] at hk
    exact ⟨(hw n (by simp)).name hk.1, hvalue (by simp +contextual) he⟩
  | @declare l n c s us type hk ht _ =>
    simp only [List.map_cons, List.cons.injEq] at hk
    exact ⟨(hw n (by simp)).name hk.2.1, typePhrase_ne_missing ht⟩
  | @declareAssign l n c q s us vs type e hk ht _ he _ =>
    simp only [List.map_cons, List.cons.injEq] at hk
    exact ⟨(hw n (by simp)).name hk.2.1, typePhrase_ne_missing ht, hvalue (by simp +contextual) he⟩

theorem wellFormed_of_parse {src : Bytes} {d : Design} (h : Design.parse src = .ok d) :
    d.WellFormed := by
  obtain ⟨ts, hw, hfile⟩ := sourceFile_of_parse h
  cases hfile with
  | @file top mod name left right brace close ps ss ports stmts hk hps _ hss _ =>
    simp only [List.map_cons, List.cons.injEq] at hk
    refine ⟨(hw name (by simp)).name hk.2.2.1, fun p hp => ?_, fun s hs => ?_⟩
    · obtain ⟨us, hu, hsub⟩ := hps.exists_phrase hp
      exact portPhrase_wellFormed (fun t ht => hw t (by simp [hsub ht])) hu
    · obtain ⟨us, hu, hsub⟩ := hss.exists_phrase hs
      exact stmtPhrase_wellFormed (fun t ht => hw t (by simp [hsub ht])) hu

end Bitwire
