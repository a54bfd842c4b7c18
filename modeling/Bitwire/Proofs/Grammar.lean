import Bitwire.Design
import Mathlib.Data.Nat.Digits.Lemmas

/-! The grammar of designs, as relations between lists of tokens and the trees they stand for.
A phrase takes tokens by their kinds; texts count only where a name, a literal or a bound is read,
and spans never count. Nothing here refers to how a design is read. -/
namespace Bitwire.Grammar

/-! ## Operators and bounds -/

/-- The binary operators with their tokens. A lower tier binds more loosely. -/
inductive BinaryToken : (tier : Nat) → Kind → BinaryOp → Prop
  | or : BinaryToken 0 .bar .bitOr
  | xor : BinaryToken 1 .caret .bitXor
  | and : BinaryToken 2 .ampersand .bitAnd
  | left : BinaryToken 3 .shiftLeft .shiftLeft
  | right : BinaryToken 3 .shiftRight .shiftRight

/-- The unary operators with their tokens, three of which are binary operators too. -/
inductive UnaryToken : Kind → UnaryOp → Prop
  | not : UnaryToken .tilde .negate
  | and : UnaryToken .ampersand .reduceAnd
  | xor : UnaryToken .caret .reduceXor
  | or : UnaryToken .bar .reduceOr

/-- A non-empty text of ASCII digits that stands for `n`; leading zeros are allowed. -/
def IsNumeral (text : Bytes) (n : Nat) : Prop :=
  ∃ digits : List Nat, digits ≠ [] ∧ (∀ d ∈ digits, d < 10) ∧
    text = digits.map (fun d => UInt8.ofNat (0x30 + d)) ∧ n = Nat.ofDigits 10 digits.reverse

theorem binaryToken_iff {tier : Nat} {kind : Kind} {op : BinaryOp} :
    BinaryToken tier kind op ↔ BinaryOp.ofKind? kind = some op ∧ op.tier = tier := by
  constructor
  · intro h
    cases h <;> exact ⟨rfl, rfl⟩
  · rintro ⟨hk, rfl⟩
    unfold BinaryOp.ofKind? at hk
    split at hk <;> cases hk <;> constructor

theorem unaryToken_iff {kind : Kind} {op : UnaryOp} :
    UnaryToken kind op ↔ UnaryOp.ofKind? kind = some op := by
  constructor
  · intro h
    cases h <;> rfl
  · intro hk
    unfold UnaryOp.ofKind? at hk
    split at hk <;> cases hk <;> constructor

theorem BinaryToken.tier_le {tier : Nat} {kind : Kind} {op : BinaryOp}
    (h : BinaryToken tier kind op) : tier ≤ 3 := by
  cases h <;> decide

theorem foldl_digits (digits : List Nat) (start : Nat) :
    digits.foldl (fun n d => 10 * n + d) start =
      10 ^ digits.length * start + Nat.ofDigits 10 digits.reverse := by
  induction digits generalizing start with
  | nil => simp
  | cons d digits ih =>
    rw [List.foldl_cons, ih, Nat.ofDigits_reverse_cons, List.length_cons, Nat.pow_succ]
    ring

theorem isNumeral_iff {text : Bytes} {n : Nat} : IsNumeral text n ↔ numeral? text = some n := by
  constructor
  · rintro ⟨digits, hne, hd, rfl, rfl⟩
    have hb (d : Nat) (h : d ∈ digits) : (UInt8.ofNat (0x30 + d)).toNat = 0x30 + d := by
      have := hd d h
      exact UInt8.toNat_ofNat_of_lt' (by simp [UInt8.size]; omega)
    have hall : (digits.map fun d => UInt8.ofNat (0x30 + d)).all
        (fun b => 0x30 ≤ b && b ≤ 0x39) = true := by
      simp only [List.all_map, List.all_eq_true, Function.comp_apply, Bool.and_eq_true,
        decide_eq_true_eq, UInt8.le_iff_toNat_le]
      intro d h
      have := hd d h
      rw [hb d h]
      exact ⟨Nat.le_add_right _ _, Nat.add_le_add_left (by omega : d ≤ 9) 0x30⟩
    have hval : (digits.map fun d => UInt8.ofNat (0x30 + d)).foldl
        (fun n b => 10 * n + (b.toNat - 0x30)) 0 = digits.foldl (fun n d => 10 * n + d) 0 := by
      rw [List.foldl_map]
      refine List.foldl_ext _ _ _ fun n d h => ?_
      rw [hb d h, Nat.add_sub_cancel_left]
    unfold numeral?
    rw [if_pos ⟨by simpa using hne, hall⟩, hval, foldl_digits]
    simp
  · intro h
    unfold numeral? at h
    split at h
    case isFalse => cases h
    case isTrue hs =>
      cases h
      obtain ⟨hne, hall⟩ := hs
      simp only [List.all_eq_true, Bool.and_eq_true, decide_eq_true_eq,
        UInt8.le_iff_toNat_le] at hall
      refine ⟨text.map (fun b => b.toNat - 0x30), by simpa using hne, ?_, ?_, ?_⟩
      · intro d hd
        obtain ⟨b, hb, rfl⟩ := List.mem_map.mp hd
        have := (hall b hb).2
        change b.toNat ≤ 57 at this
        omega
      · rw [List.map_map]
        refine (List.map_id text).symm.trans (List.map_congr_left fun b hb => ?_)
        have := (hall b hb).1
        change 48 ≤ b.toNat at this
        simp only [id, Function.comp_apply]
        rw [Nat.add_sub_cancel' this, UInt8.ofNat_toNat]
      · have hf := foldl_digits (text.map (fun b => b.toNat - 0x30)) 0
        rwa [List.foldl_map, Nat.mul_zero, Nat.zero_add] at hf

theorem bound?_eq_some_iff {text : Bytes} {v : UInt64} :
    bound? text = some v ↔ ∃ n, IsNumeral text n ∧ n < 2 ^ 64 ∧ v = UInt64.ofNat n := by
  unfold bound?
  cases h : numeral? text with
  | none => simp [isNumeral_iff, h]
  | some n =>
    simp only [isNumeral_iff, h, Option.some.injEq, exists_eq_left']
    split
    · next hn =>
      rw [Option.some.injEq]
      exact ⟨fun hv => ⟨hn, hv.symm⟩, fun hv => hv.2.symm⟩
    · next hn => exact ⟨fun hv => (nomatch hv), fun hv => absurd hv.1 hn⟩

theorem ofBounds_eq_ok_iff {high low : Token} {type : BitType} :
    BitType.ofBounds high low = .ok type ↔
      ∃ h l, IsNumeral high.text h ∧ IsNumeral low.text l ∧ l ≤ h ∧ h < 2 ^ 64 ∧
        type = .vector (UInt64.ofNat h) (UInt64.ofNat l) := by
  constructor
  · intro hb
    unfold BitType.ofBounds at hb
    split at hb
    · cases hb
    · next h hh =>
      split at hb
      · cases hb
      · next l hl =>
        split at hb
        · next hle =>
          cases hb
          obtain ⟨n, hn, hlt, rfl⟩ := bound?_eq_some_iff.mp hh
          obtain ⟨m, hm, hlt', rfl⟩ := bound?_eq_some_iff.mp hl
          refine ⟨n, m, hn, hm, ?_, hlt, rfl⟩
          rwa [UInt64.le_iff_toNat_le, UInt64.toNat_ofNat_of_lt' hlt,
            UInt64.toNat_ofNat_of_lt' hlt'] at hle
        · cases hb
  · rintro ⟨h, l, hh, hl, hle, hlt, rfl⟩
    have hlt' : l < 2 ^ 64 := Nat.lt_of_le_of_lt hle hlt
    unfold BitType.ofBounds
    rw [bound?_eq_some_iff.mpr ⟨h, hh, hlt, rfl⟩, bound?_eq_some_iff.mpr ⟨l, hl, hlt', rfl⟩]
    refine if_pos ?_
    rwa [UInt64.le_iff_toNat_le, UInt64.toNat_ofNat_of_lt' hlt, UInt64.toNat_ofNat_of_lt' hlt']

/-! ## Expressions -/

/-- The phrases of expressions. An expression is the chain of tier 0. -/
inductive Phrase
  /-- Operands joined by the operators of a tier. -/
  | chain (tier : Nat)
  /-- Operators of a tier, each with its right operand, that follow `left`. -/
  | links (tier : Nat) (left : Expr)
  | unary
  | primary

/-- What the operators of a tier join: the chains of the next tier, and after the last tier the
unary phrases. -/
def Phrase.operand (tier : Nat) : Phrase := if tier < 3 then .chain (tier + 1) else .unary

inductive Derives : Phrase → List Token → Expr → Prop
  | chain {tier : Nat} {ts us : List Token} {first e : Expr} :
      Derives (.operand tier) ts first → Derives (.links tier first) us e →
      Derives (.chain tier) (ts ++ us) e
  | noLinks {tier : Nat} {left : Expr} : Derives (.links tier left) [] left
  | link {tier : Nat} {t : Token} {op : BinaryOp} {ts us : List Token} {left right e : Expr} :
      BinaryToken tier t.kind op → Derives (.operand tier) ts right →
      Derives (.links tier (.binary left op right)) us e →
      Derives (.links tier left) (t :: (ts ++ us)) e
  | unary {t : Token} {op : UnaryOp} {ts : List Token} {e : Expr} :
      UnaryToken t.kind op → Derives .unary ts e → Derives .unary (t :: ts) (.unary op e)
  | plain {ts : List Token} {e : Expr} : Derives .primary ts e → Derives .unary ts e
  | paren {l r : Token} {ts : List Token} {e : Expr} :
      l.kind = .openParen → Derives (.chain 0) ts e → r.kind = .closeParen →
      Derives .primary (l :: (ts ++ [r])) (.paren e)
  | name {t : Token} : t.kind = .identifier → Derives .primary [t] (.name t.text)
  | literal {t : Token} : t.kind = .literal → Derives .primary [t] (.literal t.text)

theorem chain_of_operand {tier : Nat} {ts : List Token} {e : Expr}
    (h : Derives (.operand tier) ts e) : Derives (.chain tier) ts e := by
  simpa using Derives.chain h .noLinks

/-- What may stand in a tighter tier may stand in a looser one. -/
theorem chain_loosen {n m : Nat} {ts : List Token} {e : Expr} (hnm : n ≤ m) (hm : m ≤ 3)
    (h : Derives (.chain m) ts e) : Derives (.chain n) ts e := by
  induction hnm with
  | refl => exact h
  | @step m _ ih =>
    refine ih (by omega) (chain_of_operand ?_)
    rwa [Phrase.operand, if_pos (by omega)]

theorem operand_of_chain {n m : Nat} {ts : List Token} {e : Expr} (hnm : n < m) (hm : m ≤ 3)
    (h : Derives (.chain m) ts e) : Derives (.operand n) ts e := by
  rw [Phrase.operand, if_pos (by omega)]
  exact chain_loosen hnm hm h

theorem operand_of_unary (n : Nat) {ts : List Token} {e : Expr} (h : Derives .unary ts e) :
    Derives (.operand n) ts e := by
  by_cases hn : n < 3
  · exact operand_of_chain hn (Nat.le_refl 3) (chain_of_operand h)
  · rwa [Phrase.operand, if_neg hn]

theorem links_snoc {tier : Nat} {t : Token} {op : BinaryOp} {ts us : List Token}
    {first left right : Expr} (h : Derives (.links tier first) ts left)
    (ht : BinaryToken tier t.kind op) (hr : Derives (.operand tier) us right) :
    Derives (.links tier first) (ts ++ t :: us) (.binary left op right) := by
  generalize hp : Phrase.links tier first = p at h
  induction h generalizing first with
  | noLinks =>
    cases hp
    simpa using Derives.link ht hr .noLinks
  | link ht' hr' _ _ ih =>
    cases hp
    simpa using Derives.link ht' hr' (ih rfl)
  | chain | unary | plain | paren | name | literal => cases hp

/-- A chain grows at its right end. -/
theorem chain_snoc {tier : Nat} {t : Token} {op : BinaryOp} {ts us : List Token}
    {left right : Expr} (h : Derives (.chain tier) ts left) (ht : BinaryToken tier t.kind op)
    (hr : Derives (.operand tier) us right) :
    Derives (.chain tier) (ts ++ t :: us) (.binary left op right) := by
  cases h with
  | chain hf hl => simpa using Derives.chain hf (links_snoc hl ht hr)

/-! ## Designs -/

/-- Any number of phrases of one sort, one after the other. -/
inductive Repeated {α : Type} (R : List Token → α → Prop) : List Token → List α → Prop
  | nil : Repeated R [] []
  | cons {ts us : List Token} {x : α} {xs : List α} :
      R ts x → Repeated R us xs → Repeated R (ts ++ us) (x :: xs)

theorem Repeated.append {α : Type} {R : List Token → α → Prop} {ts us : List Token}
    {xs ys : List α} (h : Repeated R ts xs) (h' : Repeated R us ys) :
    Repeated R (ts ++ us) (xs ++ ys) := by
  induction h with
  | nil => exact h'
  | cons hx _ ih => simpa using Repeated.cons hx ih

theorem Repeated.snoc {α : Type} {R : List Token → α → Prop} {ts us : List Token} {xs : List α}
    {x : α} (h : Repeated R ts xs) (hx : R us x) : Repeated R (ts ++ us) (xs ++ [x]) := by
  simpa using h.append (.cons hx .nil)

theorem Repeated.exists_phrase {α : Type} {R : List Token → α → Prop} {ts : List Token}
    {xs : List α} (h : Repeated R ts xs) {x : α} (hx : x ∈ xs) : ∃ us, R us x ∧ us ⊆ ts := by
  induction h with
  | nil => cases hx
  | @cons ts us y ys hy _ ih =>
    rcases List.mem_cons.mp hx with rfl | hx
    · exact ⟨ts, hy, List.subset_append_left ts us⟩
    · obtain ⟨vs, hv, hsub⟩ := ih hx
      exact ⟨vs, hv, List.subset_append_of_subset_right ts hsub⟩

/-- A vector needs bounds below `2 ^ 64`, the high one first. -/
inductive TypePhrase : List Token → BitType → Prop
  | bit {t : Token} : t.kind = .bitWord → TypePhrase [t] .bit
  | vector {t l h c w r : Token} {high low : Nat} :
      [t, l, h, c, w, r].map Token.kind =
        [.bitWord, .openBracket, .literal, .colon, .literal, .closeBracket] →
      IsNumeral h.text high → IsNumeral w.text low → low ≤ high → high < 2 ^ 64 →
      TypePhrase [t, l, h, c, w, r] (.vector (UInt64.ofNat high) (UInt64.ofNat low))

inductive DirectionToken : Kind → Direction → Prop
  | input : DirectionToken .inWord .input
  | output : DirectionToken .outWord .output

inductive PortPhrase : List Token → Port → Prop
  | port {d n c : Token} {direction : Direction} {ts : List Token} {type : BitType} :
      DirectionToken d.kind direction → [n, c].map Token.kind = [.identifier, .colon] →
      TypePhrase ts type → PortPhrase (d :: n :: c :: ts) ⟨direction, n.text, type⟩

inductive CommaPort : List Token → Port → Prop
  | port {t : Token} {ts : List Token} {p : Port} :
      t.kind = .comma → PortPhrase ts p → CommaPort (t :: ts) p

/-- A comma after the last port leaves no trace. -/
inductive PortList : List Token → List Port → Prop
  | empty : PortList [] []
  | ports {ts us : List Token} {p : Port} {ps : List Port} :
      PortPhrase ts p → Repeated CommaPort us ps → PortList (ts ++ us) (p :: ps)
  | trailing {ts us : List Token} {t : Token} {p : Port} {ps : List Port} :
      PortPhrase ts p → Repeated CommaPort us ps → t.kind = .comma →
      PortList (ts ++ us ++ [t]) (p :: ps)

theorem PortList.exists_phrase {ts : List Token} {ps : List Port} (h : PortList ts ps) {p : Port}
    (hp : p ∈ ps) : ∃ us, PortPhrase us p ∧ us ⊆ ts := by
  have hcons {us vs : List Token} {q : Port} {qs : List Port} (hq : PortPhrase us q)
      (hqs : Repeated CommaPort vs qs) (hp : p ∈ q :: qs) :
      ∃ ws, PortPhrase ws p ∧ ws ⊆ us ++ vs := by
    rcases List.mem_cons.mp hp with rfl | hp
    · exact ⟨us, hq, List.subset_append_left us vs⟩
    · obtain ⟨ws, hw, hsub⟩ := hqs.exists_phrase hp
      cases hw with
      | @port t ws _ _ hw =>
        exact ⟨ws, hw, List.subset_append_of_subset_right us (List.subset_of_cons_subset hsub)⟩
  cases h with
  | empty => cases hp
  | ports hq hqs => exact hcons hq hqs hp
  | trailing hq hqs _ =>
    obtain ⟨ws, hw, hsub⟩ := hcons hq hqs hp
    exact ⟨ws, hw, List.subset_append_of_subset_left _ hsub⟩

inductive StmtPhrase : List Token → Stmt → Prop
  | assign {n q s : Token} {ts : List Token} {e : Expr} :
      [n, q].map Token.kind = [.identifier, .equals] → Derives (.chain 0) ts e →
      s.kind = .semicolon → StmtPhrase (n :: q :: (ts ++ [s])) (.assign n.text e)
  | declare {l n c s : Token} {ts : List Token} {type : BitType} :
      [l, n, c].map Token.kind = [.letWord, .identifier, .colon] → TypePhrase ts type →
      s.kind = .semicolon → StmtPhrase (l :: n :: c :: (ts ++ [s])) (.declare n.text type)
  | declareAssign {l n c q s : Token} {ts us : List Token} {type : BitType} {e : Expr} :
      [l, n, c].map Token.kind = [.letWord, .identifier, .colon] → TypePhrase ts type →
      q.kind = .equals → Derives (.chain 0) us e → s.kind = .semicolon →
      StmtPhrase (l :: n :: c :: (ts ++ q :: (us ++ [s]))) (.declareAssign n.text type e)

inductive SourceFile : List Token → Design → Prop
  | file {top mod name left right brace close : Token} {ps ss : List Token} {ports : List Port}
      {stmts : List Stmt} :
      [top, mod, name, left].map Token.kind = [.topWord, .modWord, .identifier, .openParen] →
      PortList ps ports → [right, brace].map Token.kind = [.closeParen, .openBrace] →
      Repeated StmtPhrase ss stmts → close.kind = .closeBrace →
      SourceFile (top :: mod :: name :: left :: (ps ++ right :: brace :: (ss ++ [close])))
        ⟨name.text, ports, stmts⟩

end Bitwire.Grammar
