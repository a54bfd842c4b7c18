import Bitwire.Proofs.Coverage

/-! A phrase takes the reading from the stage where it may start to the stage where it has ended,
so that every source file is read to its end. With what the stages cover this says that reading
accepts the grammar, no more and no less. -/
namespace Bitwire

open Grammar

/-! ## Expressions -/

theorem join_append (value : Expr) (inner outer : Pending) :
    Pending.join value (inner ++ outer) = Pending.join (Pending.join value inner) outer :=
  List.foldl_append

/-- An operator completes the waiting operators of its own tier and of the tighter ones. -/
theorem absorb_append {tier : Nat} {extra pending : Pending} (value : Expr)
    (he : ∀ x ∈ extra, tier ≤ x.2.tier) (hp : ∀ x ∈ pending, x.2.tier < tier) :
    Pending.absorb tier value (extra ++ pending) = (Pending.join value extra, pending) := by
  induction extra generalizing value with
  | nil =>
    cases pending with
    | nil => rfl
    | cons x rest =>
      have hx : ¬ tier ≤ x.2.tier := Nat.not_le_of_lt (hp x List.mem_cons_self)
      simp [Pending.absorb, Pending.join, hx]
  | cons x extra ih =>
    have hx : tier ≤ x.2.tier := he x List.mem_cons_self
    simpa [Pending.absorb, Pending.join, hx] using
      ih (.binary x.1 x.2 value) (fun y hy => he y (List.mem_cons_of_mem x hy))

/-- The stages before and after a chain: some of its operators may still wait for what follows,
but joined they make up the tree. -/
def ReadsChain (tier : Nat) (ts : List Token) (e : Expr) : Prop :=
  ∀ (c : Context) (pending : Pending), (∀ x ∈ pending, x.2.tier < tier) →
    ∃ (extra : Pending) (value : Expr), (∀ x ∈ extra, tier ≤ x.2.tier) ∧
      Pending.join value extra = e ∧
      (Progress.operand c ⟨pending, []⟩).advance ts = some (.operator c (extra ++ pending) value)

def ReadsLinks (tier : Nat) (left : Expr) (ts : List Token) (e : Expr) : Prop :=
  ∀ (c : Context) (pending extra : Pending) (value : Expr), (∀ x ∈ pending, x.2.tier < tier) →
    (∀ x ∈ extra, tier ≤ x.2.tier) → Pending.join value extra = left →
    ∃ (extra' : Pending) (value' : Expr), (∀ x ∈ extra', tier ≤ x.2.tier) ∧
      Pending.join value' extra' = e ∧
      (Progress.operator c (extra ++ pending) value).advance ts =
        some (.operator c (extra' ++ pending) value')

def ReadsOperand (ts : List Token) (e : Expr) : Prop :=
  ∀ (c : Context) (level : Level),
    (Progress.operand c level).advance ts = some (.operator c level.pending (level.apply e))

def ReadsPhrase : Phrase → List Token → Expr → Prop
  | .chain tier => ReadsChain tier
  | .links tier left => ReadsLinks tier left
  | .unary | .primary => ReadsOperand

theorem readsChain_of_operand {tier : Nat} {ts : List Token} {e : Expr}
    (h : ReadsPhrase (.operand tier) ts e) : ReadsChain (tier + 1) ts e := by
  unfold Phrase.operand at h
  split at h
  · exact h
  · intro c pending _
    exact ⟨[], e, by simp, rfl, h c ⟨pending, []⟩⟩

theorem step_binary {tier : Nat} {t : Token} {op : BinaryOp} (ht : BinaryToken tier t.kind op)
    (c : Context) {extra pending : Pending} (value : Expr) (hp : ∀ x ∈ pending, x.2.tier < tier)
    (he : ∀ x ∈ extra, tier ≤ x.2.tier) :
    (Progress.operator c (extra ++ pending) value).step t =
      .next (.operand c ⟨(Pending.join value extra, op) :: pending, []⟩) := by
  obtain ⟨hk, rfl⟩ := binaryToken_iff.mp ht
  simp only [Progress.step, Context.readOperator, hk, absorb_append value he hp]

theorem step_unary {t : Token} {op : UnaryOp} (ht : UnaryToken t.kind op) (c : Context)
    (level : Level) :
    (Progress.operand c level).step t =
      .next (.operand c { level with unaries := op :: level.unaries }) := by
  generalize hk : t.kind = kind at ht
  cases ht <;> simp [Progress.step, Context.readOperand, UnaryOp.ofKind?, hk]

theorem step_openParen {t : Token} (ht : t.kind = .openParen) (c : Context) (level : Level) :
    (Progress.operand c level).step t =
      .next (.operand { c with outer := level :: c.outer } .empty) := by
  simp only [Progress.step, Context.readOperand, ht]

/-- The token that ends an expression completes all that waits. -/
theorem step_closer {c : Context} {t : Token} (ht : t.kind = c.closer) (pending : Pending)
    (value : Expr) :
    (Progress.operator c pending value).step t = .next (c.closeLevel (pending.join value)) := by
  have hb : BinaryOp.ofKind? t.kind = none := by
    rw [ht, Context.closer]
    split <;> rfl
  simp only [Progress.step, Context.readOperator, hb, if_pos ht]

theorem ReadsChain.close {ts : List Token} {e : Expr} (h : ReadsChain 0 ts e) {c : Context}
    {t : Token} (ht : t.kind = c.closer) :
    (Progress.operand c .empty).advance (ts ++ [t]) = some (c.closeLevel e) := by
  obtain ⟨extra, value, -, rfl, ha⟩ := h c [] (by simp)
  rw [List.append_nil] at ha
  exact Progress.advance_snoc ha (step_closer ht extra value)

/-- Every phrase of the grammar of expressions is read as it is derived. -/
theorem readsPhrase_of_derives {p : Phrase} {ts : List Token} {e : Expr} (h : Derives p ts e) :
    ReadsPhrase p ts e := by
  induction h with
  | @chain tier ts us first e _ _ ihf ihl =>
    intro c pending hp
    obtain ⟨extra, value, he, hj, ha⟩ := readsChain_of_operand ihf c pending
      (fun x hx => Nat.lt_succ_of_lt (hp x hx))
    obtain ⟨extra', value', he', hj', ha'⟩ := ihl c pending extra value hp
      (fun x hx => Nat.le_of_succ_le (he x hx)) hj
    exact ⟨extra', value', he', hj', by rw [Progress.advance_append ha, ha']⟩
  | noLinks =>
    intro c pending extra value _ he hj
    exact ⟨extra, value, he, hj, rfl⟩
  | @link tier t op ts us left right e ht _ _ ihr ihl =>
    intro c pending extra value hp he hj
    -- the right operand is read with the finished left one waiting in front of it
    obtain ⟨inner, last, hi, hji, hai⟩ := readsChain_of_operand ihr c ((left, op) :: pending) (by
      intro x hx
      rcases List.mem_cons.mp hx with rfl | hx
      · exact (binaryToken_iff.mp ht).2 ▸ Nat.lt_succ_self _
      · exact Nat.lt_succ_of_lt (hp x hx))
    obtain ⟨extra', value', he', hj', ha'⟩ := ihl c pending (inner ++ [(left, op)]) last hp (by
      intro x hx
      rcases List.mem_append.mp hx with hx | hx
      · exact Nat.le_of_succ_le (hi x hx)
      · rw [List.mem_singleton.mp hx, (binaryToken_iff.mp ht).2])
      (by rw [join_append, hji]; rfl)
    refine ⟨extra', value', he', hj', ?_⟩
    rw [Progress.advance_cons (step_binary ht c value hp he), hj, Progress.advance_append hai,
      ← ha', List.append_assoc, List.singleton_append]
  | @unary t op ts e ht _ ih =>
    intro c level
    rw [Progress.advance_cons (step_unary ht c level)]
    exact ih c { level with unaries := op :: level.unaries }
  | plain _ ih => exact ih
  | @paren l r ts e hl _ hr ih =>
    intro c level
    rw [Progress.advance_cons (step_openParen hl c level)]
    exact ReadsChain.close ih hr
  | name ht =>
    intro c level
    simp [Progress.advance, Progress.step, Context.readOperand, ht]
  | literal ht =>
    intro c level
    simp [Progress.advance, Progress.step, Context.readOperand, ht]

theorem advance_expression {c : Context} (hc : c.outer = []) {ts : List Token} {e : Expr}
    {t : Token} (h : Derives (.chain 0) ts e) (ht : t.kind = .semicolon) :
    (Progress.operand c .empty).advance (ts ++ [t]) =
      some (.stmtStart (c.design.addStmt (c.target.stmt e))) := by
  have hcl : t.kind = c.closer := by rw [Context.closer, if_pos hc, ht]
  rw [(readsPhrase_of_derives h).close hcl, Context.closeLevel, hc]

/-! ## Designs -/

/-- The stages after a type: they differ only in that a bracket may still follow `bit`. -/
def AfterType (b : Binding) (type : BitType) (p : Progress) : Prop :=
  ∀ t : Token, t.kind ≠ .openBracket → p.step t = b.close type t.kind

theorem advance_type (b : Binding) {ts : List Token} {type : BitType} (h : TypePhrase ts type) :
    ∃ p, (Progress.bindingType b).advance ts = some p ∧ AfterType b type p := by
  cases h with
  | bit ht =>
    refine ⟨.afterBit b, by simp [Progress.advance, Progress.step, Progress.only, ht], ?_⟩
    intro t hk
    simp [Progress.step, hk]
  | @vector t l h c w r high low hk hh hl hle hlt =>
    refine ⟨.afterType b (.vector (UInt64.ofNat high) (UInt64.ofNat low)), ?_, fun _ _ => rfl⟩
    have hb := ofBounds_eq_ok_iff.mpr ⟨high, low, hh, hl, hle, hlt, rfl⟩
    simp_all [Progress.advance, Progress.step, Progress.only]

theorem advance_binding (d : Design) (role : Role) {n c : Token} {ts : List Token} {type : BitType}
    (hk : [n, c].map Token.kind = [.identifier, .colon]) (h : TypePhrase ts type) :
    ∃ p, (Progress.bindingName d role).advance (n :: c :: ts) = some p ∧
      AfterType ⟨d, role, n.text⟩ type p := by
  obtain ⟨p, ha, hp⟩ := advance_type ⟨d, role, n.text⟩ h
  simp only [List.map_cons, List.map_nil, List.cons.injEq, and_true] at hk
  refine ⟨p, ?_, hp⟩
  rw [Progress.advance_only (p := .bindingName d role) rfl hk.1,
    Progress.advance_only (p := .bindingColon _) rfl hk.2, ha]

/-- A stage at the end of the last port of a design so far. -/
def AfterPort (d : Design) (p : Progress) : Prop :=
  ∀ t : Token, (t.kind = .comma → p.step t = .next (.portStart d)) ∧
    (t.kind = .closeParen → p.step t = .next (.afterPorts d))

theorem advance_port (d : Design) {ts : List Token} {port : Port} (h : PortPhrase ts port) :
    ∃ p, (Progress.portStart d).advance ts = some p ∧ AfterPort (d.addPort port) p := by
  cases h with
  | @port t n c direction ts type ht hk hty =>
    obtain ⟨p, ha, hp⟩ := advance_binding d (.port direction) hk hty
    have hs : (Progress.portStart d).step t = .next (.bindingName d (.port direction)) := by
      generalize hkind : t.kind = kind at ht
      cases ht <;> simp [Progress.step, hkind]
    refine ⟨p, by rw [Progress.advance_cons hs, ha], fun u => ⟨?_, ?_⟩⟩
    · intro hu
      rw [hp u (by simp [hu]), hu]
      rfl
    · intro hu
      rw [hp u (by simp [hu]), hu]
      rfl

theorem advance_commaPorts {d : Design} {p : Progress} {ts : List Token} {ports : List Port}
    (h : Repeated CommaPort ts ports) (hp : AfterPort d p) :
    ∃ q, p.advance ts = some q ∧ AfterPort { d with ports := d.ports ++ ports } q := by
  induction h generalizing d p with
  | nil => exact ⟨p, rfl, by simpa using hp⟩
  | cons hc _ ih =>
    cases hc with
    | port ht hport =>
      obtain ⟨q, ha, hq⟩ := advance_port d hport
      obtain ⟨r, har, hr⟩ := ih hq
      refine ⟨r, ?_, by simpa [Design.addPort] using hr⟩
      rw [List.cons_append, Progress.advance_cons ((hp _).1 ht), Progress.advance_append ha, har]

theorem advance_ports {d : Design} {ts : List Token} {ports : List Port} {t : Token}
    (h : PortList ts ports) (ht : t.kind = .closeParen) :
    (Progress.portStart d).advance (ts ++ [t]) =
      some (.afterPorts { d with ports := d.ports ++ ports }) := by
  have hclose (d : Design) : (Progress.portStart d).step t = .next (.afterPorts d) := by
    simp only [Progress.step, ht]
  cases h with
  | empty => simp [Progress.advance, hclose]
  | @ports ts us p ps hp hps =>
    obtain ⟨q, ha, hq⟩ := advance_port d hp
    obtain ⟨r, har, hr⟩ := advance_commaPorts hps hq
    have hall : (Progress.portStart d).advance (ts ++ us) = some r := by
      rw [Progress.advance_append ha, har]
    simpa [Design.addPort] using Progress.advance_snoc hall ((hr t).2 ht)
  | @trailing ts us c p ps hp hps hc =>
    obtain ⟨q, ha, hq⟩ := advance_port d hp
    obtain ⟨r, har, hr⟩ := advance_commaPorts hps hq
    have hall : (Progress.portStart d).advance (ts ++ us) = some r := by
      rw [Progress.advance_append ha, har]
    simpa [Design.addPort] using
      Progress.advance_snoc (Progress.advance_snoc hall ((hr c).1 hc)) (hclose _)

theorem advance_stmt (d : Design) {ts : List Token} {s : Stmt} (h : StmtPhrase ts s) :
    (Progress.stmtStart d).advance ts = some (.stmtStart (d.addStmt s)) := by
  cases h with
  | @assign n q s ts e hk he hs =>
    simp only [List.map_cons, List.map_nil, List.cons.injEq, and_true] at hk
    have hn : (Progress.stmtStart d).step n = .next (.afterTarget d n.text) := by
      simp only [Progress.step, hk.1]
    rw [Progress.advance_cons hn, Progress.advance_only (p := .afterTarget d n.text) rfl hk.2,
      advance_expression rfl he hs]
    rfl
  | @declare l n c s ts type hk hty hs =>
    simp only [List.map_cons, List.cons.injEq] at hk
    have hl : (Progress.stmtStart d).step l = .next (.bindingName d .wire) := by
      simp only [Progress.step, hk.1]
    obtain ⟨p, ha, hp⟩ := advance_binding d .wire (n := n) (c := c) (by simpa using hk.2) hty
    have hclose : p.step s = .next (.stmtStart (d.addStmt (.declare n.text type))) := by
      rw [hp s (by simp [hs]), hs]
      rfl
    rw [Progress.advance_cons hl]
    exact Progress.advance_snoc ha hclose
  | @declareAssign l n c q s ts us type e hk hty hq he hs =>
    simp only [List.map_cons, List.cons.injEq] at hk
    have hl : (Progress.stmtStart d).step l = .next (.bindingName d .wire) := by
      simp only [Progress.step, hk.1]
    obtain ⟨p, ha, hp⟩ := advance_binding d .wire (n := n) (c := c) (by simpa using hk.2) hty
    have hassign : p.step q = .next (.operand ⟨d, .declare n.text type, []⟩ .empty) := by
      rw [hp q (by simp [hq]), hq]
      rfl
    have hall : (Progress.bindingName d .wire).advance (n :: c :: (ts ++ [q])) =
        some (.operand ⟨d, .declare n.text type, []⟩ .empty) := Progress.advance_snoc ha hassign
    have he := advance_expression (c := ⟨d, .declare n.text type, []⟩) rfl he hs
    rw [Progress.advance_cons hl]
    simpa [he, Target.stmt] using Progress.advance_append hall (us ++ [s])

theorem advance_stmts (d : Design) {ts : List Token} {stmts : List Stmt}
    (h : Repeated StmtPhrase ts stmts) :
    (Progress.stmtStart d).advance ts = some (.stmtStart { d with stmts := d.stmts ++ stmts }) := by
  induction h generalizing d with
  | nil => simp
  | cons hs _ ih =>
    rw [Progress.advance_append (advance_stmt d hs), ih]
    simp [Design.addStmt]

theorem advance_header {top mod name left : Token}
    (hk : [top, mod, name, left].map Token.kind = [.topWord, .modWord, .identifier, .openParen])
    (ts : List Token) : Progress.start.advance (top :: mod :: name :: left :: ts) =
      (Progress.portStart ⟨name.text, [], []⟩).advance ts := by
  simp only [List.map_cons, List.map_nil, List.cons.injEq, and_true] at hk
  obtain ⟨htop, hmod, hname, hleft⟩ := hk
  rw [Progress.advance_only (p := .start) rfl htop, Progress.advance_only (p := .afterTop) rfl hmod,
    Progress.advance_only (p := .afterMod) rfl hname,
    Progress.advance_only (p := .afterName _) rfl hleft]

theorem BodyOpen.advance {d : Design} {ts : List Token} (h : BodyOpen d ts) :
    Progress.start.advance ts = some (.stmtStart d) := by
  cases h with
  | @body top mod name left right brace ps ss ports stmts hk hps hb hss =>
    simp only [List.map_cons, List.map_nil, List.cons.injEq, and_true] at hb
    have hports := advance_ports (d := ⟨name.text, [], []⟩) hps hb.1
    rw [advance_header hk, List.append_cons, Progress.advance_append hports,
      Progress.advance_only (p := .afterPorts _) rfl hb.2, advance_stmts _ hss]
    rfl

theorem advance_sourceFile {ts : List Token} {d : Design} (h : SourceFile ts d) :
    Progress.start.advance ts = some (.done d) := by
  cases h with
  | @file top mod name left right brace close ps ss ports stmts hk hps hb hss hc =>
    have hclose : (Progress.stmtStart ⟨name.text, ports, stmts⟩).step close =
        .next (.done ⟨name.text, ports, stmts⟩) := by
      simp only [Progress.step, hc]
    simpa using Progress.advance_snoc (BodyOpen.body hk hps hb hss).advance hclose

/-! ## Acceptance -/

theorem advance_start_iff {ts : List Token} {d : Design} :
    Progress.start.advance ts = some (.done d) ↔ SourceFile ts d :=
  ⟨@covers_advance .start (.done d) [] ts rfl, advance_sourceFile⟩

/-- Reading a list of tokens succeeds exactly on the source files of the grammar, and with the tree
that the grammar gives them: one tree only. It takes all the tokens and then the end of input. -/
theorem read_eq_ok_iff_sourceFile (ts : List Token) (d : Design) :
    ((Design.read (ts.map Item.token)).result = .ok d ↔ SourceFile ts d) ∧
      (SourceFile ts d → (Design.read (ts.map Item.token)).pulled = ts.length + 1 ∧
        ∀ d', SourceFile ts d' → d' = d) := by
  refine ⟨(Progress.run_tokens_eq_ok_iff _ _ _ ts d).trans advance_start_iff, fun h => ⟨?_, ?_⟩⟩
  · simpa [Design.read] using
      Progress.run_tokens_pulled .start (.done d) 0 0 ts (advance_sourceFile h)
  · intro d' h'
    have heq := (advance_sourceFile h').symm.trans (advance_sourceFile h)
    cases heq
    rfl

/-- In `y = a | & b` the first operator joins two operands and the second stands before one. -/
theorem read_or_of_reduceAnd :
    let ts : List Token := ([(.topWord, []), (.modWord, []), (.identifier, utf8 "m"),
      (.openParen, []), (.closeParen, []), (.openBrace, []), (.identifier, utf8 "y"), (.equals, []),
      (.identifier, utf8 "a"), (.bar, []), (.ampersand, []), (.identifier, utf8 "b"),
      (.semicolon, []), (.closeBrace, [])] : List (Kind × Bytes)).map fun x => ⟨0, 0, x.1, x.2⟩
    let d : Design := ⟨utf8 "m", [], [.assign (utf8 "y")
      (.binary (.name (utf8 "a")) .bitOr (.unary .reduceAnd (.name (utf8 "b"))))]⟩
    SourceFile ts d ∧ (Design.read (ts.map Item.token)).pulled = 15 := by
  intro ts d
  have h : SourceFile ts d := (read_eq_ok_iff_sourceFile ts d).1.mp rfl
  exact ⟨h, ((read_eq_ok_iff_sourceFile ts d).2 h).1⟩

end Bitwire
