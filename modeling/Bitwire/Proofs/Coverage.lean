import Bitwire.Design.Progress
import Bitwire.Proofs.Grammar

/-! Every stage of a reading covers the tokens that led to it: they are the phrases the stage
remembers, in their order. A step keeps this, so that a finished reading has covered a source
file. -/
namespace Bitwire

open Grammar

namespace Progress

/-- Where a stage gets to with tokens alone, if none of them stops it. -/
def advance (p : Progress) : List Token → Option Progress
  | [] => some p
  | t :: ts =>
    match p.step t with
    | .next q => q.advance ts
    | _ => none

@[simp] theorem advance_nil (p : Progress) : p.advance [] = some p := rfl

theorem advance_cons {p q : Progress} {t : Token} (h : p.step t = .next q) (ts : List Token) :
    p.advance (t :: ts) = q.advance ts := by
  simp only [advance, h]

theorem advance_append {p q : Progress} {ts : List Token} (h : p.advance ts = some q)
    (us : List Token) : p.advance (ts ++ us) = q.advance us := by
  induction ts generalizing p with
  | nil =>
    cases h
    rfl
  | cons t ts ih =>
    simp only [List.cons_append, advance] at h ⊢
    split at h
    · exact ih h
    · cases h

theorem advance_snoc {p q r : Progress} {ts : List Token} {t : Token} (h : p.advance ts = some q)
    (hs : q.step t = .next r) : p.advance (ts ++ [t]) = some r := by
  rw [advance_append h, advance_cons hs, advance_nil]

theorem finish_eq_ok_iff {p : Progress} {last : Int} {d : Design} :
    p.finish last = .ok d ↔ p = .done d := by
  cases p <;> simp [finish]

theorem run_tokens_eq_ok_iff (p : Progress) (last : Int) (pulled : Nat) (ts : List Token)
    (d : Design) :
    (p.run last pulled (ts.map Item.token)).result = .ok d ↔ p.advance ts = some (.done d) := by
  induction ts generalizing p last pulled with
  | nil => simp [run, finish_eq_ok_iff]
  | cons t ts ih =>
    simp only [List.map_cons, run, advance]
    cases p.step t with
    | next q => exact ih q t.stop (pulled + 1)
    | unexpected => simp
    | invalid position => simp
    | extra => simp

theorem run_tokens_pulled (p q : Progress) (last : Int) (pulled : Nat) (ts : List Token)
    (h : p.advance ts = some q) :
    (p.run last pulled (ts.map Item.token)).pulled = pulled + ts.length + 1 := by
  induction ts generalizing p last pulled with
  | nil => simp [run]
  | cons t ts ih =>
    simp only [advance] at h
    simp only [List.map_cons, run]
    split at h
    · next r hr =>
      simp only [hr, ih r t.stop (pulled + 1) h, List.length_cons]
      omega
    · cases h

theorem only_eq_next_iff {kind : Kind} {t : Token} {p q : Progress} :
    only kind t p = .next q ↔ t.kind = kind ∧ q = p := by
  unfold only
  split
  · next h => simp [h, eq_comm]
  · next h => simp [h]

theorem advance_only {p q : Progress} {kind : Kind} {t : Token} (hp : p.step t = only kind t q)
    (ht : t.kind = kind) (ts : List Token) : p.advance (t :: ts) = q.advance ts :=
  advance_cons (hp.trans (only_eq_next_iff.mpr ⟨ht, rfl⟩)) ts

end Progress

/-! ## What the stages cover -/

/-- The waiting left operands as they were read; their tiers grow inwards. -/
inductive Waits : Pending → List Token → Prop
  | nil : Waits [] []
  | cons {left : Expr} {op : BinaryOp} {rest : Pending} {ts us : List Token} {t : Token} :
      Waits rest ts → (∀ x ∈ rest, x.2.tier < op.tier) → Derives (.chain op.tier) us left →
      BinaryToken op.tier t.kind op → Waits ((left, op) :: rest) (ts ++ us ++ [t])

/-- Unary operators in front of an operand, the innermost first. -/
inductive Unaries : List UnaryOp → List Token → Prop
  | nil : Unaries [] []
  | cons {op : UnaryOp} {ops : List UnaryOp} {ts : List Token} {t : Token} :
      Unaries ops ts → UnaryToken t.kind op → Unaries (op :: ops) (ts ++ [t])

inductive Opens : Level → List Token → Prop
  | level {pending : Pending} {unaries : List UnaryOp} {ts us : List Token} :
      Waits pending ts → Unaries unaries us → Opens ⟨pending, unaries⟩ (ts ++ us)

/-- The levels outside the parentheses that are open, the innermost first. -/
inductive Nests : List Level → List Token → Prop
  | nil : Nests [] []
  | cons {level : Level} {outer : List Level} {ts us : List Token} {t : Token} :
      Nests outer ts → Opens level us → t.kind = .openParen →
      Nests (level :: outer) (ts ++ us ++ [t])

inductive Aims : Target → List Token → Prop
  | assign {n q : Token} :
      [n, q].map Token.kind = [.identifier, .equals] → Aims (.assign n.text) [n, q]
  | declare {l n c q : Token} {ts : List Token} {type : BitType} :
      [l, n, c].map Token.kind = [.letWord, .identifier, .colon] → TypePhrase ts type →
      q.kind = .equals → Aims (.declare n.text type) (l :: n :: c :: (ts ++ [q]))

inductive EndedPort : List Token → Port → Prop
  | port {ts : List Token} {t : Token} {p : Port} :
      PortPhrase ts p → t.kind = .comma → EndedPort (ts ++ [t]) p

/-- A design up to a place where a port may start. -/
inductive PortsOpen : Design → List Token → Prop
  | ports {top mod name left : Token} {ps : List Token} {ports : List Port} :
      [top, mod, name, left].map Token.kind = [.topWord, .modWord, .identifier, .openParen] →
      Repeated EndedPort ps ports →
      PortsOpen ⟨name.text, ports, []⟩ (top :: mod :: name :: left :: ps)

/-- A design up to the end of its ports. -/
inductive PortsRead : Design → List Token → Prop
  | ports {top mod name left right : Token} {ps : List Token} {ports : List Port} :
      [top, mod, name, left].map Token.kind = [.topWord, .modWord, .identifier, .openParen] →
      PortList ps ports → right.kind = .closeParen →
      PortsRead ⟨name.text, ports, []⟩ (top :: mod :: name :: left :: (ps ++ [right]))

/-- A design up to a place where a statement may start. -/
inductive BodyOpen : Design → List Token → Prop
  | body {top mod name left right brace : Token} {ps ss : List Token} {ports : List Port}
      {stmts : List Stmt} :
      [top, mod, name, left].map Token.kind = [.topWord, .modWord, .identifier, .openParen] →
      PortList ps ports → [right, brace].map Token.kind = [.closeParen, .openBrace] →
      Repeated StmtPhrase ss stmts →
      BodyOpen ⟨name.text, ports, stmts⟩
        (top :: mod :: name :: left :: (ps ++ right :: brace :: ss))

inductive Introduces : Design → Role → List Token → Prop
  | port {d : Design} {direction : Direction} {ts : List Token} {t : Token} :
      PortsOpen d ts → DirectionToken t.kind direction →
      Introduces d (.port direction) (ts ++ [t])
  | wire {d : Design} {ts : List Token} {t : Token} :
      BodyOpen d ts → t.kind = .letWord → Introduces d .wire (ts ++ [t])

/-- A binding up to the place of its type. -/
inductive Typed : Binding → List Token → Prop
  | binding {d : Design} {role : Role} {n c : Token} {ts : List Token} :
      Introduces d role ts → [n, c].map Token.kind = [.identifier, .colon] →
      Typed ⟨d, role, n.text⟩ (ts ++ [n, c])

/-- A statement up to the innermost level of its expression. -/
inductive Within : Context → List Token → Prop
  | context {d : Design} {target : Target} {outer : List Level} {ts us vs : List Token} :
      BodyOpen d ts → Aims target us → Nests outer vs → Within ⟨d, target, outer⟩ (ts ++ us ++ vs)

/-- The tokens read so far are the parts that a stage remembers. -/
def Progress.Covers : Progress → List Token → Prop
  | start, ts => ts = []
  | afterTop, ts => ts.map Token.kind = [.topWord]
  | afterMod, ts => ts.map Token.kind = [.topWord, .modWord]
  | afterName d, ts => ∃ top mod name : Token, d = ⟨name.text, [], []⟩ ∧ ts = [top, mod, name] ∧
      ts.map Token.kind = [.topWord, .modWord, .identifier]
  | portStart d, ts => PortsOpen d ts
  | afterPorts d, ts => PortsRead d ts
  | stmtStart d, ts => BodyOpen d ts
  | bindingName d role, ts => Introduces d role ts
  | bindingColon b, ts => ∃ us n, Introduces b.design b.role us ∧ n.kind = .identifier ∧
      n.text = b.name ∧ ts = us ++ [n]
  | bindingType b, ts => Typed b ts
  | afterBit b, ts => ∃ us t, Typed b us ∧ t.kind = .bitWord ∧ ts = us ++ [t]
  | highBound b, ts => ∃ us t l, Typed b us ∧ ts = us ++ [t, l] ∧
      [t, l].map Token.kind = [.bitWord, .openBracket]
  | boundColon b high, ts => ∃ us t l, Typed b us ∧ ts = us ++ [t, l, high] ∧
      [t, l, high].map Token.kind = [.bitWord, .openBracket, .literal]
  | lowBound b high, ts => ∃ us t l c, Typed b us ∧ ts = us ++ [t, l, high, c] ∧
      [t, l, high, c].map Token.kind = [.bitWord, .openBracket, .literal, .colon]
  | boundsEnd b high low, ts => ∃ us t l c, Typed b us ∧ ts = us ++ [t, l, high, c, low] ∧
      [t, l, high, c, low].map Token.kind = [.bitWord, .openBracket, .literal, .colon, .literal]
  | afterType b type, ts => ∃ us vs, Typed b us ∧ TypePhrase vs type ∧ ts = us ++ vs
  | afterTarget d name, ts => ∃ us n, BodyOpen d us ∧ n.kind = .identifier ∧ n.text = name ∧
      ts = us ++ [n]
  | operand c level, ts => ∃ us vs, Within c us ∧ Opens level vs ∧ ts = us ++ vs
  | operator c pending value, ts => ∃ us vs ws, Within c us ∧ Waits pending vs ∧
      Derives .unary ws value ∧ ts = us ++ vs ++ ws
  | done d, ts => SourceFile ts d

/-! ## A step covers one more token -/

/-- Absorbing regroups the tokens: the operators that bind no looser than `tier` go into the left
operand, and only looser ones keep waiting. -/
theorem absorb_covers {pending : Pending} {ts us : List Token} {value : Expr} {tier : Nat}
    (hw : Waits pending ts) (hv : ∀ x ∈ pending, Derives (.operand x.2.tier) us value)
    (ht : Derives (.chain tier) us value) :
    ∃ ts' us', ts ++ us = ts' ++ us' ∧ Waits (pending.absorb tier value).2 ts' ∧
      (∀ x ∈ (pending.absorb tier value).2, x.2.tier < tier) ∧
      Derives (.chain tier) us' (pending.absorb tier value).1 := by
  induction hw generalizing us value with
  | nil => exact ⟨[], us, rfl, .nil, by simp [Pending.absorb], ht⟩
  | @cons left op rest ts vs t hrest hlt hl hop ih =>
    unfold Pending.absorb
    split
    · next hle =>
      have hb : Derives (.chain op.tier) (vs ++ t :: us) (.binary left op value) :=
        chain_snoc hl hop (hv (left, op) List.mem_cons_self)
      obtain ⟨ts', us', he, h⟩ := ih
        (fun x hx => operand_of_chain (hlt x hx) hop.tier_le hb) (chain_loosen hle hop.tier_le hb)
      exact ⟨ts', us', by simpa using he, h⟩
    · next hle =>
      refine ⟨_, us, rfl, .cons hrest hlt hl hop, ?_, ht⟩
      intro x hx
      rcases List.mem_cons.mp hx with rfl | hx
      · exact Nat.lt_of_not_le hle
      · exact Nat.lt_trans (hlt x hx) (Nat.lt_of_not_le hle)

theorem absorb_zero (value : Expr) (pending : Pending) :
    pending.absorb 0 value = (pending.join value, []) := by
  induction pending generalizing value with
  | nil => rfl
  | cons x rest ih => simpa [Pending.absorb, Pending.join] using ih (.binary x.1 x.2 value)

theorem join_derives {pending : Pending} {ts us : List Token} {value : Expr}
    (hw : Waits pending ts) (hv : Derives .unary us value) :
    Derives (.chain 0) (ts ++ us) (pending.join value) := by
  obtain ⟨ts', us', he, hn, -, hd⟩ := absorb_covers hw (fun x _ => operand_of_unary x.2.tier hv)
    (chain_of_operand (operand_of_unary 0 hv))
  rw [absorb_zero] at hn hd
  cases hn
  rwa [he, List.nil_append]

theorem Unaries.apply {pending : Pending} {unaries : List UnaryOp} {ts us : List Token} {e : Expr}
    (h : Unaries unaries ts) (he : Derives .unary us e) :
    Derives .unary (ts ++ us) ((Level.mk pending unaries).apply e) := by
  unfold Level.apply
  induction h generalizing us e with
  | nil => exact he
  | cons _ ht ih => simpa using ih (.unary ht he)

theorem Aims.stmt {target : Target} {ts us : List Token} {s : Token} {e : Expr}
    (h : Aims target ts) (he : Derives (.chain 0) us e) (hs : s.kind = .semicolon) :
    StmtPhrase (ts ++ us ++ [s]) (target.stmt e) := by
  cases h with
  | assign hk => exact .assign hk he hs
  | declare hk ht hq => simpa [Target.stmt] using StmtPhrase.declareAssign hk ht hq he hs

theorem BodyOpen.addStmt {d : Design} {ts us : List Token} {s : Stmt} (h : BodyOpen d ts)
    (hs : StmtPhrase us s) : BodyOpen (d.addStmt s) (ts ++ us) := by
  cases h with
  | body hk hp hb hss => simpa [Design.addStmt] using BodyOpen.body hk hp hb (hss.snoc hs)

/-- Commas that follow their ports are commas that precede the next ones, one left over. -/
theorem EndedPort.shift {us : List Token} {ps : List Port} (h : Repeated EndedPort us ps)
    {t : Token} (ht : t.kind = .comma) :
    ∃ vs t', t :: us = vs ++ [t'] ∧ t'.kind = .comma ∧ Repeated CommaPort vs ps := by
  induction h generalizing t with
  | nil => exact ⟨[], t, rfl, ht, .nil⟩
  | cons hp _ ih =>
    cases hp with
    | @port xs c _ hx hc =>
      obtain ⟨vs, t', he, ht', hr⟩ := ih hc
      exact ⟨t :: (xs ++ vs), t', by simp [← he], ht', .cons (.port ht hx) hr⟩

theorem portList_of_ended {ts : List Token} {ps : List Port} (h : Repeated EndedPort ts ps) :
    PortList ts ps := by
  cases h with
  | nil => exact .empty
  | cons hp hr =>
    cases hp with
    | @port xs c _ hx hc =>
      obtain ⟨vs, t', he, ht', hr⟩ := EndedPort.shift hr hc
      simpa [← he] using PortList.trailing hx hr ht'

theorem portList_snoc {ts us : List Token} {ps : List Port} {p : Port}
    (h : Repeated EndedPort ts ps) (hp : PortPhrase us p) : PortList (ts ++ us) (ps ++ [p]) := by
  cases h with
  | nil => simpa using PortList.ports hp .nil
  | cons hq hr =>
    cases hq with
    | @port xs c _ hx hc =>
      obtain ⟨vs, t', he, ht', hr⟩ := EndedPort.shift hr hc
      have hall := PortList.ports hx (hr.snoc (.port ht' hp))
      rw [List.append_cons vs t' us, ← he] at hall
      simpa using hall

theorem closeLevel_covers {c : Context} {pending : Pending} {value : Expr} {us vs ws : List Token}
    {t : Token} (hc : Within c us) (hp : Waits pending vs) (hv : Derives .unary ws value)
    (ht : t.kind = c.closer) :
    (c.closeLevel (pending.join value)).Covers (us ++ vs ++ ws ++ [t]) := by
  have he := join_derives hp hv
  cases hc with
  | context hb ha hn =>
    cases hn with
    | nil =>
      change BodyOpen _ _
      simpa using hb.addStmt (ha.stmt he ht)
    | @cons level outer ns ls l hn ho hl =>
      cases ho with
      | level hlw hlu =>
        exact ⟨_, _, _, .context hb ha hn, hlw, hlu.apply (.plain (.paren hl he ht)), by simp⟩

theorem readOperand_covers {c : Context} {level : Level} {us vs : List Token} {t : Token}
    {q : Progress} (hc : Within c us) (hl : Opens level vs)
    (h : c.readOperand level t = .next q) : q.Covers (us ++ vs ++ [t]) := by
  cases hl with
  | level hw hu =>
    unfold Context.readOperand at h
    split at h
    · next hk =>
      cases h
      exact ⟨_, _, _, hc, hw, hu.apply (.plain (.name hk)), by simp⟩
    · next hk =>
      cases h
      exact ⟨_, _, _, hc, hw, hu.apply (.plain (.literal hk)), by simp⟩
    · next hk =>
      cases h
      cases hc with
      | context hb ha hn =>
        exact ⟨_, [], .context hb ha (.cons hn (.level hw hu) hk), .level .nil .nil, by simp⟩
    · split at h
      · next op hop =>
        cases h
        exact ⟨_, _, hc, .level hw (hu.cons (unaryToken_iff.mpr hop)), by simp⟩
      · cases h

theorem readOperator_covers {c : Context} {pending : Pending} {value : Expr}
    {us vs ws : List Token} {t : Token} {q : Progress} (hc : Within c us) (hp : Waits pending vs)
    (hv : Derives .unary ws value) (h : c.readOperator pending value t = .next q) :
    q.Covers (us ++ vs ++ ws ++ [t]) := by
  unfold Context.readOperator at h
  split at h
  · next op hop =>
    cases h
    obtain ⟨vs', ws', he, hw, hlt, hd⟩ := absorb_covers hp
      (fun x _ => operand_of_unary x.2.tier hv) (chain_of_operand (operand_of_unary op.tier hv))
    refine ⟨us, _, hc, .level (.cons hw hlt hd (binaryToken_iff.mpr ⟨hop, rfl⟩)) .nil, ?_⟩
    simp [← he]
  · split at h
    · next hk =>
      cases h
      exact closeLevel_covers hc hp hv hk
    · cases h

theorem close_covers {b : Binding} {type : BitType} {us vs : List Token} {t : Token} {q : Progress}
    (hb : Typed b us) (ht : TypePhrase vs type) (h : b.close type t.kind = .next q) :
    q.Covers (us ++ vs ++ [t]) := by
  cases hb with
  | binding hi hk =>
    cases hi with
    | port ho hd =>
      cases ho with
      | ports hh hps =>
        unfold Binding.close at h
        simp only at h
        split at h
        · next hkind =>
          cases h
          simpa [Design.addPort, Progress.Covers] using
            PortsOpen.ports hh (hps.snoc (.port (.port hd hk ht) hkind))
        · next hkind =>
          cases h
          simpa [Design.addPort, Progress.Covers] using
            PortsRead.ports hh (portList_snoc hps (.port hd hk ht)) hkind
        · cases h
    | @wire ts l ho hl =>
      unfold Binding.close at h
      simp only at h
      have hlk : [l, _, _].map Token.kind = [.letWord, .identifier, .colon] :=
        List.cons_eq_cons.mpr ⟨hl, hk⟩
      split at h
      · next hkind =>
        cases h
        simpa [Progress.Covers] using ho.addStmt (.declare hlk ht hkind)
      · next hkind =>
        cases h
        refine ⟨_, [], .context ho (.declare hlk ht hkind) .nil, .level .nil .nil, by simp⟩
      · cases h

/-- One token takes a stage that covers what was read to a stage that covers it too. -/
theorem covers_step {p q : Progress} {ts : List Token} {t : Token} (hp : p.Covers ts)
    (h : p.step t = .next q) : q.Covers (ts ++ [t]) := by
  cases p with
  | start =>
    obtain ⟨ht, rfl⟩ := Progress.only_eq_next_iff.mp h
    cases hp
    simp [Progress.Covers, ht]
  | afterTop =>
    obtain ⟨ht, rfl⟩ := Progress.only_eq_next_iff.mp h
    change (ts ++ [t]).map Token.kind = _
    rw [List.map_append, hp]
    simp [ht]
  | afterMod =>
    obtain ⟨ht, rfl⟩ := Progress.only_eq_next_iff.mp h
    obtain ⟨top, ts, rfl, htop, hp⟩ := List.map_eq_cons_iff.mp hp
    obtain ⟨mod, ts, rfl, hmod, hp⟩ := List.map_eq_cons_iff.mp hp
    obtain rfl := List.map_eq_nil_iff.mp hp
    exact ⟨top, mod, t, rfl, rfl, by simp [htop, hmod, ht]⟩
  | afterName d =>
    obtain ⟨ht, rfl⟩ := Progress.only_eq_next_iff.mp h
    obtain ⟨top, mod, name, rfl, rfl, hk⟩ := hp
    refine PortsOpen.ports ?_ .nil
    simp_all
  | portStart d =>
    simp only [Progress.step] at h
    split at h
    · next hk =>
      cases h
      exact .port hp (hk ▸ .input)
    · next hk =>
      cases h
      exact .port hp (hk ▸ .output)
    · next hk =>
      cases h
      cases hp with
      | ports hh hps => exact .ports hh (portList_of_ended hps) hk
    · cases h
  | afterPorts d =>
    obtain ⟨ht, rfl⟩ := Progress.only_eq_next_iff.mp h
    cases hp with
    | @ports top mod name left right ps ports hh hps hr =>
      have hb : [right, t].map Token.kind = [.closeParen, .openBrace] := by simp [hr, ht]
      simpa [Progress.Covers] using BodyOpen.body hh hps hb .nil
  | stmtStart d =>
    simp only [Progress.step] at h
    split at h
    · next hk =>
      cases h
      exact ⟨ts, t, hp, hk, rfl, rfl⟩
    · next hk =>
      cases h
      exact .wire hp hk
    · next hk =>
      cases h
      cases hp with
      | body hh hps hb hss => simpa [Progress.Covers] using SourceFile.file hh hps hb hss hk
    · cases h
  | bindingName d role =>
    obtain ⟨ht, rfl⟩ := Progress.only_eq_next_iff.mp h
    exact ⟨ts, t, hp, ht, rfl, rfl⟩
  | bindingColon b =>
    obtain ⟨ht, rfl⟩ := Progress.only_eq_next_iff.mp h
    obtain ⟨us, n, hi, hn, hname, rfl⟩ := hp
    have hk : [n, t].map Token.kind = [.identifier, .colon] := by simp [hn, ht]
    obtain ⟨d, role, name⟩ := b
    cases hname
    simpa [Progress.Covers] using Typed.binding hi hk
  | bindingType b =>
    obtain ⟨ht, rfl⟩ := Progress.only_eq_next_iff.mp h
    exact ⟨ts, t, hp, ht, rfl⟩
  | afterBit b =>
    obtain ⟨us, w, hb, hw, rfl⟩ := hp
    simp only [Progress.step] at h
    split at h
    · next hk =>
      cases h
      exact ⟨us, w, t, hb, by simp, by simp [hw, hk]⟩
    · exact close_covers hb (.bit hw) h
  | highBound b =>
    obtain ⟨ht, rfl⟩ := Progress.only_eq_next_iff.mp h
    obtain ⟨us, w, l, hb, rfl, hk⟩ := hp
    exact ⟨us, w, l, hb, by simp, by simp_all⟩
  | boundColon b high =>
    obtain ⟨ht, rfl⟩ := Progress.only_eq_next_iff.mp h
    obtain ⟨us, w, l, hb, rfl, hk⟩ := hp
    exact ⟨us, w, l, t, hb, by simp, by simp_all⟩
  | lowBound b high =>
    obtain ⟨ht, rfl⟩ := Progress.only_eq_next_iff.mp h
    obtain ⟨us, w, l, c, hb, rfl, hk⟩ := hp
    exact ⟨us, w, l, c, hb, by simp, by simp_all⟩
  | boundsEnd b high low =>
    obtain ⟨us, w, l, c, hb, rfl, hk⟩ := hp
    simp only [Progress.step] at h
    split at h
    · next ht =>
      split at h
      · next type htype =>
        cases h
        obtain ⟨n, m, hn, hm, hle, hlt, rfl⟩ := ofBounds_eq_ok_iff.mp htype
        exact ⟨us, [w, l, high, c, low, t], hb, .vector (by simp_all) hn hm hle hlt, by simp⟩
      · cases h
    · cases h
  | afterType b type =>
    obtain ⟨us, vs, hb, hty, rfl⟩ := hp
    exact close_covers hb hty h
  | afterTarget d name =>
    obtain ⟨ht, rfl⟩ := Progress.only_eq_next_iff.mp h
    obtain ⟨us, n, hb, hn, rfl, rfl⟩ := hp
    have hk : [n, t].map Token.kind = [.identifier, .equals] := by simp [hn, ht]
    exact ⟨_, [], .context hb (.assign hk) .nil, .level .nil .nil, by simp⟩
  | operand c level =>
    obtain ⟨us, vs, hc, hl, rfl⟩ := hp
    exact readOperand_covers hc hl h
  | operator c pending value =>
    obtain ⟨us, vs, ws, hc, hw, hv, rfl⟩ := hp
    exact readOperator_covers hc hw hv h
  | done d => cases h

/-- What a whole run from the start gets to covers all its tokens. -/
theorem covers_advance {p q : Progress} {ts us : List Token} (hp : p.Covers ts)
    (h : p.advance us = some q) : q.Covers (ts ++ us) := by
  induction us generalizing p ts with
  | nil =>
    cases h
    simpa using hp
  | cons t us ih =>
    simp only [Progress.advance] at h
    split at h
    · next r hr => simpa using ih (covers_step hp hr) h
    · cases h

end Bitwire
