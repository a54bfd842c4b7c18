import Bitwire.Proofs.Reading
import Bitwire.Proofs.Stopping

/-! What becomes of a port or wire while a design is read. Every step keeps the ports and statements that
were read before it, and the target of a value until the value ends. So a binding that has its type is
in its place, with that type, in whatever design the reading ends with. -/
namespace Bitwire

open Grammar

/-! ## Where a type may start -/

theorem advance_endedPorts {d : Design} {ts : List Token} {ports : List Port}
    (h : Repeated EndedPort ts ports) :
    (Progress.portStart d).advance ts = some (.portStart { d with ports := d.ports ++ ports }) := by
  induction h generalizing d with
  | nil => simp
  | cons hp _ ih =>
    cases hp with
    | port hport hcomma =>
      obtain ⟨q, ha, hq⟩ := advance_port d hport
      rw [Progress.advance_append (Progress.advance_snoc ha ((hq _).1 hcomma)), ih]
      simp [Design.addPort]

theorem Introduces.advance {d : Design} {role : Role} {ts : List Token} (h : Introduces d role ts) :
    Progress.start.advance ts = some (.bindingName d role) := by
  cases h with
  | @port direction _ t hopen hd =>
    have hstep : (Progress.portStart d).step t = .next (.bindingName d (.port direction)) := by
      generalize hkind : t.kind = kind at hd
      cases hd <;> simp [Progress.step, hkind]
    cases hopen with
    | ports hk hps =>
      refine Progress.advance_snoc ?_ hstep
      rw [advance_header hk, advance_endedPorts hps]
      rfl
  | wire hopen ht =>
    refine Progress.advance_snoc hopen.advance ?_
    simp only [Progress.step, ht]

theorem Typed.advance {b : Binding} {ts : List Token} (h : Typed b ts) :
    Progress.start.advance ts = some (.bindingType b) := by
  cases h with
  | @binding d role n c ts hi hk =>
    simp only [List.map_cons, List.map_nil, List.cons.injEq, and_true] at hk
    rw [Progress.advance_append hi.advance, Progress.advance_only (p := .bindingName d role) rfl hk.1,
      Progress.advance_only (p := .bindingColon _) rfl hk.2]
    rfl

/-! ## What was read stays -/

/-- The ports and statements of one design are the first ones of another. -/
structure Design.Extends (d d' : Design) : Prop where
  ports : d.ports <+: d'.ports
  stmts : d.stmts <+: d'.stmts

namespace Design.Extends

theorem refl (d : Design) : d.Extends d := ⟨List.prefix_refl _, List.prefix_refl _⟩

theorem trans {d d' d'' : Design} (h : d.Extends d') (h' : d'.Extends d'') : d.Extends d'' :=
  ⟨h.ports.trans h'.ports, h.stmts.trans h'.stmts⟩

theorem addPort (d : Design) (p : Port) : d.Extends (d.addPort p) :=
  ⟨List.prefix_append _ _, List.prefix_refl _⟩

theorem addStmt (d : Design) (s : Stmt) : d.Extends (d.addStmt s) :=
  ⟨List.prefix_refl _, List.prefix_append _ _⟩

end Design.Extends

namespace Progress

/-- The part of the design that a stage has read. -/
def design : Progress → Design
  | start | afterTop | afterMod => ⟨[], [], []⟩
  | afterName d | portStart d | afterPorts d | stmtStart d | bindingName d _ | afterTarget d _
  | done d => d
  | bindingColon b | bindingType b | afterBit b | highBound b | boundColon b _ | lowBound b _
  | boundsEnd b _ _ | afterType b _ => b.design
  | operand c _ | operator c _ _ => c.design

theorem close_extends {b : Binding} {type : BitType} {kind : Kind} {q : Progress}
    (h : b.close type kind = .next q) : b.design.Extends q.design := by
  unfold Binding.close at h
  split at h
  · simp only at h
    split at h
    · cases h
      exact .addPort _ _
    · cases h
      exact .addPort _ _
    · cases h
  · split at h
    · cases h
      exact .addStmt _ _
    · cases h
      exact .refl _
    · cases h

theorem closeLevel_extends (c : Context) (value : Expr) :
    c.design.Extends (c.closeLevel value).design := by
  unfold Context.closeLevel
  split
  · exact .addStmt _ _
  · exact .refl _

theorem step_extends {p q : Progress} {t : Token} (h : p.step t = .next q) :
    p.design.Extends q.design := by
  cases p with
  | start | afterTop | afterName | afterPorts | bindingName | bindingColon | bindingType | highBound
  | boundColon | lowBound | afterTarget =>
    obtain ⟨-, rfl⟩ := only_eq_next_iff.mp h
    exact .refl _
  | afterMod =>
    obtain ⟨-, rfl⟩ := only_eq_next_iff.mp h
    exact ⟨List.nil_prefix, List.nil_prefix⟩
  | portStart d | stmtStart d =>
    simp only [step] at h
    split at h <;> cases h <;> exact .refl _
  | afterBit b =>
    simp only [step] at h
    split at h
    · cases h
      exact .refl _
    · exact close_extends h
  | boundsEnd b high low =>
    simp only [step] at h
    split at h
    · split at h <;> cases h
      exact .refl _
    · cases h
  | afterType b type => exact close_extends h
  | operand c level =>
    simp only [step, Context.readOperand] at h
    repeat' split at h
    all_goals cases h
    all_goals exact .refl _
  | operator c pending value =>
    simp only [step, Context.readOperator] at h
    split at h
    · cases h
      exact .refl _
    · split at h
      · cases h
        exact closeLevel_extends c _
      · cases h
  | done => cases h

theorem advance_extends {p q : Progress} {ts : List Token} (h : p.advance ts = some q) :
    p.design.Extends q.design := by
  induction ts generalizing p with
  | nil =>
    cases h
    exact .refl _
  | cons t ts ih =>
    obtain ⟨r, hs, hr⟩ := exists_step_of_advance h
    exact (step_extends hs).trans (ih hr)

/-- A stage at which the value of a target is being read, or has been. -/
def Pursues (d : Design) (target : Target) (p : Progress) : Prop :=
  (∃ c : Context, c.design = d ∧ c.target = target ∧
    ((∃ level, p = operand c level) ∨ ∃ pending value, p = operator c pending value)) ∨
  ∃ value, (d.addStmt (target.stmt value)).Extends p.design

theorem pursues_step {d : Design} {target : Target} {p q : Progress} {t : Token}
    (hp : p.Pursues d target) (h : p.step t = .next q) : q.Pursues d target := by
  rcases hp with ⟨c, rfl, rfl, ⟨level, rfl⟩ | ⟨pending, value, rfl⟩⟩ | ⟨value, hv⟩
  · simp only [step, Context.readOperand] at h
    split at h
    · cases h
      exact Or.inl ⟨c, rfl, rfl, Or.inr ⟨_, _, rfl⟩⟩
    · cases h
      exact Or.inl ⟨c, rfl, rfl, Or.inr ⟨_, _, rfl⟩⟩
    · cases h
      exact Or.inl ⟨{ c with outer := level :: c.outer }, rfl, rfl, Or.inl ⟨_, rfl⟩⟩
    · split at h
      · cases h
        exact Or.inl ⟨c, rfl, rfl, Or.inl ⟨_, rfl⟩⟩
      · cases h
  · simp only [step, Context.readOperator] at h
    split at h
    · cases h
      exact Or.inl ⟨c, rfl, rfl, Or.inl ⟨_, rfl⟩⟩
    · split at h
      · cases h
        unfold Context.closeLevel
        split
        · exact Or.inr ⟨_, .refl _⟩
        · next level outer _ => exact Or.inl ⟨{ c with outer }, rfl, rfl, Or.inr ⟨_, _, rfl⟩⟩
      · cases h
  · exact Or.inr ⟨value, hv.trans (step_extends h)⟩

theorem pursues_advance {d : Design} {target : Target} {p q : Progress} {ts : List Token}
    (hp : p.Pursues d target) (h : p.advance ts = some q) : q.Pursues d target := by
  induction ts generalizing p with
  | nil =>
    cases h
    exact hp
  | cons t ts ih =>
    obtain ⟨r, hs, hr⟩ := exists_step_of_advance h
    exact ih (pursues_step hp hs) hr

end Progress

/-! ## What becomes of a binding -/

def Stmt.declared? : Stmt → Option (Bytes × BitType)
  | declare name type | declareAssign name type _ => some (name, type)
  | assign _ _ | missing => none

/-- The design goes on from where the binding stands with the binding, of a type. -/
def Binding.Declared (b : Binding) (type : BitType) (d : Design) : Prop :=
  match b.role with
  | .port direction => b.design.ports ++ [⟨direction, b.name, type⟩] <+: d.ports
  | .wire => ∃ s : Stmt, s.declared? = some (b.name, type) ∧ b.design.stmts ++ [s] <+: d.stmts

theorem eq_of_snoc_isPrefix {α : Type} {xs ys : List α} {x y : α} (hx : xs ++ [x] <+: ys)
    (hy : xs ++ [y] <+: ys) : x = y := by
  have h := List.prefix_of_prefix_length_le hx hy (by simp)
  rw [List.prefix_append_right_inj, List.cons_prefix_cons] at h
  exact h.1

theorem Binding.Declared.unique {b : Binding} {type type' : BitType} {d : Design}
    (h : b.Declared type d) (h' : b.Declared type' d) : type = type' := by
  unfold Binding.Declared at h h'
  split at h
  · next hrole =>
    rw [hrole] at h'
    exact congrArg Port.type (eq_of_snoc_isPrefix h h')
  · next hrole =>
    rw [hrole] at h'
    obtain ⟨s, hs, hstmts⟩ := h
    obtain ⟨s', hs', hstmts'⟩ := h'
    obtain rfl := eq_of_snoc_isPrefix hstmts hstmts'
    cases hs.symm.trans hs'
    rfl

/-- After its type a binding is closed, and then it is in every design that the reading ends with. -/
theorem declared_of_advance {b : Binding} {type : BitType} {ts : List Token} {d : Design}
    (h : (Progress.afterType b type).advance ts = some (.done d)) : b.Declared type d := by
  cases ts with
  | nil => cases h
  | cons t ts =>
    obtain ⟨q, hs, hq⟩ := Progress.exists_step_of_advance h
    have hext := Progress.advance_extends hq
    cases hrole : b.role with
    | port direction =>
      simp only [Progress.step, Binding.close, hrole] at hs
      simp only [Binding.Declared, hrole]
      split at hs <;> cases hs <;> exact hext.ports
    | wire =>
      simp only [Progress.step, Binding.close, hrole] at hs
      simp only [Binding.Declared, hrole]
      split at hs
      · cases hs
        exact ⟨.declare b.name type, rfl, hext.stmts⟩
      · cases hs
        have hp := Progress.pursues_advance (Or.inl ⟨_, rfl, rfl, Or.inl ⟨_, rfl⟩⟩) hq
        rcases hp with ⟨_, _, _, ⟨_, h⟩ | ⟨_, _, h⟩⟩ | ⟨value, hv⟩
        · cases h
        · cases h
        · exact ⟨.declareAssign b.name type value, rfl, hv.stmts⟩
      · cases hs

theorem Progress.exists_advance_of_run_ok {p : Progress} {last : Int} {pulled : Nat}
    {xs : List Item} {d : Design} (h : (p.run last pulled xs).result = .ok d) :
    ∃ ts rest, xs = ts.map .token ++ rest ∧ p.advance ts = some (.done d) := by
  obtain ⟨ts, rest, q, result, rfl, ha, hh⟩ := p.exists_halts last xs
  rw [run_append ha, run_of_halts hh] at h
  refine ⟨ts, rest, rfl, ?_⟩
  cases hh with
  | finished | ended => rw [ha, finish_eq_ok_iff.mp h]
  | failed | unexpected | invalid | extra => cases h

/-- Tokens that give a binding its type: the reading can go on to an end, and wherever it ends the
binding is there with the type. -/
def Yields (ts : List Token) (b : Binding) (type : BitType) : Prop :=
  (∃ rest d, (Design.read (ts.map .token ++ rest)).result = .ok d) ∧
    ∀ rest d, (Design.read (ts.map .token ++ rest)).result = .ok d → b.Declared type d

theorem exists_end_of_afterType (b : Binding) (type : BitType) :
    ∃ ts d, (Progress.afterType b type).advance ts = some (.done d) := by
  let mark (kind : Kind) : Token := ⟨0, 0, kind, []⟩
  obtain ⟨design, role, name⟩ := b
  cases role with
  | port direction => exact ⟨[mark .closeParen, mark .openBrace, mark .closeBrace], _, rfl⟩
  | wire => exact ⟨[mark .semicolon, mark .closeBrace], _, rfl⟩

theorem yields_of_advance {ts : List Token} {b : Binding} {type : BitType}
    (h : Progress.start.advance ts = some (.afterType b type)) : Yields ts b type := by
  constructor
  · obtain ⟨us, d, hus⟩ := exists_end_of_afterType b type
    refine ⟨us.map .token, d, ?_⟩
    rw [← List.map_append, Design.read, Progress.run_tokens_eq_ok_iff, Progress.advance_append h, hus]
  · intro rest d hok
    rw [Design.read, Progress.run_append h] at hok
    obtain ⟨us, -, -, hus⟩ := Progress.exists_advance_of_run_ok hok
    exact declared_of_advance hus

end Bitwire
