import Bitwire.Verilog.Lowering

/-! What is wrong with a tree, in the order in which lowering meets it. Lowering is refused for the
first fault and for nothing else, so that it comes to listing the faults and keeping the rest of the
tree. A tree without faults can be written too. -/
namespace Bitwire

/-! ## The faults of a tree -/

def BinaryOp.faults : BinaryOp → List Fault
  | unknown code => [.unknownBinary code]
  | shiftLeft | shiftRight | bitAnd | bitXor | bitOr => []

def UnaryOp.faults : UnaryOp → List Fault
  | unknown code => [.unknownUnary code]
  | negate | reduceAnd | reduceXor | reduceOr => []

def Expr.faults : Expr → List Fault
  | binary left op right => left.faults ++ op.faults ++ right.faults
  | unary op operand => op.faults ++ operand.faults
  | paren inner => inner.faults
  | name _ | literal _ => []
  | missing => [.missingExpression]

def BitType.faults : BitType → List Fault
  | missing => [.missingType]
  | bit | vector _ _ => []

/-- A type that is collapsed away is not looked at. -/
def Stmt.faults (collapse : Bool) : Stmt → List Fault
  | assign _ value => value.faults
  | declare _ type => type.faults
  | declareAssign _ type value =>
    if collapse then value.faults else type.faults ++ value.faults
  | missing => [.missingStatement]

/-- All that is wrong with a design, in the order of its traversal. -/
def Design.faults (collapse : Bool) (d : Design) : List Fault :=
  d.ports.flatMap (·.type.faults) ++ d.stmts.flatMap (Stmt.faults collapse)

/-! ## What lowering keeps -/

def Port.lowered (p : Port) : Verilog.Port := ⟨p.direction, p.name⟩

def Stmt.lowered (collapse : Bool) : Stmt → Verilog.Stmt
  | assign name value => .assign name value
  | declare name _ => .wire name
  | declareAssign name _ value => if collapse then .assign name value else .wireAssign name value
  | missing => .missing

def Design.lowered (collapse : Bool) (d : Design) : Verilog.Module :=
  ⟨d.name, d.ports.map Port.lowered, d.stmts.map (Stmt.lowered collapse)⟩

/-! ## Lowering as a list of faults -/

/-- The value if there are no faults, and else the first of them. -/
def unlessFaulty {α : Type} (faults : List Fault) (value : α) : Except Fault α :=
  match faults with
  | [] => .ok value
  | fault :: _ => .error fault

section

variable {α β : Type}

theorem unlessFaulty_eq_ok_iff {faults : List Fault} {value a : α} :
    unlessFaulty faults value = .ok a ↔ faults = [] ∧ value = a := by
  cases faults <;> simp [unlessFaulty]

theorem unlessFaulty_eq_error_iff {faults : List Fault} {value : α} {fault : Fault} :
    unlessFaulty faults value = .error fault ↔ faults.head? = some fault := by
  cases faults <;> simp [unlessFaulty]

/-- One check after another is a check for the faults of both. -/
theorem unlessFaulty_bind (first rest : List Fault) (a : α) (f : α → β) :
    (unlessFaulty first a >>= fun x => unlessFaulty rest (f x)) =
      unlessFaulty (first ++ rest) (f a) := by
  cases first <;> rfl

theorem unlessFaulty_map (faults : List Fault) (a : α) (f : α → β) :
    (unlessFaulty faults a >>= fun x => pure (f x)) = unlessFaulty faults (f a) := by
  cases faults <;> rfl

theorem mapM_unlessFaulty (faults : α → List Fault) (value : α → β) (xs : List α) :
    xs.mapM (fun x => unlessFaulty (faults x) (value x)) =
      unlessFaulty (xs.flatMap faults) (xs.map value) := by
  induction xs with
  | nil => rfl
  | cons x xs ih =>
    rw [List.mapM_cons, ih]
    simp only [unlessFaulty_map, unlessFaulty_bind]
    rfl

end

theorem BinaryOp.lower_eq (op : BinaryOp) : op.lower = unlessFaulty op.faults op := by
  cases op <;> rfl

theorem UnaryOp.lower_eq (op : UnaryOp) : op.lower = unlessFaulty op.faults op := by
  cases op <;> rfl

theorem Expr.lower_eq (e : Expr) : e.lower = unlessFaulty e.faults e := by
  induction e with
  | binary left op right ihl ihr =>
    simp only [lower, ihl, BinaryOp.lower_eq, ihr, unlessFaulty_map, unlessFaulty_bind, faults,
      List.append_assoc]
  | unary op operand ih =>
    simp only [lower, UnaryOp.lower_eq, ih, unlessFaulty_map, unlessFaulty_bind, faults]
  | paren inner ih => simp only [lower, ih, unlessFaulty_map, faults]
  | name | literal | missing => rfl

theorem BitType.lower_eq (type : BitType) : type.lower = unlessFaulty type.faults () := by
  cases type <;> rfl

theorem Port.lower_eq (p : Port) : p.lower = unlessFaulty p.type.faults p.lowered := by
  simp only [lower, BitType.lower_eq, unlessFaulty_map, lowered]

theorem Stmt.lower_eq (collapse : Bool) (s : Stmt) :
    s.lower collapse = unlessFaulty (s.faults collapse) (s.lowered collapse) := by
  cases s with
  | assign name value => simp only [lower, Expr.lower_eq, unlessFaulty_map, faults, lowered]
  | declare name type => simp only [lower, BitType.lower_eq, unlessFaulty_map, faults, lowered]
  | declareAssign name type value =>
    cases collapse <;>
      simp only [lower, BitType.lower_eq, Expr.lower_eq, unlessFaulty_map, unlessFaulty_bind,
        faults, lowered, if_true, if_false, Bool.false_eq_true]
  | missing => rfl

/-- Lowering lists the faults in the order of the traversal, and keeps the rest if there is none. -/
theorem Design.lower_eq (collapse : Bool) (d : Design) :
    d.lower collapse = unlessFaulty (d.faults collapse) (d.lowered collapse) := by
  have hports : d.ports.mapM Port.lower =
      unlessFaulty (d.ports.flatMap (·.type.faults)) (d.ports.map Port.lowered) := by
    rw [← mapM_unlessFaulty]
    exact congrArg (List.mapM · d.ports) (funext Port.lower_eq)
  have hstmts : d.stmts.mapM (Stmt.lower collapse) =
      unlessFaulty (d.stmts.flatMap (Stmt.faults collapse))
        (d.stmts.map (Stmt.lowered collapse)) := by
    rw [← mapM_unlessFaulty]
    exact congrArg (List.mapM · d.stmts) (funext (Stmt.lower_eq collapse))
  simp only [lower, hports, hstmts, unlessFaulty_map, unlessFaulty_bind, faults, lowered]

-- three faults, the first of which is collapsed away
example :
    let d : Design := ⟨[], [], [.declareAssign [] .missing (.binary (.name []) (.unknown 7) .missing)]⟩
    d.lower false = .error .missingType ∧ d.lower true = .error (.unknownBinary 7) :=
  ⟨rfl, rfl⟩

/-! ## Writing what was lowered -/

theorem UnaryOp.fault?_of_faults {op : UnaryOp} (h : op.faults = []) : op.fault? = none := by
  cases op with
  | unknown code => cases h
  | negate | reduceAnd | reduceXor | reduceOr => rfl

/-- What lowering lets through can be written. -/
theorem Expr.fault?_of_faults {e : Expr} (h : e.faults = []) : e.fault? = none := by
  induction e with
  | binary left op right ihl ihr =>
    simp only [faults, List.append_eq_nil_iff] at h
    obtain ⟨⟨hl, -⟩, hr⟩ := h
    rw [fault?, ihl hl, ihr hr, Option.or_none]
  | unary op operand ih =>
    obtain ⟨hop, ho⟩ := List.append_eq_nil_iff.mp h
    rw [fault?, UnaryOp.fault?_of_faults hop, ih ho, Option.or_none]
  | paren inner ih => exact ih h
  | name | literal => rfl
  | missing => cases h

theorem Stmt.fault?_lowered {collapse : Bool} {s : Stmt} (h : s.faults collapse = []) :
    (s.lowered collapse).fault? = none := by
  cases s with
  | assign name value => exact Expr.fault?_of_faults h
  | declare name type => rfl
  | declareAssign name type value =>
    cases collapse with
    | true => exact Expr.fault?_of_faults h
    | false => exact Expr.fault?_of_faults (List.append_eq_nil_iff.mp h).2
  | missing => cases h

/-- A design without faults can be written once it is lowered. -/
theorem Design.render_lowered {collapse : Bool} {d : Design} (h : d.faults collapse = []) :
    (d.lowered collapse).render = .ok (d.lowered collapse).text := by
  have hstmts := List.flatMap_eq_nil_iff.mp (List.append_eq_nil_iff.mp h).2
  have hnone : (d.lowered collapse).stmts.findSome? Verilog.Stmt.fault? = none := by
    rw [List.findSome?_eq_none_iff, lowered, List.forall_mem_map]
    exact fun s hs => Stmt.fault?_lowered (hstmts s hs)
  rw [Verilog.Module.render, hnone]

end Bitwire
