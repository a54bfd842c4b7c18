import Bitwire.Compile
import Bitwire.Proofs.Rendering

/-! What compiling forgets: the types of ports and wires, and on request that an initialised wire
was declared. All else can be told from the Verilog, so that two sources have the same output
exactly when their designs agree after the same is forgotten of them. -/
namespace Bitwire

/-! ## Normal designs -/

def Port.norm (p : Port) : Port := { p with type := .bit }

def Stmt.norm (collapse : Bool) : Stmt → Stmt
  | assign name value => assign name value
  | declare name _ => declare name .bit
  | declareAssign name _ value =>
    if collapse then assign name value else declareAssign name .bit value
  | missing => missing

/-- A design with every type replaced by `bit` and, with `collapse`, every initialised declaration
by an assignment. -/
def Design.norm (collapse : Bool) (d : Design) : Design :=
  ⟨d.name, d.ports.map Port.norm, d.stmts.map (Stmt.norm collapse)⟩

namespace Verilog

def Port.raise (p : Verilog.Port) : Bitwire.Port := ⟨p.direction, p.name, .bit⟩

def Stmt.raise : Verilog.Stmt → Bitwire.Stmt
  | assign name value => .assign name value
  | wire name => .declare name .bit
  | wireAssign name value => .declareAssign name .bit value
  | missing => .missing

/-- The design that a module is the Verilog of, if all types are `bit`. -/
def Module.raise (m : Module) : Design := ⟨m.name, m.ports.map Port.raise, m.stmts.map Stmt.raise⟩

theorem Port.raise_injective : Function.Injective Port.raise := by
  rintro ⟨direction, name⟩ ⟨direction', name'⟩ h
  cases h
  rfl

theorem Stmt.raise_injective : Function.Injective Stmt.raise := by
  intro s s' h
  cases s <;> cases s' <;> cases h <;> rfl

theorem Module.raise_injective : Function.Injective Module.raise := by
  rintro ⟨name, ports, stmts⟩ ⟨name', ports', stmts'⟩ h
  simp only [Module.raise, Design.mk.injEq, List.map_inj_right Port.raise_injective,
    List.map_inj_right Stmt.raise_injective] at h
  obtain ⟨rfl, rfl, rfl⟩ := h
  rfl

end Verilog

/-! ## Lowering a parsed design -/

theorem BitType.faults_of_ne_missing {type : BitType} (h : type ≠ .missing) : type.faults = [] := by
  cases type with
  | bit | vector => rfl
  | missing => exact absurd rfl h

theorem Stmt.WellFormed.faults {s : Stmt} (h : s.WellFormed) (collapse : Bool) :
    s.faults collapse = [] := by
  cases s with
  | assign name value => exact h.2.1.faults
  | declare name type => exact BitType.faults_of_ne_missing h.2
  | declareAssign name type value =>
    obtain ⟨-, ht, hv, -⟩ := h
    cases collapse <;> simp [Stmt.faults, BitType.faults_of_ne_missing ht, hv.faults]
  | missing => exact h.elim

theorem Design.WellFormed.faults {d : Design} (h : d.WellFormed) (collapse : Bool) :
    d.faults collapse = [] := by
  rw [Design.faults, List.append_eq_nil_iff, List.flatMap_eq_nil_iff, List.flatMap_eq_nil_iff]
  exact ⟨fun p hp => BitType.faults_of_ne_missing (h.ports p hp).2,
    fun s hs => (h.stmts s hs).faults collapse⟩

theorem Stmt.WellFormed.lowered {s : Stmt} (h : s.WellFormed) (collapse : Bool) :
    (s.lowered collapse).WellFormed := by
  cases s with
  | assign name value => exact h
  | declare name type => exact h.1
  | declareAssign name type value => cases collapse <;> exact ⟨h.1, h.2.2⟩
  | missing => exact h.elim

theorem Design.WellFormed.lowered {d : Design} (h : d.WellFormed) (collapse : Bool) :
    (d.lowered collapse).WellFormed := by
  refine ⟨h.name, ?_, ?_⟩
  · rw [Design.lowered, List.forall_mem_map]
    exact fun p hp => (h.ports p hp).1
  · rw [Design.lowered, List.forall_mem_map]
    exact fun s hs => (h.stmts s hs).lowered collapse

/-- What lowering keeps of a design is what its normal form keeps. -/
theorem Design.raise_lowered (collapse : Bool) (d : Design) :
    (d.lowered collapse).raise = d.norm collapse := by
  have hstmt (s : Stmt) : (s.lowered collapse).raise = s.norm collapse := by
    cases s with
    | declareAssign name type value => cases collapse <;> rfl
    | assign | declare | missing => rfl
  simp only [Design.lowered, Verilog.Module.raise, Design.norm, List.map_map,
    List.map_congr_left fun s _ => hstmt s, Function.comp_def]
  rfl

/-! ## Compiling -/

theorem compile_of_parse {src : Bytes} {d : Design} (h : Design.parse src = .ok d)
    (collapse : Bool) : ∃ m : Verilog.Module, compile src collapse = .ok m.text ∧ m.WellFormed ∧
      m.raise = d.norm collapse := by
  have hd := wellFormed_of_parse h
  have hfaults := hd.faults collapse
  refine ⟨d.lowered collapse, ?_, hd.lowered collapse, d.raise_lowered collapse⟩
  simp only [compile, h, d.lower_eq, hfaults, unlessFaulty, Except.mapError,
    d.render_lowered hfaults, bind, Except.bind]

/-- Sources that are parsed are compiled, and to the same text exactly when their designs agree up
to what compiling forgets. -/
theorem compile_eq_iff_norm_eq (src₁ src₂ : Bytes) (collapse₁ collapse₂ : Bool) (d₁ d₂ : Design)
    (h₁ : Design.parse src₁ = .ok d₁) (h₂ : Design.parse src₂ = .ok d₂) :
    ∃ text₁ text₂, compile src₁ collapse₁ = .ok text₁ ∧ compile src₂ collapse₂ = .ok text₂ ∧
      (text₁ = text₂ ↔ d₁.norm collapse₁ = d₂.norm collapse₂) := by
  obtain ⟨m₁, hc₁, hm₁, hr₁⟩ := compile_of_parse h₁ collapse₁
  obtain ⟨m₂, hc₂, hm₂, hr₂⟩ := compile_of_parse h₂ collapse₂
  refine ⟨m₁.text, m₂.text, hc₁, hc₂, ?_⟩
  rw [← hr₁, ← hr₂]
  constructor
  · intro ht
    rw [Verilog.Module.eq_of_text_eq hm₁ hm₂ ht]
  · intro hr
    rw [Verilog.Module.raise_injective hr]

/-- A declared vector compiles like an assignment when it is collapsed, and only then. -/
theorem compile_collapsed_vector :
    let src₁ := utf8 "top mod m ( ) \x7b let x : bit[3:0] = a; \x7d"
    let src₂ := utf8 "top mod m ( ) \x7b x = a; \x7d"
    let d₁ : Design := ⟨utf8 "m", [], [.declareAssign (utf8 "x") (.vector 3 0) (.name (utf8 "a"))]⟩
    let d₂ : Design := ⟨utf8 "m", [], [.assign (utf8 "x") (.name (utf8 "a"))]⟩
    Design.parse src₁ = .ok d₁ ∧ Design.parse src₂ = .ok d₂ ∧
      compile src₁ true = compile src₂ false ∧ compile src₁ false ≠ compile src₂ false := by
  intro src₁ src₂ d₁ d₂
  have h₁ : Design.parse src₁ = .ok d₁ := rfl
  have h₂ : Design.parse src₂ = .ok d₂ := rfl
  obtain ⟨_, _, hc₁, hc₂, h⟩ := compile_eq_iff_norm_eq src₁ src₂ true false d₁ d₂ h₁ h₂
  obtain ⟨_, _, hc₁', hc₂', h'⟩ := compile_eq_iff_norm_eq src₁ src₂ false false d₁ d₂ h₁ h₂
  refine ⟨h₁, h₂, ?_, ?_⟩
  · rw [hc₁, hc₂, h.mpr rfl]
  · rw [hc₁', hc₂']
    intro he
    exact absurd (h'.mp (Except.ok.inj he)) (by decide)

end Bitwire
