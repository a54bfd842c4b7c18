import Bitwire.Proofs.Messages
import Bitwire.Proofs.Outlining
import Mathlib.Data.List.DropRight
import Mathlib.Data.List.GetD

/-! What a comparison of outlines tells. Lists of entries are compared as if they went on with empty
ones, so that empty entries at their ends are not seen. Compiled texts have no empty entries, and an
outline holds all of a text but its fixed layout: there the comparison sees every difference. -/
namespace Bitwire

open Text

namespace Verilog

namespace Outline

/-! ## Where two lists of entries differ -/

/-- The places at which two lists of entries differ, an entry that one of them lacks being empty. -/
def places (got want : List Bytes) : List Nat :=
  (List.range (max got.length want.length)).filter fun i => got.getD i [] ≠ want.getD i []

theorem mem_places_iff {got want : List Bytes} {i : Nat} : i ∈ places got want ↔
    i < max got.length want.length ∧ got.getD i [] ≠ want.getD i [] := by
  simp [places]

theorem getD_rdropWhile (entries : List Bytes) (i : Nat) :
    (entries.rdropWhile List.isEmpty).getD i [] = entries.getD i [] := by
  induction entries using List.reverseRecOn with
  | nil => rfl
  | append_singleton entries entry ih =>
    cases entry with
    | nil =>
      rw [List.rdropWhile_concat_pos _ _ _ rfl, ih]
      rcases Nat.lt_or_ge i entries.length with hi | hi
      · rw [List.getD_append _ _ _ _ hi]
      · rw [List.getD_append_right _ _ _ _ hi, List.getD_eq_default _ _ hi]
        cases i - entries.length <;> rfl
    | cons b entry => rw [List.rdropWhile_concat_neg _ _ _ (by simp)]

/-- A list that does not end in an empty entry is as long as its entries tell. -/
theorem length_le_of_getD_eq {got want : List Bytes} (h : ∀ i, got.getD i [] = want.getD i [])
    (hlast : ∀ hne : got ≠ [], ¬ (got.getLast hne).isEmpty) : got.length ≤ want.length := by
  -- else the last entry of the longer list is compared with an empty one
  by_contra hlt
  have hne : got ≠ [] := by
    rintro rfl
    exact hlt (Nat.zero_le _)
  have hpos := List.length_pos_iff.mpr hne
  have hend := h (got.length - 1)
  rw [List.getD_eq_default want [] (by omega), List.getD_eq_getElem got [] (by omega),
    ← List.getLast_eq_getElem hne] at hend
  exact hlast hne (List.isEmpty_iff.mpr hend)

theorem eq_of_getD_eq {got want : List Bytes} (h : ∀ i, got.getD i [] = want.getD i [])
    (hgot : ∀ hne : got ≠ [], ¬ (got.getLast hne).isEmpty)
    (hwant : ∀ hne : want ≠ [], ¬ (want.getLast hne).isEmpty) : got = want := by
  refine List.ext_getElem ?_ fun i hi hi' => ?_
  · exact Nat.le_antisymm (length_le_of_getD_eq h hgot)
      (length_le_of_getD_eq (fun i => (h i).symm) hwant)
  · rw [← List.getD_eq_getElem got [] hi, ← List.getD_eq_getElem want [] hi', h i]

theorem places_eq_nil_iff {got want : List Bytes} : places got want = [] ↔
    got.rdropWhile List.isEmpty = want.rdropWhile List.isEmpty := by
  constructor
  · intro h
    have hall (i : Nat) : got.getD i [] = want.getD i [] := by
      rcases Nat.lt_or_ge i (max got.length want.length) with hi | hi
      · by_contra hne
        exact List.ne_nil_of_mem (mem_places_iff.mpr ⟨hi, hne⟩) h
      · rw [List.getD_eq_default _ _ (by omega), List.getD_eq_default _ _ (by omega)]
    refine eq_of_getD_eq (fun i => ?_) (fun hne => List.rdropWhile_last_not _ _ hne)
      fun hne => List.rdropWhile_last_not _ _ hne
    rw [getD_rdropWhile, getD_rdropWhile, hall]
  · intro h
    refine List.eq_nil_iff_forall_not_mem.mpr fun i hi => (mem_places_iff.mp hi).2 ?_
    rw [← getD_rdropWhile got, ← getD_rdropWhile want, h]

/-! ## The report -/

/-- A line of a report, without its newline. -/
def reportLine (label got want : Bytes) : Bytes :=
  utf8 "  " ++ label ++ utf8 ": got " ++ quote got ++ utf8 " want " ++ quote want

def entryLine (what : Bytes) (got want : List Bytes) (i : Nat) : Bytes :=
  reportLine (what ++ utf8 "[" ++ decimal i ++ utf8 "]") (got.getD i []) (want.getD i [])

def nameLines (got want : Bytes) : List Bytes :=
  if got = want then [] else [reportLine (utf8 "module name") got want]

def entryLines (what : Bytes) (got want : List Bytes) : List Bytes :=
  (places got want).map (entryLine what got want)

/-- One line for each place at which two lists of entries differ, the first place first. -/
def TellsApart (what : Bytes) (got want ls : List Bytes) : Prop :=
  ∃ is : List Nat, is.Pairwise (· < ·) ∧
    (∀ i, i ∈ is ↔ i < max got.length want.length ∧ got.getD i [] ≠ want.getD i []) ∧
    ls = is.map (entryLine what got want)

theorem entryLines_tellsApart (what : Bytes) (got want : List Bytes) :
    TellsApart what got want (entryLines what got want) :=
  ⟨places got want, List.pairwise_lt_range.filter _, fun _ => mem_places_iff, rfl⟩

/-- The lines below the heading. -/
def reportLines (got want : Outline) : List Bytes :=
  nameLines got.name want.name ++ entryLines (utf8 "port") got.ports want.ports ++
    entryLines (utf8 "stmt") got.stmts want.stmts

theorem plain_reportLine {label : Bytes} (h : Plain label) (got want : Bytes) :
    Plain (reportLine label got want) :=
  ((((Plain.append (by decide) h).append (by decide)).append (plain_quote got)).append
    (by decide)).append (plain_quote want)

theorem plain_entryLines {what : Bytes} (h : Plain what) (got want : List Bytes) :
    ∀ line ∈ entryLines what got want, Plain line := by
  refine List.forall_mem_map.mpr fun i _ => plain_reportLine ?_ _ _
  exact ((h.append (by decide)).append (plain_decimal i)).append (by decide)

theorem plain_reportLines (got want : Outline) : ∀ line ∈ reportLines got want, Plain line := by
  refine List.forall_mem_append.mpr ⟨List.forall_mem_append.mpr ⟨?_, ?_⟩, ?_⟩
  · unfold nameLines
    split
    · exact List.forall_mem_nil _
    · exact List.forall_mem_singleton.mpr (plain_reportLine (by decide) _ _)
  · exact plain_entryLines (by decide) _ _
  · exact plain_entryLines (by decide) _ _

theorem mismatchLine_eq (label got want : Bytes) :
    mismatchLine label got want = reportLine label got want ++ [newline] := rfl

theorem flatMap_filter_eq {α : Type} (p : α → Bool) (f : α → Bytes) (xs : List α) :
    (xs.filter p).flatMap f = xs.flatMap fun x => if p x then f x else [] := by
  induction xs with
  | nil => rfl
  | cons x xs ih => cases h : p x <;> simp [h, ih]

theorem mismatches_eq (what : Bytes) (got want : List Bytes) :
    mismatches what got want = (entryLines what got want).flatMap (· ++ [newline]) := by
  rw [entryLines, List.flatMap_map, places, flatMap_filter_eq, mismatches]
  congr 1
  funext i
  simp only [mismatchLine_eq, entryLine, decide_not, Bool.not_eq_true', decide_eq_false_iff_not,
    ite_not]

theorem compare_eq (got want : Outline) : compare got want =
    if reportLines got want = [] then []
    else (utf8 "verilog mismatch:" :: reportLines got want).flatMap (· ++ [newline]) := by
  have hname : (if got.name = want.name then []
      else mismatchLine (utf8 "module name") got.name want.name) =
      (nameLines got.name want.name).flatMap (· ++ [newline]) := by
    unfold nameLines
    split
    · rfl
    · rw [mismatchLine_eq, List.flatMap_singleton]
  have hbody : (reportLines got want).flatMap (· ++ [newline]) = [] ↔
      reportLines got want = [] := by
    cases reportLines got want <;> simp
  have hheading : utf8 "verilog mismatch:\n" = utf8 "verilog mismatch:" ++ [newline] := rfl
  simp only [compare, hname, mismatches_eq, ← List.flatMap_append]
  rw [← reportLines, hheading, List.flatMap_cons]
  simp only [hbody]

theorem lines_compare {got want : Outline} (h : compare got want ≠ []) :
    lines (compare got want) = utf8 "verilog mismatch:" :: reportLines got want ++ [[]] := by
  rw [compare_eq] at h ⊢
  split at h
  · exact absurd rfl h
  · rw [if_neg (by assumption)]
    refine lines_flatMap (List.forall_mem_cons.mpr ⟨by decide, fun line hline => ?_⟩)
    exact (plain_reportLines got want line hline).newline_notMem

theorem compare_eq_nil_iff {got want : Outline} : compare got want = [] ↔
    got.name = want.name ∧ got.ports.rdropWhile List.isEmpty = want.ports.rdropWhile List.isEmpty ∧
      got.stmts.rdropWhile List.isEmpty = want.stmts.rdropWhile List.isEmpty := by
  have hreport : compare got want = [] ↔ reportLines got want = [] := by
    rw [compare_eq]
    split <;> simp_all
  have hname : nameLines got.name want.name = [] ↔ got.name = want.name := by
    simp [nameLines]
  rw [hreport, reportLines, List.append_eq_nil_iff, List.append_eq_nil_iff, hname, entryLines,
    entryLines, List.map_eq_nil_iff, List.map_eq_nil_iff, places_eq_nil_iff, places_eq_nil_iff,
    and_assoc]

end Outline

/-! ## Compiled texts -/

namespace Module

variable {m m' : Module}

theorem rawPorts_congr {ps qs : List Port} (h : ps.map Port.text = qs.map Port.text) :
    rawPorts ps = rawPorts qs := by
  induction ps generalizing qs with
  | nil => rw [List.map_eq_nil_iff.mp h.symm]
  | cons p ps ih =>
    obtain ⟨q, qs, rfl, hq, hqs⟩ := List.map_eq_cons_iff.mp h.symm
    have hempty : ps.isEmpty = qs.isEmpty := by
      rw [← List.isEmpty_map (f := Port.text), ← hqs, List.isEmpty_map]
    rw [rawPorts, rawPorts, Port.raw, Port.raw, hq, hempty, ih hqs.symm]

/-- The outline of a module leaves out nothing of its text but the layout. -/
theorem text_eq_of_outline_eq (h : m.outline = m'.outline) : m.text = m'.text := by
  have hstmts (ss : List Stmt) :
      ss.map Stmt.raw = (ss.map Stmt.text).map fun text => utf8 "\t" ++ text ++ utf8 " " := by
    rw [List.map_map]
    rfl
  obtain ⟨hname, hports, htexts⟩ := Outline.mk.inj h
  rw [text_eq, text_eq, rawLines, rawLines, hname, rawPorts_congr hports, hstmts, htexts, ← hstmts]

theorem WellFormed.rdropWhile_outline (h : m.WellFormed) :
    m.outline.ports.rdropWhile List.isEmpty = m.outline.ports ∧
      m.outline.stmts.rdropWhile List.isEmpty = m.outline.stmts := by
  have hports : ∀ entry ∈ m.outline.ports, ¬ entry.isEmpty := by
    refine List.forall_mem_map.mpr fun p _ => ?_
    simp [Port.text, typeWord, utf8]
  have hstmts : ∀ entry ∈ m.outline.stmts, ¬ entry.isEmpty := by
    refine List.forall_mem_map.mpr fun s hs => ?_
    obtain ⟨word, mid, -, -, he⟩ := (h.stmts s hs).exists_word
    simp [he, utf8]
  exact ⟨List.rdropWhile_eq_self_iff.mpr fun hne => hports _ (List.getLast_mem hne),
    List.rdropWhile_eq_self_iff.mpr fun hne => hstmts _ (List.getLast_mem hne)⟩

/-- Between modules that can be read back nothing escapes the comparison. -/
theorem WellFormed.compare_outline_eq_nil_iff (h : m.WellFormed) (h' : m'.WellFormed) :
    Outline.compare m.outline m'.outline = [] ↔ m.text = m'.text := by
  rw [Outline.compare_eq_nil_iff, h.rdropWhile_outline.1, h.rdropWhile_outline.2,
    h'.rdropWhile_outline.1, h'.rdropWhile_outline.2]
  constructor
  · rintro ⟨hname, hports, hstmts⟩
    refine text_eq_of_outline_eq ?_
    rw [Outline.mk.injEq]
    exact ⟨hname, hports, hstmts⟩
  · intro ht
    obtain rfl := eq_of_text_eq h h' ht
    exact ⟨rfl, rfl, rfl⟩

end Module

end Verilog

open Verilog (Outline)

theorem exists_module_of_compile {src text : Bytes} {collapse : Bool}
    (h : compile src collapse = .ok text) :
    ∃ m : Verilog.Module, text = m.text ∧ m.WellFormed := by
  cases hp : Design.parse src with
  | ok d =>
    obtain ⟨m, hm, hwf, -⟩ := compile_of_parse hp collapse
    exact ⟨m, Except.ok.inj (h.symm.trans hm), hwf⟩
  | error f =>
    simp only [compile, hp] at h
    cases h

/-- A compiled text without long lines has the outline of a module. -/
theorem exists_outline_of_compile {src text : Bytes} {collapse : Bool}
    (h : compile src collapse = .ok text) (hshort : ∀ line ∈ lines text, line.length < 65536) :
    ∃ m : Verilog.Module, text = m.text ∧ m.WellFormed ∧
      Outline.read text = (m.outline, none) := by
  obtain ⟨m, rfl, hm⟩ := exists_module_of_compile h
  rw [hm.lines_text] at hshort
  exact ⟨m, rfl, hm, hm.read_text fun raw hraw => hshort raw (List.mem_append_left _ hraw)⟩

/-- A comparison reports nothing exactly when the outlines agree up to empty entries at the ends of
their lists, and else one line for each difference. So two compiled texts without long lines, read
back and compared, give no report exactly when they are the same. -/
theorem compare_tells_texts_apart :
    (∀ got want : Outline,
      (got.compare want = [] ↔ got.name = want.name ∧
        got.ports.rdropWhile List.isEmpty = want.ports.rdropWhile List.isEmpty ∧
        got.stmts.rdropWhile List.isEmpty = want.stmts.rdropWhile List.isEmpty) ∧
      (got.compare want ≠ [] → ∃ ports stmts,
        Outline.TellsApart (utf8 "port") got.ports want.ports ports ∧
        Outline.TellsApart (utf8 "stmt") got.stmts want.stmts stmts ∧
        lines (got.compare want) = utf8 "verilog mismatch:" ::
          ((if got.name = want.name then []
            else [Outline.reportLine (utf8 "module name") got.name want.name]) ++
          ports ++ stmts) ++ [[]])) ∧
    ∀ src₁ src₂ collapse₁ collapse₂ text₁ text₂, compile src₁ collapse₁ = .ok text₁ →
      compile src₂ collapse₂ = .ok text₂ → (∀ line ∈ lines text₁, line.length < 65536) →
      (∀ line ∈ lines text₂, line.length < 65536) →
      ∃ o₁ o₂, Outline.read text₁ = (o₁, none) ∧ Outline.read text₂ = (o₂, none) ∧
        (o₁.compare o₂ = [] ↔ text₁ = text₂) := by
  refine ⟨fun got want => ⟨Outline.compare_eq_nil_iff, fun h => ?_⟩, ?_⟩
  · exact ⟨_, _, Outline.entryLines_tellsApart _ _ _, Outline.entryLines_tellsApart _ _ _,
      Outline.lines_compare h⟩
  · intro src₁ src₂ collapse₁ collapse₂ text₁ text₂ h₁ h₂ hshort₁ hshort₂
    obtain ⟨m₁, rfl, hm₁, hread₁⟩ := exists_outline_of_compile h₁ hshort₁
    obtain ⟨m₂, rfl, hm₂, hread₂⟩ := exists_outline_of_compile h₂ hshort₂
    exact ⟨_, _, hread₁, hread₂, hm₁.compare_outline_eq_nil_iff hm₂⟩

/-- Collapsing a declaration is seen, an empty entry at the end of a list is not. -/
theorem compare_collapsed_and_padded :
    let src := utf8 "top mod m ( ) \x7b let x : bit = a; \x7d"
    let text₁ := utf8 "module m ( \n); \n\twire x = a; \nendmodule \n"
    let text₂ := utf8 "module m ( \n); \n\tassign x = a; \nendmodule \n"
    let padded : Outline := ⟨utf8 "m", [utf8 "a", []], []⟩
    let plain : Outline := ⟨utf8 "m", [utf8 "a"], [[]]⟩
    let renamed : Outline := ⟨utf8 "n", [[], utf8 "a"], []⟩
    (compile src false = .ok text₁ ∧ compile src true = .ok text₂ ∧
      (∀ line ∈ lines text₁, line.length < 65536) ∧ (∀ line ∈ lines text₂, line.length < 65536) ∧
      ∃ o₁ o₂, Outline.read text₁ = (o₁, none) ∧ Outline.read text₂ = (o₂, none) ∧
        o₁.compare o₂ ≠ []) ∧
    padded.compare plain = [] ∧ padded.compare renamed ≠ [] ∧
      ∃ ports stmts, Outline.TellsApart (utf8 "port") padded.ports renamed.ports ports ∧
        Outline.TellsApart (utf8 "stmt") padded.stmts renamed.stmts stmts ∧
        lines (padded.compare renamed) = utf8 "verilog mismatch:" ::
          ([utf8 "  module name: got \"m\" want \"n\""] ++ ports ++ stmts) ++ [[]] := by
  intro src text₁ text₂ padded plain renamed
  have h₁ : compile src false = .ok text₁ := rfl
  have h₂ : compile src true = .ok text₂ := rfl
  have hshort₁ : ∀ line ∈ lines text₁, line.length < 65536 := by decide
  have hshort₂ : ∀ line ∈ lines text₂, line.length < 65536 := by decide
  obtain ⟨hcompare, hcompile⟩ := compare_tells_texts_apart
  obtain ⟨o₁, o₂, hread₁, hread₂, h⟩ :=
    hcompile src src false true text₁ text₂ h₁ h₂ hshort₁ hshort₂
  have hne : padded.compare renamed ≠ [] := by
    rw [ne_eq, (hcompare padded renamed).1]
    exact fun h => absurd h.1 (by decide)
  refine ⟨⟨h₁, h₂, hshort₁, hshort₂, o₁, o₂, hread₁, hread₂, ?_⟩, ?_, hne, ?_⟩
  · exact mt h.mp (by decide)
  · exact (hcompare padded plain).1.mpr ⟨rfl, rfl, rfl⟩
  · exact (hcompare padded renamed).2 hne

end Bitwire
