import Bitwire.Proofs.Lines
import Bitwire.Verilog.Outline

/-! The line grammar of outlines. What counts of a text are its lines without the white space around
them, blank lines and comments left out: a header, ports up to a closing line, statements up to a last
line, and nothing more. Where the lines depart from this the reading stops, and what they had said
before is kept. -/
namespace Bitwire.Verilog

open Text

/-- The same error, wherever its line stands. -/
def OutlineError.unnumbered : OutlineError → OutlineError
  | noHeader _ text => noHeader 0 text
  | afterEnd _ text => afterEnd 0 text
  | noEnd => noEnd
  | lineTooLong => lineTooLong

namespace Outline

/-! ## Lines that count -/

/-- The lines that count, trimmed, each with its number. -/
def countedFrom (number : Nat) (raws : List Bytes) : List (Bytes × Nat) :=
  ((raws.map trim).zipIdx number).filter fun l => ! isIgnored l.1

def counted (text : Bytes) : List (Bytes × Nat) := countedFrom 1 (lines text)

theorem countedFrom_cons (number : Nat) (raw : Bytes) (raws : List Bytes) :
    countedFrom number (raw :: raws) = if isIgnored (trim raw) then countedFrom (number + 1) raws
      else (trim raw, number) :: countedFrom (number + 1) raws := by
  unfold countedFrom
  rw [List.map_cons, List.zipIdx_cons, List.filter_cons]
  cases isIgnored (trim raw) <;> rfl

/-- Where lines stand does not matter to which of them count. -/
theorem map_fst_countedFrom (number : Nat) (raws : List Bytes) :
    (countedFrom number raws).map Prod.fst = (raws.map trim).filter (! isIgnored ·) := by
  induction raws generalizing number with
  | nil => rfl
  | cons raw raws ih =>
    rw [countedFrom_cons, List.map_cons, List.filter_cons]
    cases isIgnored (trim raw) <;> simp [ih]

theorem countedFrom_append_empty (number : Nat) (raws : List Bytes) :
    countedFrom number (raws ++ [[]]) = countedFrom number raws := by
  have hlast : isIgnored (trim []) = true := by decide
  simp [countedFrom, List.zipIdx_append, hlast]

theorem lines_eq_physicalLines (text : Bytes) :
    lines text = physicalLines text ∨ lines text = physicalLines text ++ [[]] := by
  by_cases h : (lines text).getLast? = some []
  · obtain ⟨init, hinit⟩ := List.getLast?_eq_some_iff.mp h
    exact .inr (by simp [physicalLines, hinit])
  · exact .inl (by simp [physicalLines, h])

/-! ## Reading the lines that count -/

/-- Reads lines that are trimmed and not ignored. -/
def readCounted (o : Outline) (s : Section) : List (Bytes × Nat) → Outline × Option OutlineError
  | [] => (o, if s = .finished then none else some .noEnd)
  | (line, number) :: rest =>
    match readLine number line o s with
    | .ok p => readCounted p.1 p.2 rest
    | .error e => (o, some e)

theorem readCounted_cons_of_ok {number : Nat} {line : Bytes} {o : Outline} {s : Section}
    {p : Outline × Section} (h : readLine number line o s = .ok p) (rest : List (Bytes × Nat)) :
    readCounted o s ((line, number) :: rest) = readCounted p.1 p.2 rest := by
  rw [readCounted, h]

theorem readCounted_cons_of_error {number : Nat} {line : Bytes} {o : Outline} {s : Section}
    {e : OutlineError} (h : readLine number line o s = .error e) (rest : List (Bytes × Nat)) :
    readCounted o s ((line, number) :: rest) = (o, some e) := by
  rw [readCounted, h]

theorem readLines_eq_readCounted {raws : List Bytes}
    (hshort : ∀ raw ∈ raws, raw.length < lineLimit) (number : Nat) (o : Outline) (s : Section) :
    readLines number o s raws = readCounted o s (countedFrom number raws) := by
  induction raws generalizing number o s with
  | nil => rfl
  | cons raw raws ih =>
    obtain ⟨hraw, hraws⟩ := List.forall_mem_cons.mp hshort
    rw [readLines, if_neg (Nat.not_le.mpr hraw), trim_dropSuffix, countedFrom_cons]
    by_cases hignored : isIgnored (trim raw) = true
    · simp only [hignored, if_true, ih hraws]
    · simp only [hignored, Bool.false_eq_true, if_false]
      cases hline : readLine number (trim raw) o s with
      | ok p => simp only [readCounted_cons_of_ok hline, ih hraws]
      | error e => simp only [readCounted_cons_of_error hline]

theorem read_eq_readCounted {text : Bytes} (hshort : ∀ line ∈ lines text, line.length < lineLimit) :
    read text = readCounted empty .header (counted text) := by
  have hcounted : counted text = countedFrom 1 (physicalLines text) ∧
      ∀ raw ∈ physicalLines text, raw.length < lineLimit := by
    unfold counted
    rcases lines_eq_physicalLines text with h | h
    · rw [h] at hshort ⊢
      exact ⟨rfl, hshort⟩
    · rw [h] at hshort ⊢
      exact ⟨countedFrom_append_empty 1 _, (List.forall_mem_append.mp hshort).1⟩
  rw [hcounted.1]
  exact readLines_eq_readCounted hcounted.2 1 empty .header

/-! ## The grammar -/

/-- A header line and the name in it. -/
def IsHeader (line name : Bytes) : Prop :=
  ∃ inner, line = utf8 "module " ++ inner ++ utf8 "(" ∧ name = trim inner

/-- What a port line says: itself without the comma at its end. -/
def portEntry (line : Bytes) : Bytes := trim (dropSuffix (utf8 ",") line)

/-- The lines with which a module starts, as far as they go, and the outline they give. -/
inductive Opens : List Bytes → Outline → Section → Prop
  | header : Opens [] empty .header
  | ports {line name : Bytes} {ports : List Bytes} : IsHeader line name →
      (∀ port ∈ ports, port ≠ utf8 ");") →
      Opens (line :: ports) ⟨name, ports.map portEntry, []⟩ .ports
  | body {ls stmts : List Bytes} {o : Outline} : Opens ls o .ports →
      (∀ stmt ∈ stmts, stmt ≠ utf8 "endmodule") →
      Opens (ls ++ utf8 ");" :: stmts) { o with stmts } .body
  | finished {ls : List Bytes} {o : Outline} : Opens ls o .body →
      Opens (ls ++ [utf8 "endmodule"]) o .finished

/-- What is to be made of numbered lines: a whole module, lines that stop before its end, a first line
that is no header, or a line behind the end. -/
inductive Judged : List (Bytes × Nat) → Outline × Option OutlineError → Prop
  | whole {ls : List (Bytes × Nat)} {o : Outline} : Opens (ls.map Prod.fst) o .finished →
      Judged ls (o, none)
  | noEnd {ls : List (Bytes × Nat)} {o : Outline} {s : Section} : Opens (ls.map Prod.fst) o s →
      s ≠ .finished → Judged ls (o, some .noEnd)
  | noHeader {line : Bytes} {number : Nat} {rest : List (Bytes × Nat)} :
      (∀ name, ¬ IsHeader line name) →
      Judged ((line, number) :: rest) (empty, some (.noHeader number line))
  | afterEnd {ls rest : List (Bytes × Nat)} {o : Outline} {line : Bytes} {number : Nat} :
      Opens (ls.map Prod.fst) o .finished →
      Judged (ls ++ (line, number) :: rest) (o, some (.afterEnd number line))

theorem headerName?_eq_some_iff {line name : Bytes} :
    headerName? line = some name ↔ IsHeader line name := by
  constructor
  · intro h
    unfold headerName? at h
    split at h
    · next hline =>
      obtain ⟨rest, rfl⟩ := List.isPrefixOf_iff_prefix.mp hline.1
      obtain ⟨init, hinit⟩ := List.isSuffixOf_iff_suffix.mp hline.2
      -- the parenthesis is not the blank after the keyword
      obtain ⟨inner, rfl⟩ : ∃ inner, rest = inner ++ utf8 "(" := by
        rcases List.eq_nil_or_concat rest with rfl | ⟨inner, b, rfl⟩
        · exact absurd hline.2 (by decide)
        · rw [List.concat_eq_append, ← List.append_assoc] at hinit
          exact ⟨inner, by rw [List.concat_eq_append, (List.append_inj' hinit rfl).2]⟩
      rw [List.drop_left, dropSuffix_append] at h
      exact ⟨inner, by simp, (Option.some.inj h).symm⟩
    · contradiction
  · rintro ⟨inner, rfl, rfl⟩
    have hpre : (utf8 "module ").isPrefixOf (utf8 "module " ++ inner ++ utf8 "(") = true := by
      simp
    have hsuf : (utf8 "(").isSuffixOf (utf8 "module " ++ inner ++ utf8 "(") = true :=
      List.isSuffixOf_iff_suffix.mpr (List.suffix_append _ _)
    rw [headerName?, if_pos ⟨hpre, hsuf⟩, List.append_assoc, List.drop_left, dropSuffix_append]

theorem headerName?_eq_none_iff {line : Bytes} :
    headerName? line = none ↔ ∀ name, ¬ IsHeader line name := by
  simp only [← headerName?_eq_some_iff, Option.eq_none_iff_forall_ne_some, ne_eq]

/-! ## Reading follows the grammar -/

/-- A line that is taken in leads on in the grammar. -/
theorem Opens.readLine {ls : List Bytes} {o : Outline} {s : Section} (h : Opens ls o s)
    {number : Nat} {line : Bytes} {p : Outline × Section}
    (hline : readLine number line o s = .ok p) : Opens (ls ++ [line]) p.1 p.2 := by
  cases h with
  | header =>
    rw [Outline.readLine] at hline
    split at hline
    · next name hname =>
      cases hline
      exact .ports (headerName?_eq_some_iff.mp hname) (by simp)
    · cases hline
  | @ports _ name ports hheader hports =>
    rw [Outline.readLine] at hline
    split at hline
    · next hclose =>
      cases hline
      subst hclose
      exact .body (.ports hheader hports) (by simp)
    · next hne =>
      cases hline
      have hall : ∀ port ∈ ports ++ [line], port ≠ utf8 ");" :=
        List.forall_mem_append.mpr ⟨hports, List.forall_mem_singleton.mpr hne⟩
      simpa [portEntry] using Opens.ports hheader hall
  | @body ls stmts o hports hstmts =>
    rw [Outline.readLine] at hline
    split at hline
    · next hend =>
      cases hline
      subst hend
      exact .finished (.body hports hstmts)
    · next hne =>
      cases hline
      have hall : ∀ stmt ∈ stmts ++ [line], stmt ≠ utf8 "endmodule" :=
        List.forall_mem_append.mpr ⟨hstmts, List.forall_mem_singleton.mpr hne⟩
      simpa using Opens.body hports hall
  | finished => cases hline

theorem readLine_eq_error {number : Nat} {line : Bytes} {o : Outline} {s : Section}
    {e : OutlineError} (h : readLine number line o s = .error e) :
    (s = .header ∧ (∀ name, ¬ IsHeader line name) ∧ e = .noHeader number line) ∨
      (s = .finished ∧ e = .afterEnd number line) := by
  cases s with
  | header =>
    rw [readLine] at h
    split at h
    · cases h
    · next hname =>
      cases h
      exact .inl ⟨rfl, headerName?_eq_none_iff.mp hname, rfl⟩
  | ports =>
    rw [readLine] at h
    split at h <;> cases h
  | body =>
    rw [readLine] at h
    split at h <;> cases h
  | finished =>
    cases h
    exact .inr ⟨rfl, rfl⟩

theorem Opens.eq_of_header {ls : List Bytes} {o : Outline} (h : Opens ls o .header) :
    ls = [] ∧ o = empty := by
  cases h
  exact ⟨rfl, rfl⟩

/-- Whatever lines are read, the outcome is the one of the grammar. -/
theorem Opens.judged {ls : List (Bytes × Nat)} {o : Outline} {s : Section}
    (h : Opens (ls.map Prod.fst) o s) (rest : List (Bytes × Nat)) :
    Judged (ls ++ rest) (readCounted o s rest) := by
  induction rest generalizing ls o s with
  | nil =>
    rw [List.append_nil, readCounted]
    by_cases hs : s = .finished
    · subst hs
      exact .whole h
    · rw [if_neg hs]
      exact .noEnd h hs
  | cons l rest ih =>
    obtain ⟨line, number⟩ := l
    cases hline : Outline.readLine number line o s with
    | ok p =>
      have hnext : Opens ((ls ++ [(line, number)]).map Prod.fst) p.1 p.2 := by
        simpa using h.readLine hline
      simpa [readCounted_cons_of_ok hline] using ih hnext
    | error e =>
      rw [readCounted_cons_of_error hline]
      rcases readLine_eq_error hline with ⟨rfl, hheader, rfl⟩ | ⟨rfl, rfl⟩
      · obtain ⟨hls, rfl⟩ := h.eq_of_header
        rw [List.map_eq_nil_iff.mp hls]
        exact .noHeader hheader
      · exact .afterEnd h

theorem readCounted_ports (o : Outline) {ls : List (Bytes × Nat)}
    (h : ∀ l ∈ ls, l.1 ≠ utf8 ");") (rest : List (Bytes × Nat)) :
    readCounted o .ports (ls ++ rest) =
      readCounted { o with ports := o.ports ++ ls.map (portEntry ·.1) } .ports rest := by
  induction ls generalizing o with
  | nil => simp
  | cons l ls ih =>
    obtain ⟨hl, hls⟩ := List.forall_mem_cons.mp h
    have hline : readLine l.2 l.1 o .ports =
        .ok ({ o with ports := o.ports ++ [portEntry l.1] }, .ports) := if_neg hl
    rw [List.cons_append, readCounted_cons_of_ok hline, ih _ hls]
    simp

theorem readCounted_body (o : Outline) {ls : List (Bytes × Nat)}
    (h : ∀ l ∈ ls, l.1 ≠ utf8 "endmodule") (rest : List (Bytes × Nat)) :
    readCounted o .body (ls ++ rest) =
      readCounted { o with stmts := o.stmts ++ ls.map Prod.fst } .body rest := by
  induction ls generalizing o with
  | nil => simp
  | cons l ls ih =>
    obtain ⟨hl, hls⟩ := List.forall_mem_cons.mp h
    have hline : readLine l.2 l.1 o .body =
        .ok ({ o with stmts := o.stmts ++ [l.1] }, .body) := if_neg hl
    rw [List.cons_append, readCounted_cons_of_ok hline, ih _ hls]
    simp

/-- Lines that open a module leave the reading where they end. -/
theorem Opens.readCounted_append {ls : List Bytes} {o : Outline} {s : Section} (h : Opens ls o s)
    {before : List (Bytes × Nat)} (hls : before.map Prod.fst = ls) (rest : List (Bytes × Nat)) :
    readCounted empty .header (before ++ rest) = readCounted o s rest := by
  induction h generalizing before rest with
  | header =>
    rw [List.map_eq_nil_iff.mp hls, List.nil_append]
  | @ports line name ports hheader hports =>
    obtain ⟨l, before, rfl, rfl, rfl⟩ := List.map_eq_cons_iff.mp hls
    have hline : Outline.readLine l.2 l.1 empty .header = .ok ({ empty with name }, .ports) := by
      rw [Outline.readLine, headerName?_eq_some_iff.mpr hheader]
    have hall : ∀ l ∈ before, l.1 ≠ utf8 ");" :=
      fun _ hl => hports _ (List.mem_map_of_mem hl)
    rw [List.cons_append, readCounted_cons_of_ok hline, readCounted_ports _ hall]
    simp [empty, Function.comp_def]
  | @body ls stmts o hopen hstmts ih =>
    obtain ⟨before, tail, rfl, hbefore, htail⟩ := List.map_eq_append_iff.mp hls
    obtain ⟨l, after, rfl, hl, rfl⟩ := List.map_eq_cons_iff.mp htail
    have hline : Outline.readLine l.2 l.1 o .ports = .ok (o, .body) := if_pos hl
    have hall : ∀ l ∈ after, l.1 ≠ utf8 "endmodule" :=
      fun _ hl => hstmts _ (List.mem_map_of_mem hl)
    have hnone : o.stmts = [] := by
      cases hopen
      rfl
    rw [List.append_assoc, ih hbefore, List.cons_append, readCounted_cons_of_ok hline,
      readCounted_body _ hall, hnone, List.nil_append]
  | @finished ls o _ ih =>
    obtain ⟨before, tail, rfl, hbefore, htail⟩ := List.map_eq_append_iff.mp hls
    obtain ⟨l, after, rfl, hl, hafter⟩ := List.map_eq_cons_iff.mp htail
    have hline : Outline.readLine l.2 l.1 o .body = .ok (o, .finished) := if_pos hl
    rw [List.append_assoc, ih hbefore, List.cons_append, readCounted_cons_of_ok hline,
      List.map_eq_nil_iff.mp hafter, List.nil_append]

theorem Judged.readCounted_eq {ls : List (Bytes × Nat)} {r : Outline × Option OutlineError}
    (h : Judged ls r) : readCounted empty .header ls = r := by
  cases h with
  | @whole ls o h => simpa [readCounted] using h.readCounted_append rfl []
  | @noEnd ls o s h hs => simpa [readCounted, hs] using h.readCounted_append rfl []
  | @noHeader line number rest h =>
    refine readCounted_cons_of_error ?_ rest
    rw [readLine, headerName?_eq_none_iff.mpr h]
  | @afterEnd ls rest o line number h =>
    rw [h.readCounted_append rfl]
    exact readCounted_cons_of_error rfl rest

theorem judged_iff {ls : List (Bytes × Nat)} {r : Outline × Option OutlineError} :
    readCounted empty .header ls = r ↔ Judged ls r := by
  refine ⟨?_, Judged.readCounted_eq⟩
  rintro rfl
  exact @Opens.judged [] _ _ .header ls

theorem judged_none_iff {ls : List (Bytes × Nat)} {o : Outline} :
    Judged ls (o, none) ↔ Opens (ls.map Prod.fst) o .finished := by
  refine ⟨fun h => ?_, .whole⟩
  cases h with
  | whole h => exact h

theorem opens_finished_iff {ls : List Bytes} {o : Outline} : Opens ls o .finished ↔
    ∃ line name ports stmts, ls = line :: (ports ++ utf8 ");" :: (stmts ++ [utf8 "endmodule"])) ∧
      IsHeader line name ∧ (∀ port ∈ ports, port ≠ utf8 ");") ∧
      (∀ stmt ∈ stmts, stmt ≠ utf8 "endmodule") ∧ o = ⟨name, ports.map portEntry, stmts⟩ := by
  constructor
  · intro h
    cases h with
    | finished h =>
      cases h with
      | @body _ stmts _ h hstmts =>
        cases h with
        | @ports line name ports hheader hports =>
          exact ⟨line, name, ports, stmts, by simp, hheader, hports, hstmts, rfl⟩
  · rintro ⟨line, name, ports, stmts, rfl, hheader, hports, hstmts, rfl⟩
    simpa using Opens.finished (.body (.ports hheader hports) hstmts)

/-! ## Annotations -/

/-- Lines that differ in annotations: blank lines, comments and indentation. -/
inductive Reannotated : List Bytes → List Bytes → Prop
  | nil : Reannotated [] []
  | insert {note : Bytes} {ls ls' : List Bytes} : isIgnored (trim note) = true →
      Reannotated ls ls' → Reannotated ls (note :: ls')
  | delete {note : Bytes} {ls ls' : List Bytes} : isIgnored (trim note) = true →
      Reannotated ls ls' → Reannotated (note :: ls) ls'
  | indent {front front' : List Char} {line : Bytes} {ls ls' : List Bytes} :
      front.all isBlank = true → front'.all isBlank = true → Reannotated ls ls' →
      Reannotated ((encodeChars front ++ line) :: ls) ((encodeChars front' ++ line) :: ls')

theorem Reannotated.map_fst_countedFrom_eq {ls ls' : List Bytes} (h : Reannotated ls ls')
    (number : Nat) :
    (countedFrom number ls).map Prod.fst = (countedFrom number ls').map Prod.fst := by
  simp only [map_fst_countedFrom]
  induction h with
  | nil => rfl
  | insert hnote _ ih => simpa [hnote] using ih
  | delete hnote _ ih => simpa [hnote] using ih
  | indent hfront hfront' _ ih =>
    simp only [List.map_cons, trim_blank_append _ hfront, trim_blank_append _ hfront',
      List.filter_cons, ih]

/-- The number of a line is only told in the error. -/
theorem readLine_renumbered (number number' : Nat) (line : Bytes) (o : Outline) (s : Section) :
    (∃ p, readLine number line o s = .ok p ∧ readLine number' line o s = .ok p) ∨
      ∃ e e', readLine number line o s = .error e ∧ readLine number' line o s = .error e' ∧
        e.unnumbered = e'.unnumbered := by
  cases s with
  | header =>
    rw [readLine, readLine]
    cases headerName? line with
    | some name => exact .inl ⟨_, rfl, rfl⟩
    | none => exact .inr ⟨_, _, rfl, rfl, rfl⟩
  | ports =>
    by_cases h : line = utf8 ");"
    · exact .inl ⟨_, if_pos h, if_pos h⟩
    · exact .inl ⟨_, if_neg h, if_neg h⟩
  | body =>
    by_cases h : line = utf8 "endmodule"
    · exact .inl ⟨_, if_pos h, if_pos h⟩
    · exact .inl ⟨_, if_neg h, if_neg h⟩
  | finished => exact .inr ⟨_, _, rfl, rfl, rfl⟩

/-- Lines read alike wherever they stand. -/
theorem readCounted_renumbered {ls ls' : List (Bytes × Nat)}
    (h : ls.map Prod.fst = ls'.map Prod.fst) (o : Outline) (s : Section) :
    (readCounted o s ls).1 = (readCounted o s ls').1 ∧
      (readCounted o s ls).2.map OutlineError.unnumbered =
        (readCounted o s ls').2.map OutlineError.unnumbered := by
  induction ls generalizing ls' o s with
  | nil =>
    rw [List.map_eq_nil_iff.mp h.symm]
    exact ⟨rfl, rfl⟩
  | cons l ls ih =>
    obtain ⟨⟨line, number'⟩, ls', rfl, rfl, hls⟩ := List.map_eq_cons_iff.mp h.symm
    rcases readLine_renumbered l.2 number' l.1 o s with ⟨p, hp, hp'⟩ | ⟨e, e', he, he', heq⟩
    · rw [readCounted_cons_of_ok hp, readCounted_cons_of_ok hp']
      exact ih hls.symm _ _
    · rw [readCounted_cons_of_error he, readCounted_cons_of_error he']
      exact ⟨rfl, congrArg some heq⟩

/-- Of a text with short lines exactly the line grammar is accepted; else the error tells the line at
fault, and the outline is what the lines before it gave. Annotations change neither the outline nor
the error, but for the number of its line. -/
theorem read_iff_line_grammar {text : Bytes} (hshort : ∀ line ∈ lines text, line.length < 65536) :
    (∀ o, read text = (o, none) ↔
      ∃ line name ports stmts, (counted text).map Prod.fst =
          line :: (ports ++ utf8 ");" :: (stmts ++ [utf8 "endmodule"])) ∧
        IsHeader line name ∧ (∀ port ∈ ports, port ≠ utf8 ");") ∧
        (∀ stmt ∈ stmts, stmt ≠ utf8 "endmodule") ∧ o = ⟨name, ports.map portEntry, stmts⟩) ∧
    (∀ r, read text = r ↔ Judged (counted text) r) ∧
    OutlineError.noEnd.message = utf8 "missing endmodule" ∧
    ∀ text', (∀ line ∈ lines text', line.length < 65536) →
      Reannotated (lines text) (lines text') →
      (read text).1 = (read text').1 ∧
        (read text).2.map OutlineError.unnumbered =
          (read text').2.map OutlineError.unnumbered := by
  have hread : ∀ r, read text = r ↔ Judged (counted text) r := by
    intro r
    rw [read_eq_readCounted hshort]
    exact judged_iff
  refine ⟨fun o => ?_, hread, rfl, fun text' hshort' h => ?_⟩
  · rw [hread, judged_none_iff, opens_finished_iff]
  · rw [read_eq_readCounted hshort, read_eq_readCounted hshort']
    exact readCounted_renumbered (h.map_fst_countedFrom_eq 1) empty .header

/-- A comment, a blank line and another indentation move the line at fault from the fifth place to
the seventh. -/
theorem outline_of_annotated_text :
    let plain := utf8 "module m (\n a,\n);\nendmodule\nx"
    let annotated := utf8 "// top\nmodule m (\n\u3000a,\n\n);\nendmodule\nx\n"
    let o : Outline := ⟨utf8 "m", [utf8 "a"], []⟩
    (∀ line ∈ lines plain, line.length < 65536) ∧ (∀ line ∈ lines annotated, line.length < 65536) ∧
      Reannotated (lines plain) (lines annotated) ∧
      Judged (counted plain) (o, some (.afterEnd 5 (utf8 "x"))) ∧
      Judged (counted annotated) (o, some (.afterEnd 7 (utf8 "x"))) ∧
      (read plain).1 = (read annotated).1 := by
  intro plain annotated o
  have hplain : ∀ line ∈ lines plain, line.length < 65536 := by decide
  have hannotated : ∀ line ∈ lines annotated, line.length < 65536 := by decide
  have h : Reannotated (lines plain) (lines annotated) :=
    .insert (by decide) <| @Reannotated.indent [] [] (utf8 "module m (") _ _ rfl rfl <|
    @Reannotated.indent [' '] ['\u3000'] (utf8 "a,") _ _ rfl (by decide) <| .insert (by decide) <|
    @Reannotated.indent [] [] (utf8 ");") _ _ rfl rfl <|
    @Reannotated.indent [] [] (utf8 "endmodule") _ _ rfl rfl <|
    @Reannotated.indent [] [] (utf8 "x") _ _ rfl rfl <| .insert (by decide) .nil
  exact ⟨hplain, hannotated, h, ((read_iff_line_grammar hplain).2.1 _).mp (by decide),
    ((read_iff_line_grammar hannotated).2.1 _).mp (by decide),
    ((read_iff_line_grammar hplain).2.2.2 annotated hannotated h).1⟩

end Outline

end Bitwire.Verilog
