import Bitwire.Proofs.Erasure
import Bitwire.Proofs.LineGrammar

/-! The outline of a compiled source. The lines of a rendered module are read one by one: whatever
the names in it are, each line starts with a word that tells its part, and trimming gives back what
was written. A line that is too long stops the reading, and what was read before it is kept. -/
namespace Bitwire

open Text

/-! ## The outline of a design -/

def Port.line (p : Port) : Bytes :=
  match p.direction with
  | .input => utf8 "input wire " ++ p.name
  | .output => utf8 "output wire " ++ p.name

def Stmt.line (collapse : Bool) : Stmt → Bytes
  | assign name value => utf8 "assign " ++ name ++ utf8 " = " ++ value.text ++ utf8 ";"
  | declare name _ => utf8 "wire " ++ name ++ utf8 ";"
  | declareAssign name _ value =>
    (if collapse then utf8 "assign " else utf8 "wire ") ++ name ++ utf8 " = " ++ value.text ++
      utf8 ";"
  | missing => []

def Design.outline (collapse : Bool) (d : Design) : Verilog.Outline :=
  ⟨d.name, d.ports.map Port.line, d.stmts.map (Stmt.line collapse)⟩

/-- What the first lines of a module say of its outline: one line is the header, one each port, one
closes the port list, and one is each statement. -/
def Verilog.Outline.upTo (o : Outline) (count : Nat) : Outline :=
  ⟨if count = 0 then [] else o.name, o.ports.take (count - 1),
    o.stmts.take (count - (o.ports.length + 2))⟩

/-! ## Texts on one line -/

theorem BinaryOp.made_symbol (op : BinaryOp) : Made inLine op.symbol := by
  cases op <;> exact .of_utf8 (by decide)

theorem UnaryOp.made_symbol (op : UnaryOp) : Made inLine op.symbol := by
  cases op <;> exact .of_utf8 (by decide)

theorem Expr.Lexable.made {e : Expr} (h : e.Lexable) : Made inLine e.text := by
  have hspace : Made inLine (utf8 " ") := .of_utf8 (by decide)
  induction e with
  | binary left op right ihl ihr =>
    obtain ⟨hl, hop, hr⟩ := h
    rw [text, hop.written_eq]
    exact ((((ihl hl).append hspace).append op.made_symbol).append hspace).append (ihr hr)
  | unary op operand ih => exact op.made_symbol.append (ih h.2)
  | paren inner ih =>
    have hopen : Made inLine (utf8 "( ") := .of_utf8 (by decide)
    exact (hopen.append (ih h)).append (.of_utf8 (by decide))
  | name text => exact IsName.made_inLine h
  | literal text => exact IsDigits.made_inLine h
  | missing => exact h.elim

/-- Neither text goes on as the other. -/
def Clash (a b : Bytes) : Prop := ¬ a <+: b ∧ ¬ b <+: a

instance (a b : Bytes) : Decidable (Clash a b) := inferInstanceAs (Decidable (_ ∧ _))

theorem Clash.not_isPrefix {a b text : Bytes} (h : Clash a b) (ha : a <+: text) :
    ¬ b <+: text := by
  intro hb
  rcases List.prefix_or_prefix_of_prefix ha hb with hab | hba
  · exact h.1 hab
  · exact h.2 hba

theorem Clash.ne {a b text : Bytes} (h : Clash a b) (ha : a <+: text) : text ≠ b := by
  rintro rfl
  exact h.1 ha

namespace Verilog

/-! ## Rendered lines -/

def Port.raw (p : Port) (isLast : Bool) : Bytes :=
  utf8 "\t" ++ p.text ++ if isLast then utf8 " " else utf8 ", "

def Stmt.raw (s : Stmt) : Bytes := utf8 "\t" ++ s.text ++ utf8 " "

namespace Module

def rawPorts : List Port → List Bytes
  | [] => []
  | p :: rest => p.raw rest.isEmpty :: rawPorts rest

/-- The lines of the text of a module, without their newlines. -/
def rawLines (m : Module) : List Bytes :=
  (utf8 "module " ++ m.name ++ utf8 " ( ") ::
    (rawPorts m.ports ++ utf8 "); " :: (m.stmts.map Stmt.raw ++ [utf8 "endmodule "]))

theorem length_rawPorts (ps : List Port) : (rawPorts ps).length = ps.length := by
  induction ps with
  | nil => rfl
  | cons p ps ih => simp [rawPorts, ih]

theorem portLines_eq (ps : List Port) :
    portLines ps = (rawPorts ps).flatMap (· ++ [newline]) := by
  have hplain : utf8 " \n" = utf8 " " ++ [newline] := rfl
  have hcomma : utf8 ", \n" = utf8 ", " ++ [newline] := rfl
  induction ps with
  | nil => rfl
  | cons p ps ih =>
    cases ps with
    | nil => simp [portLines, rawPorts, Port.raw, hplain]
    | cons q ps =>
      calc portLines (p :: q :: ps)
          = utf8 "\t" ++ p.text ++ utf8 ", \n" ++ portLines (q :: ps) := rfl
        _ = p.raw false ++ [newline] ++ (rawPorts (q :: ps)).flatMap (· ++ [newline]) := by
          rw [ih, Port.raw, hcomma]
          simp
        _ = (rawPorts (p :: q :: ps)).flatMap (· ++ [newline]) := rfl

theorem stmtLine_eq (s : Stmt) : stmtLine s = s.raw ++ [newline] := by
  have hplain : utf8 " \n" = utf8 " " ++ [newline] := rfl
  rw [stmtLine, Stmt.raw, hplain]
  simp

theorem text_eq (m : Module) : m.text = m.rawLines.flatMap (· ++ [newline]) := by
  have hheader : utf8 " ( \n" = utf8 " ( " ++ [newline] := rfl
  have hclose : utf8 "); \n" = utf8 "); " ++ [newline] := rfl
  have hend : utf8 "endmodule \n" = utf8 "endmodule " ++ [newline] := rfl
  rw [text, portLines_eq, hheader, hclose, hend, funext stmtLine_eq]
  simp [rawLines, List.flatMap_map]

end Module

/-! ## What the lines are made of -/

/-- A character of a port, which is three words. -/
def inPort (c : Char) : Bool := wordPart c || c == ' '

theorem inLine_of_inPort {c : Char} (h : inPort c = true) : inLine c = true := by
  rcases Bool.or_eq_true_iff.mp h with h | h
  · exact inLine_of_not_isBlank (isBlank_of_wordPart h)
  · rw [eq_of_beq h]
    decide

theorem Port.made {p : Port} (hp : IsName p.name) : Made inPort p.text := by
  have hspace : Made inPort (utf8 " ") := .of_utf8 (by decide)
  have hname {text : Bytes} (h : IsName text) : Made inPort text :=
    h.made.mono fun c hc => by simp [inPort, hc]
  have hword := (hname (isName_directionWord p.direction)).append hspace
  exact ((hword.append (hname isName_typeWord)).append hspace).append (hname hp)

theorem Port.tight {p : Port} (hp : IsName p.name) : Tight p.text := by
  have hmid : Made inLine (utf8 " " ++ typeWord ++ utf8 " ") := .of_utf8 (s := " wire ") (by decide)
  simpa [Port.text] using (isName_directionWord p.direction).tight.surround hmid hp.tight

/-- A statement starts with one of two words and ends with its semicolon. -/
theorem Stmt.WellFormed.exists_word {s : Stmt} (h : s.WellFormed) :
    ∃ word mid, (word = utf8 "assign" ∨ word = utf8 "wire") ∧ Made inLine mid ∧
      s.text = word ++ mid ++ utf8 ";" := by
  have hspace : Made inLine (utf8 " ") := .of_utf8 (by decide)
  have hvalue {name : Bytes} {value : Expr} (hn : IsName name) (hv : value.Lexable) :
      Made inLine (utf8 " " ++ name ++ utf8 " = " ++ value.text) :=
    ((hspace.append hn.made_inLine).append (.of_utf8 (by decide))).append hv.made
  cases s with
  | assign name value =>
    have hword : utf8 "assign " = utf8 "assign" ++ utf8 " " := rfl
    exact ⟨utf8 "assign", _, .inl rfl, hvalue h.1 h.2.1, by simp [Stmt.text, hword]⟩
  | wire name =>
    exact ⟨utf8 "wire", _, .inr rfl, hspace.append (IsName.made_inLine h),
      by simp [Stmt.text, typeWord]⟩
  | wireAssign name value =>
    exact ⟨utf8 "wire", _, .inr rfl, hvalue h.1 h.2.1, by simp [Stmt.text, typeWord]⟩
  | missing => exact h.elim

theorem isName_stmtWord {word : Bytes} (h : word = utf8 "assign" ∨ word = utf8 "wire") :
    IsName word := by
  rcases h with rfl | rfl
  · exact isName_assign
  · exact isName_typeWord

theorem Stmt.WellFormed.made {s : Stmt} (h : s.WellFormed) : Made inLine s.text := by
  obtain ⟨word, mid, hword, hmid, he⟩ := h.exists_word
  rw [he]
  exact ((isName_stmtWord hword).made_inLine.append hmid).append (.of_utf8 (by decide))

theorem Stmt.WellFormed.tight {s : Stmt} (h : s.WellFormed) : Tight s.text := by
  obtain ⟨word, mid, hword, hmid, he⟩ := h.exists_word
  rw [he]
  exact (isName_stmtWord hword).tight.surround hmid (.of_utf8 (by decide) (by decide))

/-! ## One line -/

namespace Outline

/-- A line of a text that counts, without the white space around it. -/
structure Shows (raw line : Bytes) : Prop where
  trim_eq : trim (dropSuffix [carriageReturn] raw) = line
  isIgnored_eq : isIgnored line = false

theorem shows_of_tight (word : Bytes) (front : List Char) {line : Bytes} (ht : Tight line)
    (hw : word <+: line) (hc : Clash word (utf8 "//")) (hblank : front.all isBlank = true) :
    Shows (encodeChars front ++ line ++ utf8 " ") line := by
  have hspace : utf8 " " = encodeChars [' '] := rfl
  constructor
  · rw [trim_dropSuffix, hspace]
    exact ht.trim hblank (by decide)
  · have hne : line ≠ [] := by
      rintro rfl
      exact hc.1 (List.prefix_nil.mp hw ▸ List.nil_prefix)
    have hslash : (utf8 "//").isPrefixOf line = false :=
      Bool.eq_false_iff.mpr fun h => hc.not_isPrefix hw (List.isPrefixOf_iff_prefix.mp h)
    simp [isIgnored, hne, hslash]

/-- What lines do to the outline read so far and the part that is read. -/
inductive Reads : List Bytes → Outline × Section → Outline × Section → Prop
  | nil {p : Outline × Section} : Reads [] p p
  | cons {raw line : Bytes} {ls : List Bytes} {o : Outline} {s : Section}
      {p q : Outline × Section} : Shows raw line → (∀ number, readLine number line o s = .ok p) →
      Reads ls p q → Reads (raw :: ls) (o, s) q

theorem Reads.append {ls ls' : List Bytes} {p q r : Outline × Section} (h : Reads ls p q)
    (h' : Reads ls' q r) : Reads (ls ++ ls') p r := by
  induction h with
  | nil => exact h'
  | cons hraw hline _ ih => exact .cons hraw hline (ih h')

theorem readLines_of_reads {ls : List Bytes} {p q : Outline × Section} (h : Reads ls p q)
    (hshort : ∀ raw ∈ ls, raw.length < lineLimit) (number : Nat) (rest : List Bytes) :
    readLines number p.1 p.2 (ls ++ rest) = readLines (number + ls.length) q.1 q.2 rest := by
  induction h generalizing number with
  | nil => rfl
  | cons hraw hline _ ih =>
    obtain ⟨hlen, hshort⟩ := List.forall_mem_cons.mp hshort
    rw [List.cons_append, readLines, if_neg (Nat.not_le.mpr hlen)]
    simp only [hraw.trim_eq, hraw.isIgnored_eq, hline number, ih hshort, Bool.false_eq_true,
      if_false, List.length_cons]
    rw [Nat.add_right_comm, Nat.add_assoc]

theorem Reads.single {raw line : Bytes} {o : Outline} {s : Section} {p : Outline × Section}
    (hraw : Shows raw line) (hline : ∀ number, readLine number line o s = .ok p) :
    Reads [raw] (o, s) p :=
  .cons hraw hline .nil

end Outline

/-! ## The lines of each part -/

open Outline

section Parts

variable (o : Outline)

theorem headerName?_text {name : Bytes} (h : IsName name) :
    headerName? (utf8 "module " ++ name ++ utf8 " (") = some name := by
  have hopen : utf8 " (" = utf8 " " ++ utf8 "(" := rfl
  have htrim : trim (encodeChars [] ++ name ++ encodeChars [' ']) = name :=
    h.tight.trim rfl (by decide)
  exact headerName?_eq_some_iff.mpr ⟨name ++ utf8 " ", by simp [hopen], htrim.symm⟩

theorem reads_header {name : Bytes} (h : IsName name) :
    Reads [utf8 "module " ++ name ++ utf8 " ( "] (o, .header)
      (⟨name, o.ports, o.stmts⟩, .ports) := by
  have hblank : utf8 " ( " = utf8 " (" ++ utf8 " " := rfl
  have hword : utf8 "module " = utf8 "module" ++ utf8 " " := rfl
  have hopen : utf8 " (" = utf8 " " ++ utf8 "(" := rfl
  have hspace : Made inLine (utf8 " ") := .of_utf8 (by decide)
  have ht : Tight (utf8 "module " ++ name ++ utf8 " (") := by
    simpa [hword, hopen] using
      isName_module.tight.surround ((hspace.append h.made_inLine).append hspace)
        (.of_utf8 (s := "(") (by decide) (by decide))
  have hpre : utf8 "module " <+: utf8 "module " ++ name ++ utf8 " (" := by
    simp
  have hshows := shows_of_tight (utf8 "module ") [] ht hpre (by decide) rfl
  rw [encodeChars_nil, List.nil_append] at hshows
  rw [hblank, ← List.append_assoc]
  refine .single hshows fun number => ?_
  rw [readLine, headerName?_text h]

theorem Port.clash (p : Port) : Clash (directionWord p.direction) (utf8 "//") ∧
    Clash (directionWord p.direction) (utf8 ");") := by
  cases p.direction <;> decide

theorem Port.isPrefix_text (p : Port) : directionWord p.direction <+: p.text := by
  simp [Port.text]

/-- A line that shows a port, with or without a comma, adds the port. -/
theorem Port.reads_of_shows {p : Port} (hp : IsName p.name) {raw line : Bytes}
    (hraw : Shows raw line) (hpre : p.text <+: line) (hline : dropSuffix (utf8 ",") line = p.text) :
    Reads [raw] (o, .ports) (⟨o.name, o.ports ++ [p.text], o.stmts⟩, .ports) := by
  have htrim : trim (encodeChars [] ++ p.text ++ encodeChars []) = p.text :=
    (Port.tight hp).trim rfl rfl
  rw [encodeChars_nil, List.nil_append, List.append_nil] at htrim
  refine .single hraw fun number => ?_
  rw [readLine, if_neg (p.clash.2.ne (p.isPrefix_text.trans hpre)), hline, htrim]

theorem Port.reads {p : Port} (hp : IsName p.name) (isLast : Bool) :
    Reads [p.raw isLast] (o, .ports) (⟨o.name, o.ports ++ [p.text], o.stmts⟩, .ports) := by
  cases isLast with
  | true =>
    have hcomma : (0x2C : UInt8) ∉ p.text :=
      (Port.made hp).notMem (a := ',') rfl (by decide) (by decide)
    have hshows := shows_of_tight _ ['\t'] (Port.tight hp) p.isPrefix_text p.clash.1 (by decide)
    exact Port.reads_of_shows o hp hshows (List.prefix_refl _) (dropSuffix_of_notMem hcomma)
  | false =>
    have ht : Tight (p.text ++ [] ++ utf8 ",") :=
      (Port.tight hp).surround (p := inLine) ⟨[], rfl, by simp⟩ (.of_utf8 (by decide) (by decide))
    rw [List.append_nil] at ht
    have hpre := List.prefix_append p.text (utf8 ",")
    have hshows := shows_of_tight _ ['\t'] ht (p.isPrefix_text.trans hpre) p.clash.1 (by decide)
    have hraw : p.raw false = encodeChars ['\t'] ++ (p.text ++ utf8 ",") ++ utf8 " " := by
      have htab : encodeChars ['\t'] = utf8 "\t" := rfl
      have hblank : utf8 ", " = utf8 "," ++ utf8 " " := rfl
      rw [htab, Port.raw, hblank]
      simp only [List.append_assoc, Bool.false_eq_true, if_false]
    rw [hraw]
    exact Port.reads_of_shows o hp hshows hpre (dropSuffix_append _ _)

theorem reads_close : Reads [utf8 "); "] (o, .ports) (o, .body) :=
  .single (shows_of_tight (utf8 ");") [] (.of_utf8 (by decide) (by decide)) (List.prefix_refl _)
    (by decide) rfl) fun _ => rfl

theorem Stmt.WellFormed.reads {s : Stmt} (h : s.WellFormed) :
    Reads [s.raw] (o, .body) (⟨o.name, o.ports, o.stmts ++ [s.text]⟩, .body) := by
  obtain ⟨word, mid, hword, -, he⟩ := h.exists_word
  have hpre : word <+: s.text := by
    simp [he]
  have hclash : Clash word (utf8 "//") ∧ Clash word (utf8 "endmodule") := by
    rcases hword with rfl | rfl <;> decide
  refine .single (shows_of_tight word ['\t'] h.tight hpre hclash.1 (by decide)) fun number => ?_
  rw [readLine, if_neg (hclash.2.ne hpre)]

theorem reads_end : Reads [utf8 "endmodule "] (o, .body) (o, .finished) :=
  .single (shows_of_tight (utf8 "endmodule") [] isName_endmodule.tight (List.prefix_refl _)
    (by decide) rfl) fun _ => rfl

theorem reads_rawPorts {ps : List Port} (hps : ∀ p ∈ ps, IsName p.name) (count : Nat) :
    Reads ((Module.rawPorts ps).take count) (o, .ports)
      (⟨o.name, o.ports ++ (ps.map Port.text).take count, o.stmts⟩, .ports) := by
  induction ps generalizing o count with
  | nil => simpa [Module.rawPorts] using Reads.nil
  | cons p ps ih =>
    obtain ⟨hp, hps⟩ := List.forall_mem_cons.mp hps
    cases count with
    | zero => simpa using Reads.nil
    | succ count =>
      have h := (Port.reads o hp ps.isEmpty).append (ih _ hps count)
      simpa [Module.rawPorts] using h

theorem reads_rawStmts {ss : List Stmt} (hss : ∀ s ∈ ss, s.WellFormed) (count : Nat) :
    Reads ((ss.map Stmt.raw).take count) (o, .body)
      (⟨o.name, o.ports, o.stmts ++ (ss.map Stmt.text).take count⟩, .body) := by
  induction ss generalizing o count with
  | nil => simpa using Reads.nil
  | cons s ss ih =>
    obtain ⟨hs, hss⟩ := List.forall_mem_cons.mp hss
    cases count with
    | zero => simpa using Reads.nil
    | succ count =>
      have h := (hs.reads o).append (ih _ hss count)
      simpa using h

end Parts

/-! ## The lines of a module -/

namespace Module

variable {m : Module}

def outline (m : Module) : Outline := ⟨m.name, m.ports.map Port.text, m.stmts.map Stmt.text⟩

theorem length_rawLines (m : Module) :
    m.rawLines.length = m.ports.length + m.stmts.length + 3 := by
  simp only [rawLines, List.length_cons, List.length_append, List.length_map, List.length_nil,
    length_rawPorts]
  omega

theorem upTo_outline (m : Module) (k : Nat) :
    m.outline.upTo (k + 1) = ⟨m.name, (m.ports.map Port.text).take k,
      (m.stmts.map Stmt.text).take (k - m.ports.length - 1)⟩ := by
  have hk : k + 1 - (m.ports.length + 2) = k - m.ports.length - 1 := by omega
  simp [Outline.upTo, outline, hk]

theorem WellFormed.reads_take (h : m.WellFormed) (count : Nat) :
    ∃ s, Reads (m.rawLines.take count) (Outline.empty, .header) (m.outline.upTo count, s) ∧
      (m.rawLines.length ≤ count → s = .finished) := by
  rw [length_rawLines]
  cases count with
  | zero => exact ⟨.header, by simpa [Outline.upTo, Outline.empty] using Reads.nil, by simp⟩
  | succ k =>
    have hports := (reads_header Outline.empty h.name).append (reads_rawPorts _ h.ports k)
    rw [upTo_outline, rawLines, List.take_succ_cons, List.take_append, length_rawPorts]
    -- Lines are left for the statements only after the line that closes the port list.
    cases hk : k - m.ports.length with
    | zero => exact ⟨.ports, by simpa [Outline.empty] using hports, by omega⟩
    | succ j =>
      have hstmts := (hports.append (reads_close _)).append (reads_rawStmts _ h.stmts j)
      rw [List.take_succ_cons, List.take_append, List.length_map]
      cases hj : j - m.stmts.length with
      | zero => exact ⟨.body, by simpa [Outline.empty] using hstmts, by omega⟩
      | succ l =>
        exact ⟨.finished, by simpa [Outline.empty] using hstmts.append (reads_end _), fun _ => rfl⟩

theorem mem_rawPorts {ps : List Port} {raw : Bytes} (h : raw ∈ rawPorts ps) :
    ∃ p ∈ ps, ∃ isLast, raw = p.raw isLast := by
  induction ps with
  | nil => cases h
  | cons p ps ih =>
    rcases List.mem_cons.mp h with rfl | h
    · exact ⟨p, List.mem_cons_self, _, rfl⟩
    · obtain ⟨q, hq, hraw⟩ := ih h
      exact ⟨q, List.mem_cons_of_mem p hq, hraw⟩

theorem WellFormed.made (h : m.WellFormed) : ∀ raw ∈ m.rawLines, Made inLine raw := by
  have htab : Made inLine (utf8 "\t") := .of_utf8 (by decide)
  have hspace : Made inLine (utf8 " ") := .of_utf8 (by decide)
  have hheader : Made inLine (utf8 "module " ++ m.name ++ utf8 " ( ") :=
    ((Made.of_utf8 (by decide)).append h.name.made_inLine).append (.of_utf8 (by decide))
  intro raw hraw
  simp only [rawLines, List.mem_cons, List.mem_append, List.mem_map, List.not_mem_nil,
    or_false] at hraw
  rcases hraw with rfl | hport | rfl | ⟨s, hs, rfl⟩ | rfl
  · exact hheader
  · obtain ⟨p, hp, isLast, rfl⟩ := mem_rawPorts hport
    have hp := htab.append ((Port.made (h.ports p hp)).mono fun _ => inLine_of_inPort)
    cases isLast with
    | true => exact hp.append hspace
    | false => exact hp.append (.of_utf8 (by decide))
  · exact .of_utf8 (by decide)
  · exact (htab.append (h.stmts s hs).made).append hspace
  · exact .of_utf8 (by decide)

theorem WellFormed.lines_text (h : m.WellFormed) : lines m.text = m.rawLines ++ [[]] := by
  rw [text_eq, lines_flatMap fun raw hraw => (h.made raw hraw).newline_notMem]

theorem WellFormed.physicalLines_text (h : m.WellFormed) :
    Outline.physicalLines m.text = m.rawLines := by
  simp [Outline.physicalLines, h.lines_text]

/-- A module without long lines is read to its end. -/
theorem WellFormed.read_text (h : m.WellFormed)
    (hshort : ∀ raw ∈ m.rawLines, raw.length < lineLimit) :
    Outline.read m.text = (m.outline, none) := by
  obtain ⟨s, hreads, hs⟩ := h.reads_take m.rawLines.length
  obtain rfl := hs (Nat.le_refl _)
  have hall : m.outline.upTo m.rawLines.length = m.outline := by
    rw [length_rawLines, upTo_outline, List.take_of_length_le, List.take_of_length_le]
    · rfl
    · rw [List.length_map]
      omega
    · rw [List.length_map]
      omega
  rw [List.take_length, hall] at hreads
  have hrun := readLines_of_reads hreads hshort 1 []
  rw [List.append_nil] at hrun
  rw [Outline.read, h.physicalLines_text]
  exact hrun

/-- A long line stops the reading, and what the lines before it say is kept. -/
theorem WellFormed.read_text_of_long (h : m.WellFormed) {count : Nat} {raw : Bytes}
    (hraw : m.rawLines[count]? = some raw) (hlong : lineLimit ≤ raw.length)
    (hshort : ∀ earlier ∈ m.rawLines.take count, earlier.length < lineLimit) :
    Outline.read m.text = (m.outline.upTo count, some .lineTooLong) := by
  obtain ⟨s, hreads, -⟩ := h.reads_take count
  obtain ⟨hlt, rfl⟩ := List.getElem?_eq_some_iff.mp hraw
  have hsplit : m.rawLines =
      m.rawLines.take count ++ m.rawLines[count] :: m.rawLines.drop (count + 1) := by
    rw [← List.drop_eq_getElem_cons hlt, List.take_append_drop]
  rw [Outline.read, h.physicalLines_text, hsplit]
  refine (readLines_of_reads hreads hshort 1 _).trans ?_
  rw [readLines, if_pos hlong]

/-- The outline of a module is the one of the design it was lowered from. -/
theorem outline_eq {m : Module} {d : Design} {collapse : Bool} (h : m.raise = d.norm collapse) :
    m.outline = d.outline collapse := by
  have hport (p : Port) : p.raise.line = p.text := by
    obtain ⟨direction, name⟩ := p
    cases direction <;> rfl
  have hstmt (s : Stmt) : s.raise.line false = s.text := by
    cases s <;> rfl
  have hport' (p : Bitwire.Port) : p.norm.line = p.line := rfl
  have hstmt' (s : Bitwire.Stmt) : (s.norm collapse).line false = s.line collapse := by
    cases s <;> cases collapse <;> rfl
  have hcongr := congrArg (Design.outline false) h
  simpa [Design.outline, Module.raise, Design.norm, outline, Function.comp_def, hport, hstmt,
    hport', hstmt'] using hcongr

end Module

end Verilog

open Verilog (Outline)

/-- The lines of a compiled assignment. -/
theorem compile_assigned {e : Expr} (hl : e.Lexable) (hs : e.Stratified) (collapse : Bool) :
    ∃ text, Design.parse (assignmentOf e.text) = .ok (assigned e) ∧
      compile (assignmentOf e.text) collapse = .ok text ∧
      lines text = [utf8 "module m ( ", utf8 "); ", utf8 "\tassign y = " ++ e.text ++ utf8 "; ",
        utf8 "endmodule ", []] := by
  obtain ⟨e', hparse, he⟩ := exists_reread hl
  obtain rfl := he hs
  obtain ⟨m, hcompile, hm, hraise⟩ := compile_of_parse hparse collapse
  obtain rfl : m = ⟨utf8 "m", [], [.assign (utf8 "y") e']⟩ := Verilog.Module.raise_injective hraise
  have hheader : utf8 "module m ( " = utf8 "module " ++ utf8 "m" ++ utf8 " ( " := rfl
  have hfront : utf8 "\tassign y = " = utf8 "\t" ++ utf8 "assign " ++ utf8 "y" ++ utf8 " = " := rfl
  have hback : utf8 "; " = utf8 ";" ++ utf8 " " := rfl
  refine ⟨_, hparse, hcompile, hm.lines_text.trans ?_⟩
  simp [Verilog.Module.rawLines, Verilog.Module.rawPorts, Verilog.Stmt.raw, Verilog.Stmt.text,
    hheader, hfront, hback]

/-- A compiled source is read back to the outline of its design, and if a line of it is too long to
the part of the outline before the first such line. -/
theorem read_compile_eq_outline (src : Bytes) (collapse : Bool) (d : Design)
    (h : Design.parse src = .ok d) :
    ∃ text, compile src collapse = .ok text ∧
      ((∀ line ∈ lines text, line.length ≤ 65535) →
        Outline.read text = (d.outline collapse, none)) ∧
      ∀ count line, (lines text)[count]? = some line → 65535 < line.length →
        (∀ earlier ∈ (lines text).take count, earlier.length ≤ 65535) →
        ∃ e, Outline.read text = ((d.outline collapse).upTo count, some e) ∧
          e.message = utf8 "bufio.Scanner: token too long" := by
  obtain ⟨m, hcompile, hm, hraise⟩ := compile_of_parse h collapse
  refine ⟨m.text, hcompile, ?_, ?_⟩ <;> rw [hm.lines_text, ← Verilog.Module.outline_eq hraise]
  · intro hshort
    exact hm.read_text fun raw hraw => Nat.lt_succ_of_le (hshort raw (List.mem_append_left _ hraw))
  · intro count line hline hlong hshort
    have hlt : count < m.rawLines.length := by
      by_contra hge
      rw [List.getElem?_append_right (Nat.not_lt.mp hge)] at hline
      obtain rfl := List.mem_singleton.mp (List.mem_of_getElem? hline)
      simp at hlong
    rw [List.getElem?_append_left hlt] at hline
    rw [List.take_append_of_le_length hlt.le] at hshort
    exact ⟨.lineTooLong, hm.read_text_of_long hline hlong fun raw hraw =>
      Nat.lt_succ_of_le (hshort raw hraw), rfl⟩

/-- Names that are words of Verilog confuse no line with another, and a literal can be too long. -/
theorem read_compile_words_and_long_literal :
    let src := utf8
      "top mod module(in endmodule:bit,out wire:bit)\x7bassign=endmodule;let x:bit=~y;\x7d"
    let d : Design := ⟨utf8 "module",
      [⟨.input, utf8 "endmodule", .bit⟩, ⟨.output, utf8 "wire", .bit⟩],
      [.assign (utf8 "assign") (.name (utf8 "endmodule")),
        .declareAssign (utf8 "x") .bit (.unary .negate (.name (utf8 "y")))]⟩
    let long := Expr.literal (encodeChars (List.replicate 65536 '1'))
    (Design.parse src = .ok d ∧ ∃ text, compile src false = .ok text ∧
      Outline.read text = (⟨utf8 "module", [utf8 "input wire endmodule", utf8 "output wire wire"],
        [utf8 "assign assign = endmodule;", utf8 "wire x = ~y;"]⟩, none)) ∧
    Design.parse (assignmentOf long.text) = .ok (assigned long) ∧
      ∃ text e, compile (assignmentOf long.text) true = .ok text ∧
        Outline.read text = (⟨utf8 "m", [], []⟩, some e) ∧
        e.message = utf8 "bufio.Scanner: token too long" := by
  intro src d long
  refine ⟨?_, ?_⟩
  · have h : Design.parse src = .ok d := rfl
    let m : Verilog.Module := ⟨utf8 "module",
      [⟨.input, utf8 "endmodule"⟩, ⟨.output, utf8 "wire"⟩],
      [.assign (utf8 "assign") (.name (utf8 "endmodule")),
        .wireAssign (utf8 "x") (.unary .negate (.name (utf8 "y")))]⟩
    have htext : compile src false = .ok m.text := by
      rw [compile, h]
      rfl
    obtain ⟨text, hcompile, hread, -⟩ := read_compile_eq_outline src false d h
    obtain rfl := Except.ok.inj (hcompile.symm.trans htext)
    exact ⟨h, m.text, htext, hread (by decide +kernel)⟩
  · have hlong : long.Lexable := ⟨'1', List.replicate 65535 '1', rfl, fun x hx => by
      rw [List.eq_of_mem_replicate (n := 65536) hx]
      decide⟩
    obtain ⟨_, h, htext, hlines⟩ := compile_assigned hlong trivial true
    obtain ⟨text, hcompile, -, hread⟩ := read_compile_eq_outline _ true _ h
    obtain rfl := Except.ok.inj (hcompile.symm.trans htext)
    have hlength : long.text.length = 65536 := by
      simp only [long, Expr.text, encodeChars, List.length_flatMap, List.map_replicate,
        List.sum_replicate]
      rfl
    rw [hlines] at hread
    obtain ⟨e, hread, hmessage⟩ := hread 2 _ rfl
      (by rw [List.length_append, List.length_append, hlength]; omega) (by decide)
    exact ⟨h, text, e, hcompile, hread, hmessage⟩

end Bitwire
