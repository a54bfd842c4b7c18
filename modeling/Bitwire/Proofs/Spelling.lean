import Bitwire.Command.Options
import Mathlib.Data.List.Forall2

/-! The arguments of a build as spellings of choices. Reading takes one spelling after the other off
the arguments, so that what they set depends on the choices alone: of each setting the last choice
counts, however it was spelled. -/
namespace Bitwire.Command

/-! ## Spellings -/

/-- A setting with a value. -/
inductive Choice
  | input (path : Bytes)
  | output (path : Bytes)
  | collapse (value : Bool)
  deriving DecidableEq, Repr

def Setting.names : Setting → List Bytes
  | input => [utf8 "i", utf8 "input"]
  | output => [utf8 "o", utf8 "output"]
  | collapse => [utf8 "collapse-let"]

/-- One or two dashes and a name of the setting. -/
def Flag (setting : Setting) (text : Bytes) : Prop :=
  ∃ name ∈ setting.names, text = utf8 "-" ++ name ∨ text = utf8 "--" ++ name

/-- The choice that a value makes. Any value is a path, and twelve words are truth values. -/
inductive Means : Setting → Bytes → Choice → Prop
  | input (value : Bytes) : Means .input value (.input value)
  | output (value : Bytes) : Means .output value (.output value)
  | on {word : Bytes} : word ∈ trueWords → Means .collapse word (.collapse true)
  | off {word : Bytes} : word ∈ falseWords → Means .collapse word (.collapse false)

/-- The arguments that spell a choice: a flag and a value in one argument, a flag and a path in two,
or a flag alone. -/
inductive Spells : Choice → List Bytes → Prop
  | joined {setting : Setting} {flag value : Bytes} {c : Choice} :
      Flag setting flag → Means setting value c → Spells c [flag ++ utf8 "=" ++ value]
  | apart {setting : Setting} {flag value : Bytes} {c : Choice} : setting ≠ .collapse →
      Flag setting flag → Means setting value c → Spells c [flag, value]
  | bare {flag : Bytes} : Flag .collapse flag → Spells (.collapse true) [flag]

/-- Arguments that spell choices one after the other; two dashes may stand at their end. -/
def SpellsAll (cs : List Choice) (args : List Bytes) : Prop :=
  ∃ parts stop, List.Forall₂ Spells cs parts ∧ (stop = [] ∨ stop = [utf8 "--"]) ∧
    args = parts.flatten ++ stop

/-! ## What choices come to -/

namespace Choice

def input? : Choice → Option Bytes
  | input path => some path
  | _ => none

def output? : Choice → Option Bytes
  | output path => some path
  | _ => none

def collapse? : Choice → Option Bool
  | collapse value => some value
  | _ => none

def set (s : Settings) : Choice → Settings
  | input path => { s with input := path }
  | output path => { s with output := path }
  | collapse value => { s with collapse := value }

end Choice

/-- The last choice for each setting, where there is one. -/
def Settings.chosen (cs : List Choice) : Settings :=
  ⟨(cs.filterMap Choice.input?).getLast?.getD [], (cs.filterMap Choice.output?).getLast?.getD [],
    (cs.filterMap Choice.collapse?).getLast?.getD false⟩

/-- Choices made one after the other leave the last of each setting. -/
theorem foldl_set (cs : List Choice) (s : Settings) : cs.foldl Choice.set s =
    ⟨(cs.filterMap Choice.input?).getLast?.getD s.input,
      (cs.filterMap Choice.output?).getLast?.getD s.output,
      (cs.filterMap Choice.collapse?).getLast?.getD s.collapse⟩ := by
  induction cs generalizing s with
  | nil => rfl
  | cons c cs ih =>
    rw [List.foldl_cons, ih]
    cases c <;>
      simp [Choice.set, Choice.input?, Choice.output?, Choice.collapse?, List.getLast?_cons]

theorem foldl_set_initial (cs : List Choice) :
    cs.foldl Choice.set Settings.initial = Settings.chosen cs :=
  foldl_set cs Settings.initial

/-! ## One argument -/

theorem ofBody_of_notMem {name : Bytes} (hne : name ≠ []) (hdash : name.head? ≠ some dash)
    (h : equalsSign ∉ name) (value : Option Bytes) :
    Argument.ofBody (name ++ value.elim [] (utf8 "=" ++ ·)) = .option name value := by
  obtain ⟨b, rest, rfl⟩ := List.exists_cons_of_ne_nil hne
  have hb : ¬ (b = dash ∨ b = equalsSign) := by
    rintro (rfl | rfl)
    · exact hdash rfl
    · exact h List.mem_cons_self
  have hall : ∀ x ∈ b :: rest, (x != equalsSign) = true := by
    intro x hx
    rw [bne_iff_ne]
    rintro rfl
    exact h hx
  have htail : (value.elim [] (utf8 "=" ++ ·)).takeWhile (· != equalsSign) = [] ∧
      (value.elim [] (utf8 "=" ++ ·)).dropWhile (· != equalsSign) =
        value.elim [] (utf8 "=" ++ ·) := by
    cases value with
    | none => exact ⟨rfl, rfl⟩
    | some value => exact ⟨rfl, rfl⟩
  rw [List.cons_append, Argument.ofBody, if_neg hb, ← List.cons_append,
    List.takeWhile_append_of_pos hall, List.dropWhile_append_of_pos hall, htail.1, htail.2,
    List.append_nil]
  cases value <;> rfl

theorem ofBody_cases (body : Bytes) : Argument.ofBody body = .malformed ∨
    ∃ name value, body = name ++ value.elim [] (utf8 "=" ++ ·) ∧
      Argument.ofBody body = .option name value := by
  have hsplit : body.takeWhile (· != equalsSign) ++ body.dropWhile (· != equalsSign) = body :=
    List.takeWhile_append_dropWhile
  have hstop := List.head?_dropWhile_not (· != equalsSign) body
  cases body with
  | nil => exact Or.inl rfl
  | cons b rest =>
    rw [Argument.ofBody]
    split
    · exact Or.inl rfl
    · refine Or.inr ⟨(b :: rest).takeWhile (· != equalsSign), ?_⟩
      cases hd : (b :: rest).dropWhile (· != equalsSign) with
      | nil =>
        rw [hd] at hsplit
        exact ⟨none, hsplit.symm, rfl⟩
      | cons x value =>
        rw [hd] at hsplit hstop
        obtain rfl : x = equalsSign := by simpa using hstop
        exact ⟨some value, hsplit.symm, rfl⟩

theorem ofBytes_of_body {text body : Bytes} (hne : body ≠ []) (hdash : body.head? ≠ some dash)
    (h : text = utf8 "-" ++ body ∨ text = utf8 "--" ++ body) :
    Argument.ofBytes text = Argument.ofBody body := by
  obtain ⟨b, rest, rfl⟩ := List.exists_cons_of_ne_nil hne
  rcases h with rfl | rfl
  · have hb : b ≠ dash := fun hb => hdash (congrArg some hb)
    have htext : utf8 "-" ++ b :: rest = dash :: b :: rest := rfl
    rw [htext, Argument.ofBytes, if_neg (not_not.mpr rfl), if_pos hb]
  · rfl

/-- What is known of a text by the argument it is read as. -/
inductive Form : Bytes → Argument → Prop
  | operand {text : Bytes} : Form text .operand
  | malformed {text : Bytes} : Form text .malformed
  | endOfOptions : Form (utf8 "--") .endOfOptions
  | option {dashes name : Bytes} {value : Option Bytes} :
      (dashes = utf8 "-" ∨ dashes = utf8 "--") →
      Form (dashes ++ name ++ value.elim [] (utf8 "=" ++ ·)) (.option name value)

theorem form_ofBody {dashes : Bytes} (h : dashes = utf8 "-" ∨ dashes = utf8 "--") (body : Bytes) :
    Form (dashes ++ body) (Argument.ofBody body) := by
  rcases ofBody_cases body with hb | ⟨name, value, rfl, hb⟩
  · rw [hb]
    exact .malformed
  · rw [hb, ← List.append_assoc]
    exact .option h

theorem form_ofBytes (text : Bytes) : Form text (Argument.ofBytes text) := by
  unfold Argument.ofBytes
  split
  · next a b rest =>
    by_cases ha : a = dash
    · subst ha
      rw [if_neg (not_not.mpr rfl)]
      by_cases hb : b = dash
      · subst hb
        rw [if_neg (not_not.mpr rfl)]
        split
        · next hrest =>
          rw [hrest]
          exact .endOfOptions
        · exact form_ofBody (Or.inr rfl) rest
      · rw [if_pos hb]
        exact form_ofBody (Or.inl rfl) (b :: rest)
    · rw [if_pos ha]
      exact .operand
  · exact .operand

theorem ofName?_eq_some_iff {name : Bytes} {setting : Setting} :
    Setting.ofName? name = some setting ↔ name ∈ setting.names := by
  constructor
  · intro h
    unfold Setting.ofName? at h
    split at h
    · next hname =>
      cases h
      simpa [Setting.names] using hname
    · split at h
      · next hname =>
        cases h
        simpa [Setting.names] using hname
      · split at h
        · next hname =>
          cases h
          simpa [Setting.names] using hname
        · cases h
  · have hall : ∀ name ∈ setting.names, Setting.ofName? name = some setting := by
      cases setting <;> decide
    exact hall name

/-- A flag, with or without a value, is an option of its setting. -/
theorem Flag.ofBytes_eq {setting : Setting} {flag : Bytes} (h : Flag setting flag)
    (value : Option Bytes) : ∃ name, Setting.ofName? name = some setting ∧
      Argument.ofBytes (flag ++ value.elim [] (utf8 "=" ++ ·)) = .option name value := by
  obtain ⟨name, hname, hflag⟩ := h
  have hall : ∀ name ∈ setting.names,
      name ≠ [] ∧ name.head? ≠ some dash ∧ equalsSign ∉ name := by
    cases setting <;> decide
  obtain ⟨hne, hdash, heq⟩ := hall name hname
  refine ⟨name, ofName?_eq_some_iff.mpr hname, ?_⟩
  rw [← ofBody_of_notMem hne hdash heq value]
  refine ofBytes_of_body (List.append_ne_nil_of_left_ne_nil hne _) ?_ ?_
  · rwa [List.head?_append_of_ne_nil _ hne]
  · rcases hflag with rfl | rfl
    · exact Or.inl (List.append_assoc ..)
    · exact Or.inr (List.append_assoc ..)

/-! ## Reading one spelling after the other -/

theorem boolean?_eq_some_iff {word : Bytes} {value : Bool} :
    boolean? word = some value ↔ Means .collapse word (.collapse value) := by
  have hdisjoint : ∀ word ∈ falseWords, word ∉ trueWords := by decide
  constructor
  · intro h
    unfold boolean? at h
    split at h
    · next hword =>
      cases h
      exact .on hword
    · split at h
      · next hword =>
        cases h
        exact .off hword
      · cases h
  · intro h
    cases h with
    | on hword => exact if_pos hword
    | off hword => rw [boolean?, if_neg (hdisjoint word hword), if_pos hword]

theorem exists_means {setting : Setting} (h : setting ≠ .collapse) (value : Bytes) :
    ∃ c, Means setting value c := by
  cases setting with
  | input => exact ⟨_, .input value⟩
  | output => exact ⟨_, .output value⟩
  | collapse => exact absurd rfl h

/-- A spelling is read as its choice, whatever follows. -/
theorem Spells.read_append {c : Choice} {part : List Bytes} (h : Spells c part) (s : Settings)
    (rest : List Bytes) : s.read (part ++ rest) = (c.set s).read rest := by
  cases h with
  | @joined setting flag value c hflag hmeans =>
    obtain ⟨name, hname, hof⟩ := hflag.ofBytes_eq (some value)
    rw [Option.elim_some, ← List.append_assoc] at hof
    rw [List.singleton_append, Settings.read.eq_def]
    cases hmeans with
    | input | output => simp only [hof, hname, Choice.set]
    | on hword => simp only [hof, hname, boolean?_eq_some_iff.mpr (.on hword), Choice.set]
    | off hword => simp only [hof, hname, boolean?_eq_some_iff.mpr (.off hword), Choice.set]
  | @apart setting flag value c hne hflag hmeans =>
    obtain ⟨name, hname, hof⟩ := hflag.ofBytes_eq none
    rw [Option.elim_none, List.append_nil] at hof
    rw [List.cons_append, List.singleton_append, Settings.read.eq_def]
    cases hmeans with
    | input | output => simp only [hof, hname, Choice.set]
    | on | off => exact absurd rfl hne
  | @bare flag hflag =>
    obtain ⟨name, hname, hof⟩ := hflag.ofBytes_eq none
    rw [Option.elim_none, List.append_nil] at hof
    rw [List.singleton_append, Settings.read.eq_def]
    simp only [hof, hname, Choice.set]

/-- An error that is about an argument, not about what the arguments leave out. -/
def OptionError.InArgument (e : OptionError) : Prop := e ≠ .noInput ∧ e ≠ .noOutput

/-- An option of a setting is a spelling of a choice, or it is refused: for a word that is no truth
value, or when the arguments end before its path. -/
theorem spells_or_refused {setting : Setting} {argument flag name : Bytes} {value : Option Bytes}
    (hflag : Flag setting flag) (htext : argument = flag ++ value.elim [] (utf8 "=" ++ ·))
    (hname : Setting.ofName? name = some setting)
    (hof : Argument.ofBytes argument = .option name value) (s : Settings) (rest : List Bytes) :
    (∃ c part rest', Spells c part ∧ argument :: rest = part ++ rest') ∨
      ∃ s' e, s.read (argument :: rest) = (s', some e) ∧ e.InArgument := by
  by_cases hcollapse : setting = .collapse
  · subst hcollapse
    cases value with
    | none =>
      rw [Option.elim_none, List.append_nil] at htext
      exact Or.inl ⟨_, _, rest, .bare hflag, by rw [htext, List.singleton_append]⟩
    | some word =>
      rw [Option.elim_some, ← List.append_assoc] at htext
      cases hword : boolean? word with
      | some value =>
        exact Or.inl ⟨_, _, rest, .joined hflag (boolean?_eq_some_iff.mp hword),
          by rw [htext, List.singleton_append]⟩
      | none =>
        refine Or.inr ⟨{ s with collapse := false }, .badBoolean word, ?_, nofun, nofun⟩
        rw [Settings.read.eq_def]
        simp only [hof, hname, hword]
  · cases value with
    | some value =>
      rw [Option.elim_some, ← List.append_assoc] at htext
      obtain ⟨c, hc⟩ := exists_means hcollapse value
      exact Or.inl ⟨c, _, rest, .joined hflag hc, by rw [htext, List.singleton_append]⟩
    | none =>
      rw [Option.elim_none, List.append_nil] at htext
      cases rest with
      | cons value rest =>
        obtain ⟨c, hc⟩ := exists_means hcollapse value
        exact Or.inl ⟨c, _, rest, .apart hcollapse hflag hc, by rw [htext]; rfl⟩
      | nil =>
        refine Or.inr ⟨s, .noValue name, ?_, nofun, nofun⟩
        rw [Settings.read.eq_def]
        cases setting with
        | input | output => simp only [hof, hname]
        | collapse => exact absurd rfl hcollapse

/-- What one step of reading can do: it ends with the arguments, takes a spelling off them, or is
refused for an argument. -/
theorem read_cases (s : Settings) (args : List Bytes) :
    (args = [] ∨ args = [utf8 "--"]) ∧ s.read args = (s, s.check) ∨
      (∃ c part rest, Spells c part ∧ args = part ++ rest) ∨
      ∃ s' e, s.read args = (s', some e) ∧ e.InArgument := by
  cases args with
  | nil => exact Or.inl ⟨Or.inl rfl, rfl⟩
  | cons argument rest =>
    have hform := form_ofBytes argument
    generalize hof : Argument.ofBytes argument = form at hform
    cases hform with
    | operand =>
      refine Or.inr (Or.inr ⟨s, .unexpectedArgument argument, ?_, nofun, nofun⟩)
      rw [Settings.read.eq_def]
      simp only [hof]
    | malformed =>
      refine Or.inr (Or.inr ⟨s, .badForm argument, ?_, nofun, nofun⟩)
      rw [Settings.read.eq_def]
      simp only [hof]
    | endOfOptions =>
      cases rest with
      | nil => exact Or.inl ⟨Or.inr rfl, rfl⟩
      | cons next rest =>
        exact Or.inr (Or.inr ⟨s, .unexpectedArgument next, rfl, nofun, nofun⟩)
    | @option dashes name value hdashes =>
      cases hname : Setting.ofName? name with
      | none =>
        refine Or.inr (Or.inr ⟨s, if name = utf8 "h" ∨ name = utf8 "help" then .help
          else .undefined name, ?_, ?_⟩)
        · rw [Settings.read.eq_def]
          simp only [hof, hname]
        · split <;> exact ⟨nofun, nofun⟩
      | some setting =>
        have hflag : Flag setting (dashes ++ name) :=
          ⟨name, ofName?_eq_some_iff.mp hname,
            hdashes.imp (fun h => by rw [h]) (fun h => by rw [h])⟩
        exact Or.inr (spells_or_refused hflag rfl hname hof s rest)

/-! ## Reading all arguments -/

theorem SpellsAll.read_eq {cs : List Choice} {args : List Bytes} (h : SpellsAll cs args)
    (s : Settings) : s.read args = (cs.foldl Choice.set s, (cs.foldl Choice.set s).check) := by
  obtain ⟨parts, stop, hparts, hstop, rfl⟩ := h
  induction hparts generalizing s with
  | nil => rcases hstop with rfl | rfl <;> rfl
  | cons hc _ ih =>
    rw [List.flatten_cons, List.append_assoc, hc.read_append, ih, List.foldl_cons]

/-- Arguments none of which is refused are all spellings. -/
theorem exists_spellsAll {s s' : Settings} {args : List Bytes} {stop : Option OptionError}
    (h : s.read args = (s', stop)) (hstop : ∀ e, stop = some e → ¬ e.InArgument) :
    ∃ cs, SpellsAll cs args := by
  induction hn : args.length using Nat.strongRecOn generalizing s args with
  | ind n ih =>
    rcases read_cases s args with ⟨hargs, -⟩ | ⟨c, part, rest, hc, rfl⟩ | ⟨s'', e, hread, he⟩
    · exact ⟨[], [], args, .nil, hargs, rfl⟩
    · -- a spelling takes up an argument at least, so that fewer are left
      have hpos : 0 < part.length := by
        cases hc <;> exact Nat.succ_pos _
      rw [hc.read_append] at h
      obtain ⟨cs, parts, stop, hparts, hend, rfl⟩ :=
        ih rest.length (by rw [← hn, List.length_append]; omega) h rfl
      exact ⟨c :: cs, part :: parts, stop, .cons hc hparts, hend, (List.append_assoc ..).symm⟩
    · rw [h] at hread
      cases hread
      exact absurd he (hstop e rfl)

/-- Arguments are read without one being refused exactly when they spell choices, and then to what
the choices come to. -/
theorem readOptions_eq_iff {args : List Bytes} {s : Settings} {stop : Option OptionError}
    (hstop : ∀ e, stop = some e → ¬ e.InArgument) :
    readOptions args = (s, stop) ↔
      ∃ cs, SpellsAll cs args ∧ s = Settings.chosen cs ∧ stop = s.check := by
  have hread {cs : List Choice} (hcs : SpellsAll cs args) :
      readOptions args = (Settings.chosen cs, (Settings.chosen cs).check) := by
    rw [readOptions, hcs.read_eq, foldl_set_initial]
  constructor
  · intro h
    obtain ⟨cs, hcs⟩ := exists_spellsAll h hstop
    rw [hread hcs] at h
    cases h
    exact ⟨cs, hcs, rfl, rfl⟩
  · rintro ⟨cs, hcs, rfl, rfl⟩
    exact hread hcs

/-- What is missing, the input before the output. -/
theorem check_eq_iff (s : Settings) :
    (none = s.check ↔ s.input ≠ [] ∧ s.output ≠ []) ∧ (some .noInput = s.check ↔ s.input = []) ∧
      (some .noOutput = s.check ↔ s.input ≠ [] ∧ s.output = []) := by
  unfold Settings.check
  by_cases hinput : s.input = []
  · simp [hinput]
  · by_cases houtput : s.output = []
    · simp [hinput, houtput]
    · simp [hinput, houtput]

/-- The arguments of a build are accepted exactly when they spell choices, in whatever way, and the
last choices of input and output are not empty; the settings are then the last choices. Where the
choices leave out a file, the error says so, for the input first. -/
theorem readOptions_iff_spelled (args : List Bytes) :
    (∀ s, readOptions args = (s, none) ↔ ∃ cs, SpellsAll cs args ∧ s = Settings.chosen cs ∧
      s.input ≠ [] ∧ s.output ≠ []) ∧
    (∀ s, readOptions args = (s, some .noInput) ↔ ∃ cs, SpellsAll cs args ∧
      s = Settings.chosen cs ∧ s.input = []) ∧
    (∀ s, readOptions args = (s, some .noOutput) ↔ ∃ cs, SpellsAll cs args ∧
      s = Settings.chosen cs ∧ s.input ≠ [] ∧ s.output = []) ∧
    OptionError.noInput.message = utf8 "missing input file (-i)" ∧
    OptionError.noOutput.message = utf8 "missing output file (-o)" := by
  have hnone : ∀ e, (none : Option OptionError) = some e → ¬ e.InArgument := nofun
  refine ⟨fun s => ?_, fun s => ?_, fun s => ?_, rfl, rfl⟩
  · rw [readOptions_eq_iff hnone]
    simp only [(check_eq_iff s).1]
  · rw [readOptions_eq_iff fun e he h => h.1 (Option.some.inj he).symm]
    simp only [(check_eq_iff s).2.1]
  · rw [readOptions_eq_iff fun e he h => h.2 (Option.some.inj he).symm]
    simp only [(check_eq_iff s).2.2]

/-- A path may look like a flag, and a later choice takes the place of an earlier one. -/
example : readOptions (["-i", "-o", "--output=--input=x", "-collapse-let=F", "--collapse-let",
    "-input", "--", "--"].map utf8) = (⟨utf8 "--", utf8 "--input=x", true⟩, none) := by
  decide

end Bitwire.Command
