import Bitwire.Proofs.Expecting
import Bitwire.Proofs.Pulling

/-! Programs that are cut short, and programs that go on after their end. Every token of a program is
taken at a stage before the end, so that a cut in front of it is blamed on the end of the input, where
the token was waited for. After its last token a program waits for nothing. -/
namespace Bitwire

theorem advance_of_read_ok {ts : List Token} {d : Design}
    (h : (Design.read (ts.map .token)).result = .ok d) :
    Progress.start.advance ts = some (.done d) :=
  (Progress.run_tokens_eq_ok_iff .start 0 0 ts d).mp h

/-- Each cut of a program leaves a stage that takes the token after the cut. -/
theorem exists_stage_at_cut {before after : List Token} {t : Token} {p : Progress}
    (h : Progress.start.advance (before ++ t :: after) = some p) :
    ∃ q r, Progress.start.advance before = some q ∧ q.step t = .next r := by
  obtain ⟨q, hq, hp⟩ := Progress.advance_append_iff.mp h
  obtain ⟨r, hr, -⟩ := Progress.exists_step_of_advance hp
  exact ⟨q, r, hq, hr⟩

/-- A stage before the end makes an end of input its error. -/
theorem read_of_end {before : List Token} {p : Progress} {rest : List Item}
    (ha : Progress.start.advance before = some p) (hp : ∀ d, p ≠ .done d)
    (hrest : pull rest 0 = .failure .endOfInput) :
    Design.read (before.map .token ++ rest) =
      ⟨.error (p.unexpectedAt none (endOf 0 before)), before.length + 1⟩ := by
  rw [Design.read, Progress.run_append ha, Progress.run_of_halts (Progress.halts_of_end hrest p _),
    Progress.finish_of_ne_done hp, Nat.zero_add]

/-- A program cut short in front of any of its tokens fails at the end of the token before the cut,
and the error names the kind of the token after it; only the bracket after `bit` it does not name.
A program that goes on fails at the first token after its end, whatever comes next. -/
theorem read_cut_short_or_overlong (ts : List Token) (d : Design)
    (h : (Design.read (ts.map .token)).result = .ok d) :
    (∀ before t after, ts = before ++ t :: after → ∃ expected : List Bytes, expected ≠ [] ∧
      (t.kind.name ∈ expected ∨ AtBracket before t) ∧
      ∀ rest, pull rest 0 = .failure .endOfInput → Design.read (before.map .token ++ rest) =
        ⟨.error (.source (.unexpected none (endOf 0 before) expected)), before.length + 1⟩) ∧
    ∀ t rest, Design.read (ts.map .token ++ .token t :: rest) =
      ⟨.error (.source (.extraToken t)), ts.length + 1⟩ := by
  have ha := advance_of_read_ok h
  constructor
  · rintro before t after rfl
    obtain ⟨p, q, hp, hs⟩ := exists_stage_at_cut ha
    have hdone := Progress.ne_done_of_step hs
    refine ⟨p.expected.map Kind.name, ?_, ?_, fun rest hrest => read_of_end hp hdone hrest⟩
    · exact mt List.map_eq_nil_iff.mp (Progress.expected_ne_nil hdone)
    · rw [p.name_mem_expected_iff, AtBracket, Progress.getLast?_eq_bitWord_iff hp]
      exact Progress.mem_expected_of_step hs
  · intro t rest
    rw [Design.read, Progress.run_append ha, Progress.run_of_halts (.extra rfl), Nat.zero_add]

/-- A program cut short after `bit`, and the same program with a brace too many. -/
theorem read_cut_at_bracket :
    let ts := tokens (utf8 "top mod m (in a: bit[7:0]) \x7b\x7d")
    let brace : Token := ⟨40, 41, .closeBrace, []⟩
    (Design.read (ts.map .token)).result = .ok ⟨utf8 "m", [⟨.input, utf8 "a", .vector 7 0⟩], []⟩ ∧
      (∃ expected : List Bytes, expected ≠ [] ∧
        (Kind.openBracket.name ∈ expected ∨ AtBracket (ts.take 8) ⟨20, 21, .openBracket, []⟩) ∧
        Design.read ((ts.take 8).map .token) =
          ⟨.error (.source (.unexpected none 20 expected)), 9⟩) ∧
      Design.read (ts.map .token ++ [.token brace]) = ⟨.error (.source (.extraToken brace)), 17⟩ := by
  intro ts brace
  have h : (Design.read (ts.map .token)).result =
    .ok ⟨utf8 "m", [⟨.input, utf8 "a", .vector 7 0⟩], []⟩ := rfl
  obtain ⟨hcut, hextra⟩ := read_cut_short_or_overlong ts _ h
  obtain ⟨expected, hne, hnext, hread⟩ :=
    hcut (ts.take 8) ⟨20, 21, .openBracket, []⟩ (ts.drop 9) rfl
  refine ⟨h, ⟨expected, hne, hnext, ?_⟩, hextra brace []⟩
  exact (congrArg Design.read (List.append_nil _).symm).trans (hread [] rfl)

end Bitwire
