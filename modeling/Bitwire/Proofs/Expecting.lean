import Bitwire.Proofs.Stopping

/-! What an error names as expected is what could have stood in the place. A stage refuses a token
exactly when it does not name its kind, but for the bracket after `bit`, which it takes without
naming it. -/
namespace Bitwire

/-! ## Names of kinds -/

theorem Kind.mem_all_or_unknown (k : Kind) : k ∈ Kind.all ∨ ∃ code, k = .unknown code := by
  cases k with
  | unknown code => exact Or.inr ⟨code, rfl⟩
  | _ => exact Or.inl (by decide)

/-- The name of a kind of the language is the name of no other kind, not even of an unknown one. -/
theorem Kind.eq_of_name_eq {k k' : Kind} (hk : k' ∈ Kind.all) (h : k.name = k'.name) : k = k' := by
  have hinj : ∀ x ∈ Kind.all, ∀ y ∈ Kind.all, x.name = y.name → x = y := by decide +kernel
  have hhead : ∀ y ∈ Kind.all, y.name.head? ≠ some 0x4B := by decide +kernel
  rcases k.mem_all_or_unknown with hall | ⟨code, rfl⟩
  · exact hinj k hall k' hk h
  · exact absurd (congrArg List.head? h).symm (hhead k' hk)

namespace Progress

theorem expected_subset_all (p : Progress) : p.expected ⊆ Kind.all := by
  cases p with
  | afterBit b | afterType b =>
    simp only [expected, Role.closers]
    split <;> decide
  | operator c =>
    simp only [expected, Context.closer]
    split <;> decide
  | _ =>
    simp only [expected]
    decide

theorem name_mem_expected_iff (p : Progress) (k : Kind) :
    k.name ∈ p.expected.map Kind.name ↔ k ∈ p.expected := by
  constructor
  · intro h
    obtain ⟨k', hk', he⟩ := List.mem_map.mp h
    rwa [Kind.eq_of_name_eq (p.expected_subset_all hk') he.symm]
  · exact fun h => List.mem_map_of_mem h

/-! ## What a stage refuses -/

theorem only_eq_unexpected_iff {kind : Kind} {t : Token} {p : Progress} :
    only kind t p = .unexpected ↔ t.kind ∉ [kind] := by
  unfold only
  split
  · next h => simp [h]
  · next h => simp [h]

theorem close_eq_unexpected_iff {b : Binding} {type : BitType} {kind : Kind} :
    b.close type kind = .unexpected ↔ kind ∉ b.role.closers := by
  unfold Binding.close Role.closers
  cases b.role <;> cases kind <;> simp

theorem readOperand_eq_unexpected_iff {c : Context} {level : Level} {t : Token} :
    c.readOperand level t = .unexpected ↔ t.kind ∉ (operand c level).expected := by
  unfold Context.readOperand
  cases t.kind <;> simp [UnaryOp.ofKind?, expected]

theorem readOperator_eq_unexpected_iff {c : Context} {pending : Pending} {value : Expr}
    {t : Token} :
    c.readOperator pending value t = .unexpected ↔
      t.kind ∉ (operator c pending value).expected := by
  unfold Context.readOperator
  cases t.kind <;> simp [BinaryOp.ofKind?, expected]

/-- A stage before the end refuses the tokens of the kinds that it does not name. -/
theorem step_eq_unexpected_iff {p : Progress} {t : Token} (hp : ∀ d, p ≠ .done d) :
    p.step t = .unexpected ↔
      t.kind ∉ p.expected ∧ ¬ (t.kind = .openBracket ∧ ∃ b, p = .afterBit b) := by
  cases p with
  | afterBit b =>
    simp only [step, expected]
    split
    · next h => simp [h]
    · next h => simp [h, close_eq_unexpected_iff]
  | afterType b type => simp [step, expected, close_eq_unexpected_iff]
  | operand c level => simp [step, readOperand_eq_unexpected_iff]
  | operator c pending value => simp [step, readOperator_eq_unexpected_iff]
  | portStart d | stmtStart d =>
    simp only [step, expected]
    cases t.kind <;> simp
  | boundsEnd b high low =>
    simp only [step, expected]
    split
    · next h => cases BitType.ofBounds high low <;> simp [h]
    · next h => simp [h]
  | done d => exact absurd rfl (hp d)
  | _ => simp [step, expected, only_eq_unexpected_iff]

theorem ne_done_of_step {p q : Progress} {t : Token} (h : p.step t = .next q) (d : Design) :
    p ≠ .done d := by
  rintro rfl
  cases h

/-- A stage names the kinds of the tokens that it takes, but for the bracket after `bit`. -/
theorem mem_expected_of_step {p q : Progress} {t : Token} (h : p.step t = .next q) :
    t.kind ∈ p.expected ∨ t.kind = .openBracket ∧ ∃ b, p = .afterBit b := by
  by_contra hn
  rw [(step_eq_unexpected_iff (ne_done_of_step h)).mpr (not_or.mp hn)] at h
  cases h

theorem expected_ne_nil {p : Progress} (hp : ∀ d, p ≠ .done d) : p.expected ≠ [] := by
  cases p with
  | afterBit b | afterType b =>
    simp only [expected, Role.closers]
    split <;> simp
  | done d => exact absurd rfl (hp d)
  | _ => simp [expected]

theorem bindingType_of_bitWord_mem {p : Progress} (h : Kind.bitWord ∈ p.expected) :
    ∃ b, p = .bindingType b := by
  cases p with
  | bindingType b => exact ⟨b, rfl⟩
  | afterBit b | afterType b =>
    simp only [expected, Role.closers] at h
    split at h <;> simp at h
  | operator c =>
    simp only [expected, Context.closer] at h
    split at h <;> simp at h
  | _ => simp [expected] at h

/-- The keyword `bit` is the last token exactly where a bracket may follow. -/
theorem getLast?_eq_bitWord_iff {p : Progress} {ts : List Token} (h : start.advance ts = some p) :
    ts.getLast?.map Token.kind = some .bitWord ↔ ∃ b, p = .afterBit b := by
  constructor
  · intro hl
    obtain ⟨t, ht, hk⟩ := Option.map_eq_some_iff.mp hl
    obtain ⟨us, rfl⟩ := List.getLast?_eq_some_iff.mp ht
    obtain ⟨q, -, hq⟩ := advance_append_iff.mp h
    obtain ⟨r, hs, hr⟩ := exists_step_of_advance hq
    cases hr
    -- a stage that takes the keyword names it, and only one stage does
    have hmem : Kind.bitWord ∈ q.expected := by simpa [hk] using mem_expected_of_step hs
    obtain ⟨b, rfl⟩ := bindingType_of_bitWord_mem hmem
    exact ⟨b, (only_eq_next_iff.mp hs).2⟩
  · rintro ⟨b, rfl⟩
    obtain ⟨us, t, -, ht, rfl⟩ := covers_of_advance h
    simp [ht]

end Progress

/-! ## What an error names -/

/-- The tokens that come before the blamed one, and all of them if the end is blamed. -/
def Precede (before ts : List Token) : Option Token → Prop
  | none => before = ts
  | some t => ∃ after, ts = before ++ t :: after

/-- The one place where a token is taken that no error names. -/
def AtBracket (before : List Token) (t : Token) : Prop :=
  t.kind = .openBracket ∧ before.getLast?.map Token.kind = some .bitWord

/-- An error that names what it expected was met at a stage before the end. -/
theorem exists_stage_of_unexpected {ts : List Token} {token : Option Token} {position : Int}
    {expected : List Bytes} (h : (Design.read (ts.map .token)).result =
      .error (.source (.unexpected token position expected))) :
    ∃ before p, Precede before ts token ∧
      (Design.read (ts.map .token)).pulled = before.length + 1 ∧
      Progress.start.advance before = some p ∧ (∀ d, p ≠ .done d) ∧
      expected = p.expected.map Kind.name := by
  obtain ⟨before, after, p, result, rfl, ha, hh, hr⟩ := exists_read_tokens_eq ts
  rw [hr] at h ⊢
  cases after with
  | nil =>
    cases hh with
    | finished =>
      cases p with
      | done d => cases h
      | _ =>
        cases h
        exact ⟨before, _, (List.append_nil _).symm, rfl, ha, by simp, rfl⟩
  | cons t after =>
    cases hh with
    | unexpected hs =>
      cases h
      refine ⟨before, p, ⟨after, rfl⟩, rfl, ha, ?_, rfl⟩
      rintro d rfl
      cases hs
    | invalid | extra => cases h

theorem read_snoc {before : List Token} {p : Progress} (h : Progress.start.advance before = some p)
    (t : Token) :
    Design.read ((before ++ [t]).map .token) = p.run (endOf 0 before) before.length [.token t] := by
  rw [Design.read, List.map_append, Progress.run_append h, Nat.zero_add]
  rfl

/-- A token that a stage does not refuse is never blamed: only the end that follows it can be. -/
theorem run_singleton_ne_unexpected {p : Progress} {t : Token} (h : p.step t ≠ .unexpected)
    (last : Int) (pulled : Nat) (u : Token) (position : Int) (expected : List Bytes) :
    (p.run last pulled [.token t]).result ≠
      .error (.source (.unexpected (some u) position expected)) := by
  simp only [Progress.run]
  cases hs : p.step t with
  | next q =>
    cases q <;> simp [Progress.finish, Progress.unexpectedAt]
  | unexpected => exact absurd hs h
  | invalid position' => simp
  | extra => simp

/-- The bracket after `bit` is taken, and the first bound is waited for. -/
theorem Progress.run_bracket {b : Binding} {t : Token} (h : t.kind = .openBracket) (last : Int)
    (pulled : Nat) : (afterBit b).run last pulled [.token t] =
      ⟨.error (.source (.unexpected none t.stop [Kind.literal.name])), pulled + 2⟩ := by
  have hstep : (afterBit b).step t = .next (highBound b) := if_pos h
  rw [run, hstep]
  rfl

/-- The kinds that an error names are those that would not have been blamed in the place: a token of
any other kind is blamed there by the same error. Only the bracket after `bit` is not named and
still taken: a reading that ends behind it misses the first bound. -/
theorem blamed_iff_not_expected (ts : List Token) (token : Option Token) (position : Int)
    (expected : List Bytes) (h : (Design.read (ts.map .token)).result =
      .error (.source (.unexpected token position expected))) :
    ∃ before : List Token, Precede before ts token ∧
      (Design.read (ts.map .token)).pulled = before.length + 1 ∧
      (∀ t : Token, t.kind.name ∈ expected → ∀ u position' expected',
        (Design.read ((before ++ [t]).map .token)).result ≠
          .error (.source (.unexpected (some u) position' expected'))) ∧
      (∀ t : Token, t.kind.name ∉ expected → ¬ AtBracket before t →
        (Design.read ((before ++ [t]).map .token)).result =
          .error (.source (.unexpected (some t) t.start expected)) ∧
        (Design.read ((before ++ [t]).map .token)).pulled = before.length + 1) ∧
      (∀ t : Token, AtBracket before t → Design.read ((before ++ [t]).map .token) =
        ⟨.error (.source (.unexpected none t.stop [Kind.literal.name])), before.length + 2⟩) ∧
      (before.getLast?.map Token.kind = some .bitWord → Kind.openBracket.name ∉ expected ∧
        (expected = [Kind.comma, Kind.closeParen].map Kind.name ∨
          expected = [Kind.equals, Kind.semicolon].map Kind.name)) := by
  obtain ⟨before, p, hbefore, hpulled, ha, hdone, rfl⟩ := exists_stage_of_unexpected h
  have hbit := Progress.getLast?_eq_bitWord_iff ha
  have hrefused (t : Token) : p.step t = .unexpected ↔
      t.kind.name ∉ p.expected.map Kind.name ∧ ¬ AtBracket before t := by
    rw [Progress.step_eq_unexpected_iff hdone, p.name_mem_expected_iff, AtBracket, hbit]
  refine ⟨before, hbefore, hpulled, ?_, ?_, ?_, ?_⟩
  · intro t ht
    rw [read_snoc ha]
    exact run_singleton_ne_unexpected (fun hs => ((hrefused t).mp hs).1 ht) _ _
  · intro t hname hbracket
    rw [read_snoc ha, Progress.run_of_halts (.unexpected ((hrefused t).mpr ⟨hname, hbracket⟩))]
    exact ⟨rfl, rfl⟩
  · intro t ht
    obtain ⟨b, rfl⟩ := hbit.mp ht.2
    rw [read_snoc ha]
    exact Progress.run_bracket ht.1 _ _
  · intro hlast
    obtain ⟨b, rfl⟩ := hbit.mp hlast
    rw [Progress.name_mem_expected_iff]
    simp only [Progress.expected, Role.closers]
    cases b.role with
    | port direction => exact ⟨by simp, Or.inl rfl⟩
    | wire => exact ⟨by simp, Or.inr rfl⟩

/-- After `in a : bit` a semicolon is blamed with a comma and a parenthesis named; a bracket is taken
there, so that the literal behind it is missed, and a brace is blamed in the same words. -/
theorem blamed_after_bit :
    let before : List Token := ([(.topWord, []), (.modWord, []), (.identifier, utf8 "m"),
      (.openParen, []), (.inWord, []), (.identifier, utf8 "a"), (.colon, []), (.bitWord, [])] :
        List (Kind × Bytes)).map fun x => ⟨0, 0, x.1, x.2⟩
    let mark (kind : Kind) : Token := ⟨5, 6, kind, []⟩
    let expected := [Kind.comma, Kind.closeParen].map Kind.name
    (Design.read ((before ++ [mark .semicolon]).map .token)).result =
        .error (.source (.unexpected (some (mark .semicolon)) 5 expected)) ∧
      Design.read ((before ++ [mark .openBracket]).map .token) =
        ⟨.error (.source (.unexpected none 6 [Kind.literal.name])), 10⟩ ∧
      (Design.read ((before ++ [mark .closeBrace]).map .token)).result =
        .error (.source (.unexpected (some (mark .closeBrace)) 5 expected)) := by
  intro before mark expected
  have h : (Design.read ((before ++ [mark .semicolon]).map .token)).result =
      .error (.source (.unexpected (some (mark .semicolon)) 5 expected)) := rfl
  obtain ⟨before', ⟨after, hts⟩, hpulled, -, hrefused, htaken, -⟩ :=
    blamed_iff_not_expected _ _ _ _ h
  obtain ⟨rfl, -⟩ := List.append_inj hts (Nat.succ.inj hpulled)
  exact ⟨h, htaken (mark .openBracket) ⟨rfl, rfl⟩,
    (hrefused (mark .closeBrace) (by decide) (fun hb => nomatch hb.1)).1⟩

end Bitwire
